import ReplicaRing.Proofs.GapFilling
import ReplicaRing.Proofs.CalmRuns
import ReplicaRing.Proofs.QuorumCounts
import ReplicaRing.Proofs.SweepRace

/-!
# What an acknowledged put guarantees

A put is acknowledged by some replicas, and a later read asks some. Where the two quorums overlap,
the read meets a replica that holds the key, whatever fails in between.

* `put_acknowledged`, `get_counts` — what is known of a put and of a get in the course of a run;
* `World.SoleWriter` — nobody else writes a key;
* `World.Settled`, `Settled.get` — all replicas hold the value, no sweep thinks otherwise, and a get
  returns it;
* `put_then_get` — what a get that starts after the put returns.
-/

namespace ReplicaRing

variable {k v : String}

/-! ### Puts and gets of a run -/

namespace Scenario

/-- An activity is a put that has not started yet. -/
def Activity.isPut (k v : String) : Activity → Bool
  | later _ (.put key value _) => key == k && value == v
  | _ => false

/-- An activity is a get that has not started yet. -/
def Activity.isGet (k : String) : Activity → Bool
  | later _ (.get key _) => key == k
  | _ => false

/-- What a write that has succeeded returns. -/
def Activity.written? : Activity → Option WriteOutcome
  | answered _ (.written o) => some o
  | _ => none

/-- What a read that has succeeded returns. -/
def Activity.value? : Activity → Option (Option String)
  | answered _ (.value x) => some x
  | _ => none

/-- Whether an answer says that an operation has not taken place: there is no ring, or the clock
cannot tell its deadline. -/
def Answer.declines : Answer → Bool
  | .rejected _ | .overflow _ => true
  | _ => false

/-- What is returned when a write succeeds. -/
theorem settle_ok {o : RingOptions} {elapsed : Duration} {out : FanOut} {x : WriteOutcome}
    (h : out.settle o k elapsed = .ok x) :
    o.writeQuorum ≤ out.acks ∧ x = ⟨out.acked, out.missed⟩ := by
  rw [FanOut.settle] at h
  split at h
  · next hquorum => exact ⟨hquorum, (Except.ok.inj h).symm⟩
  · split at h <;> cases h

/-- A write of a client is under way, has succeeded or has failed. -/
theorem Activity.ofWrite_cases (c : Cluster) (run : Write) :
    (ofWrite c run true).1 = .write run true ∨
      (∃ t, c.ring.options.writeQuorum ≤ run.outcome.acks ∧ (ofWrite c run true).1 =
        .answered t (.written ⟨run.outcome.acked, run.outcome.missed⟩)) ∨
      ∃ t e, (ofWrite c run true).1 = .answered t (.ringError e) := by
  cases hdone : run.isDone with
  | false =>
    rw [ofWrite, hdone]
    exact .inl rfl
  | true =>
    refine .inr ?_
    rw [ofWrite, hdone, if_pos rfl, if_pos rfl]
    simp only [now]
    split
    · next o hsettle =>
      obtain ⟨hquorum, rfl⟩ := settle_ok hsettle
      exact .inl ⟨_, hquorum, rfl⟩
    · next e _ => exact .inr ⟨_, e, rfl⟩

/-- A read of a client is under way, has succeeded or has failed. -/
theorem Activity.ofRead_cases (c : Cluster) (run : ReadRun) (primary : Option NodeId) :
    (ofRead c run primary true).1 = .read run primary true ∨
      (∃ t elapsed x, run.read.ahead = [] ∧
        run.read.outcome.settle c.ring.options run.read.key elapsed = .ok x ∧
          (ofRead c run primary true).1 = .answered t (.value x)) ∨
      ∃ t e, (ofRead c run primary true).1 = .answered t (.ringError e) := by
  cases hdone : run.read.isDone with
  | false =>
    rw [ofRead, hdone]
    exact .inl rfl
  | true =>
    refine .inr ?_
    rw [ofRead, hdone, if_pos rfl, if_pos rfl]
    simp only [now]
    split
    · next x hsettle => exact .inl ⟨_, _, x, List.isEmpty_iff.1 hdone, hsettle, rfl⟩
    · next e _ => exact .inr ⟨_, e, rfl⟩

namespace World

variable {ok : Request → Prop} {w v' : World} {past turns turns' : List (Instant × Turn)}
  {t : Instant} {x : Turn} {i j : Nat}

/-- An activity is about to start a put. -/
def Puts (w : World) (i : Nat) (k v : String) : Prop :=
  w.activities[i]?.any (Activity.isPut k v) = true

/-- An activity is about to start a get. -/
def Gets (w : World) (i : Nat) (k : String) : Prop :=
  w.activities[i]?.any (Activity.isGet k) = true

instance (w : World) (i : Nat) (k v : String) : Decidable (w.Puts i k v) :=
  inferInstanceAs (Decidable (_ = true))

instance (w : World) (i : Nat) (k : String) : Decidable (w.Gets i k) :=
  inferInstanceAs (Decidable (_ = true))

/-- What the put or delete of an activity has returned, if it has succeeded. -/
def written? (w : World) (i : Nat) : Option WriteOutcome := w.activities[i]?.bind Activity.written?

/-- What the get of an activity has returned, if it has succeeded. -/
def value? (w : World) (i : Nat) : Option (Option String) := w.activities[i]?.bind Activity.value?

theorem Puts.later (h : w.Puts i k v) :
    ∃ t timeout, w.activities[i]? = some (.later t (.put k v timeout)) := by
  obtain ⟨a, ha, hput⟩ := (Option.any_eq_true _ _).1 h
  unfold Activity.isPut at hput
  split at hput
  · simp only [Bool.and_eq_true, beq_iff_eq] at hput
    obtain ⟨rfl, rfl⟩ := hput
    exact ⟨_, _, ha⟩
  · exact absurd hput Bool.false_ne_true

theorem Gets.later (h : w.Gets i k) :
    ∃ t timeout, w.activities[i]? = some (.later t (.get k timeout)) := by
  obtain ⟨a, ha, hget⟩ := (Option.any_eq_true _ _).1 h
  unfold Activity.isGet at hget
  split at hget
  · obtain rfl := beq_iff_eq.1 hget
    exact ⟨_, _, ha⟩
  · exact absurd hget Bool.false_ne_true

theorem written?_eq_some {o : WriteOutcome} (h : w.written? i = some o) :
    ∃ t, w.activities[i]? = some (.answered t (.written o)) := by
  obtain ⟨a, ha, hwritten⟩ := Option.bind_eq_some_iff.1 h
  unfold Activity.written? at hwritten
  split at hwritten
  · obtain rfl := Option.some.inj hwritten
    exact ⟨_, ha⟩
  · exact absurd hwritten.symm (Option.some_ne_none o)

theorem value?_eq_some {x : Option String} (h : w.value? i = some x) :
    ∃ t, w.activities[i]? = some (.answered t (.value x)) := by
  obtain ⟨a, ha, hvalue⟩ := Option.bind_eq_some_iff.1 h
  unfold Activity.value? at hvalue
  split at hvalue
  · obtain rfl := Option.some.inj hvalue
    exact ⟨_, ha⟩
  · exact absurd hvalue.symm (Option.some_ne_none x)

/-- The start of a put asks all members of the placement, unless the put does not take place. -/
theorem put_starts (hw : w.Fair Operation.every) (good : Option String → Prop) (f : Fleet)
    (timeout : Option Duration) :
    (∃ c run, c.ring = w.cluster.ring ∧ run.change = .put v ∧ run.key = k ∧
      run.Counts (w.cluster.ring.placement k) f good ∧
        (w.begin (.put k v timeout)).1 = (Activity.ofWrite c run true).1) ∨
    ∃ t x, x.declines = true ∧ (w.begin (.put k v timeout)).1 = .answered t x := by
  rw [begin]
  split
  · simp only [beginChecked, beginWrite]
    split
    · let c := ((w.cluster.beginOp .put).place k).2
      let p := Write.start c.env c.now (c.ring.options.limit timeout) (.put v) k
        (w.cluster.ring.placement k) c.fleet
      refine .inl ⟨{ c with fleet := p.2 }, p.1, rfl, rfl, rfl, ?_, rfl⟩
      obtain ⟨htargets, -, -⟩ := Fleet.launchAll_servesAtMost hw.candid w.cluster.env w.cluster.now
        (.set k v) _ (hw.linked.placement k)
      have hperm : (p.1.flights.map (·.target)).Perm (w.cluster.ring.placement k).members := by
        rw [← htargets]
        exact (List.mergeSort_perm _ _).map _
      refine ⟨rfl, fun q hq => hperm.mem_iff.1 (List.mem_map_of_mem hq), ?_,
        fun id hid => absurd hid List.not_mem_nil⟩
      have hids := hperm.map Handle.id
      rw [List.map_map] at hids
      exact hids.nodup_iff.2 (List.pairwise_map.2 (hw.linked.sound.placement_ne _ _))
    · exact .inr ⟨_, _, rfl, rfl⟩
  · exact .inr ⟨_, _, rfl, rfl⟩

/-- The start of a get asks the first member of the placement, unless the get does not take
place. -/
theorem get_starts (hw : w.Fair Operation.every) (there : Handle → Bool) (seen : String → Prop)
    (timeout : Option Duration) :
    (∃ c run primary, c.ring = w.cluster.ring ∧ run.read.key = k ∧
      run.Counts (w.cluster.ring.placement k) there seen ∧
        (w.begin (.get k timeout)).1 = (Activity.ofRead c run primary true).1) ∨
    ∃ t x, x.declines = true ∧ (w.begin (.get k timeout)).1 = .answered t x := by
  rw [begin]
  split
  · simp only [beginChecked, beginRead]
    split
    · let c := ((w.cluster.beginOp .get).place k).2
      let p := ReadRun.start c k (w.cluster.ring.placement k) (c.ring.options.limit timeout)
      obtain ⟨-, -, hring⟩ := Cluster.askHead_servesAtMost (c := c) hw.candid
        (hw.linked.placement k) (.get k) (some (c.now + (c.ring.options.limit timeout).ticks))
      exact .inl ⟨p.2, p.1, _, hring, rfl, .start rfl, rfl⟩
    · exact .inr ⟨_, _, rfl, rfl⟩
  · exact .inr ⟨_, _, rfl, rfl⟩

/-! ### A put in the course of a run -/

/-- What is known of a put that is about to start, goes on or has been answered. -/
def PutCounts (w : World) (k v : String) (good : Option String → Prop)
    (past : List (Instant × Turn)) : Activity → Prop
  | .later _ op => ∃ timeout, op = .put k v timeout
  | .write run client => client = true ∧ run.change = .put v ∧ run.key = k ∧
      run.Counts (w.cluster.ring.placement k) (w.follow past).cluster.fleet good
  | .answered _ (.written o) =>
      Acknowledged w.cluster.ring (w.follow past).cluster.fleet k good o
  | .answered _ _ => True
  | _ => False

/-- A put that is under way, or has come to its end. -/
theorem putCounts_ofWrite {good : Option String → Prop} {c : Cluster} {run : Write}
    (hring : c.ring = w.cluster.ring) (hchange : run.change = .put v) (hkey : run.key = k)
    (h : run.Counts (w.cluster.ring.placement k) (w.follow past).cluster.fleet good) :
    w.PutCounts k v good past (Activity.ofWrite c run true).1 := by
  rcases Activity.ofWrite_cases c run with he | ⟨t, hquorum, he⟩ | ⟨t, e, he⟩ <;> rw [he]
  · exact ⟨rfl, hchange, hkey, h⟩
  · subst hkey
    exact h.acknowledged (hring ▸ hquorum)
  · exact trivial

/-- A turn leaves what the replicas of a key hold good. -/
def Preserves (good : Option String → Prop) (k : String) (v' : World) (x : Turn) : Prop :=
  ∀ m ∈ (v'.cluster.ring.placement k).members, good (v'.cluster.fleet.held m k) →
    good ((v'.go x).cluster.fleet.held m k)

/-- **The turn of a put.** -/
theorem PutCounts.own {good : Option String → Prop} {a : Activity} (hgood : good (some v))
    (h : w.PutCounts k v good past a) (htakes : w.Takes ok past t (.activity i) v')
    (hi : v'.activities[i]? = some a) (hkept : v'.Preserves good k (.activity i)) :
    w.PutCounts k v good (past ++ [(t, .activity i)]) (v'.stepActivity a).1 := by
  have hsame : v'.cluster.fleet = (w.follow past).cluster.fleet := by
    rw [htakes.before]
    rfl
  rw [Preserves, htakes.ring] at hkept
  cases a with
  | later t' op =>
    obtain ⟨timeout, rfl⟩ := h
    obtain ⟨c, run, hring, hchange, hkey, hcounts, hbegin⟩ | ⟨t', x, hx, hbegin⟩ :=
      put_starts htakes.fair good (w.follow (past ++ [(t, .activity i)])).cluster.fleet timeout
    · rw [stepActivity, hbegin]
      rw [htakes.ring] at hring hcounts
      exact putCounts_ofWrite hring hchange hkey hcounts
    · rw [stepActivity, hbegin]
      cases x with
      | written o => exact absurd hx Bool.false_ne_true
      | _ => exact trivial
  | write run client =>
    obtain ⟨rfl, hchange, rfl, hcounts⟩ := h
    have hfair := htakes.fair.activities i _ hi
    have hgoes := Write.goes htakes.fair.candid hfair
    let c := { v'.cluster with fleet := (run.step v'.cluster.fleet).2.1 }.report
      (run.step v'.cluster.fleet).2.2
    have hstep : v'.stepActivity (.write run true) =
        v'.started (Activity.ofWrite c (run.step v'.cluster.fleet).1 true) := rfl
    have hfleet : (v'.go (.activity i)).cluster.fleet = (run.step v'.cluster.fleet).2.1 := by
      rw [go_activity_some hi, hstep]
      exact (Activity.ofWrite_settles c _ true).fleet
    rw [hstep, started]
    refine putCounts_ofWrite htakes.ring (hgoes.change_eq.trans hchange) hgoes.key_eq ?_
    rw [htakes.after, hfleet]
    rw [hfleet] at hkept
    exact Write.Counts.goes (hsame ▸ hcounts) hgoes (fun q hq => (hfair q hq).houses) hchange
      hgood hkept
  | answered t' answer =>
    cases answer with
    | written o =>
      refine Acknowledged.mono h fun m hm hold => ?_
      rw [htakes.after]
      exact hkept m hm (hsame ▸ hold)
    | _ => exact trivial
  | _ => exact False.elim h

/-- The turn of somebody else. -/
theorem PutCounts.other {good : Option String → Prop} {a : Activity}
    (h : w.PutCounts k v good past a) (htakes : w.Takes ok past t x v')
    (hkept : v'.Preserves good k x) : w.PutCounts k v good (past ++ [(t, x)]) a := by
  have hstays : ∀ m ∈ (w.cluster.ring.placement k).members,
      good ((w.follow past).cluster.fleet.held m k) →
        good ((w.follow (past ++ [(t, x)])).cluster.fleet.held m k) := by
    intro m hm hold
    rw [htakes.after]
    refine hkept m (htakes.ring.symm ▸ hm) ?_
    rwa [htakes.before]
  cases a with
  | write run client =>
    obtain ⟨hclient, hchange, rfl, hcounts⟩ := h
    exact ⟨hclient, hchange, rfl, hcounts.mono hstays⟩
  | answered t' answer =>
    cases answer with
    | written o => exact Acknowledged.mono h hstays
    | _ => exact trivial
  | _ => exact h

/-- **Acknowledged puts.** The replicas that have acknowledged a put hold something good, if all
turns leave it good. -/
theorem put_acknowledged (good : Option String → Prop) {o : WriteOutcome}
    (hw : w.Fair Operation.every) (hput : w.Puts i k v)
    (hcalls : w.Calls turns (Activity.Calm ok)) (hgood : good (some v))
    (hkept : ∀ past t x v', past ++ [(t, x)] <+: turns → w.Takes ok past t x v' →
      v'.Preserves good k x) (hwritten : (w.follow turns).written? i = some o) :
    Acknowledged w.cluster.ring (w.follow turns).cluster.fleet k good o := by
  obtain ⟨t, timeout, hi⟩ := hput.later
  obtain ⟨t', hanswered⟩ := written?_eq_some hwritten
  obtain ⟨a, ha, hcounts⟩ := hw.follow_activity hcalls (I := w.PutCounts k v good) hi ⟨timeout, rfl⟩
    (fun past t v' a hinit htakes hi h =>
      h.own hgood htakes hi (hkept past t _ v' hinit htakes))
    (fun past t x v' a hinit htakes _ h => h.other htakes (hkept past t x v' hinit htakes))
  rwa [Option.some.inj (ha.symm.trans hanswered)] at hcounts

/-! ### A get in the course of a run -/

/-- What is known of a get that is about to start, goes on or has been answered. -/
def GetCounts (r : Ring) (k : String) (there : Handle → Bool) (seen : String → Prop) :
    Activity → Prop
  | .later _ op => ∃ timeout, op = .get k timeout
  | .read run _ client => client = true ∧ run.read.key = k ∧
      run.Counts (r.placement k) there seen
  | .answered _ (.value x) =>
      (x = none → r.options.readQuorum + (r.placement k).members.countP there ≤
        (r.placement k).members.length) ∧ ∀ u, x = some u → seen u
  | .answered _ _ => True
  | _ => False

/-- A get that is under way, or has come to its end. -/
theorem getCounts_ofRead {there : Handle → Bool} {seen : String → Prop} {c : Cluster}
    {run : ReadRun} (primary : Option NodeId) (hkey : run.read.key = k)
    (h : run.Counts (c.ring.placement k) there seen) :
    GetCounts c.ring k there seen (Activity.ofRead c run primary true).1 := by
  rcases Activity.ofRead_cases c run primary with
    he | ⟨t, elapsed, x, hdone, hsettle, he⟩ | ⟨t, e, he⟩ <;> rw [he]
  · exact ⟨rfl, hkey, h⟩
  · exact h.settled hdone hsettle
  · exact trivial

/-- **The turn of a get.** -/
theorem GetCounts.own {there : Handle → Bool} {seen : String → Prop} {a : Activity}
    (h : GetCounts v'.cluster.ring k there seen a) (htakes : w.Takes ok past t (.activity i) v')
    (hi : v'.activities[i]? = some a)
    (hthere : ∀ m ∈ (v'.cluster.ring.placement k).members, there m = true →
      v'.cluster.fleet.held m k ≠ none)
    (hseen : ∀ m ∈ (v'.cluster.ring.placement k).members, ∀ u,
      v'.cluster.fleet.held m k = some u → seen u) :
    GetCounts v'.cluster.ring k there seen (v'.stepActivity a).1 := by
  cases a with
  | later t' op =>
    obtain ⟨timeout, rfl⟩ := h
    obtain ⟨c, run, primary, hring, hkey, hcounts, hbegin⟩ | ⟨t', x, hx, hbegin⟩ :=
      get_starts htakes.fair there seen timeout
    · rw [stepActivity, hbegin]
      rw [← hring] at hcounts ⊢
      exact getCounts_ofRead primary hkey hcounts
    · rw [stepActivity, hbegin]
      cases x with
      | value found => exact absurd hx Bool.false_ne_true
      | _ => exact trivial
  | read run primary client =>
    obtain ⟨rfl, rfl, hcounts⟩ := h
    have hasks := htakes.fair.activities i _ hi
    obtain ⟨hgoes, hring⟩ := ReadRun.goes htakes.fair.candid hasks
    have hstep : v'.stepActivity (.read run primary true) =
        v'.started (Activity.ofRead (run.step v'.cluster).2 (run.step v'.cluster).1 primary true) :=
      rfl
    have hcounts' := hcounts.goes hgoes hasks hthere hseen
    rw [hstep, started]
    rw [← hring] at hcounts' ⊢
    exact getCounts_ofRead primary hgoes.key_eq hcounts'
  | answered t' answer => exact h
  | _ => exact False.elim h

/-- **Gets.** A get reports a key as absent only if enough replicas have answered that do not hold
it, and a value only if a replica has held it. -/
theorem get_counts (there : Handle → Bool) (seen : String → Prop) {x : Option String}
    (hw : w.Fair Operation.every) (hget : w.Gets j k)
    (hcalls : w.Calls turns (Activity.Calm ok))
    (hthere : ∀ past, past <+: turns → ∀ m ∈ (w.cluster.ring.placement k).members,
      there m = true → (w.follow past).cluster.fleet.held m k ≠ none)
    (hseen : ∀ past, past <+: turns → ∀ m ∈ (w.cluster.ring.placement k).members, ∀ u,
      (w.follow past).cluster.fleet.held m k = some u → seen u)
    (hvalue : (w.follow turns).value? j = some x) :
    (x = none → w.cluster.ring.options.readQuorum +
      (w.cluster.ring.placement k).members.countP there ≤
        (w.cluster.ring.placement k).members.length) ∧ ∀ u, x = some u → seen u := by
  obtain ⟨t, timeout, hj⟩ := hget.later
  obtain ⟨t', hanswered⟩ := value?_eq_some hvalue
  have hend := hw.follow_activity hcalls (I := fun _ => GetCounts w.cluster.ring k there seen) hj
    ⟨timeout, rfl⟩ ?_ fun _ _ _ _ _ _ _ _ h => h
  · obtain ⟨a, ha, hcounts⟩ := hend
    rwa [Option.some.inj (ha.symm.trans hanswered)] at hcounts
  intro past t v' a hinit htakes hi h
  have hpast : past <+: turns := (List.prefix_append _ _).trans hinit
  have hnow := hthere past hpast
  have hheld := hseen past hpast
  rw [← htakes.ring] at h hnow hheld ⊢
  refine h.own htakes hi (fun m hm hm' => ?_) fun m hm u hu => ?_
  · rw [htakes.before]
    exact hnow m hm hm'
  · rw [htakes.before] at hu
    exact hheld m hm u hu

/-- A get that reports a key as absent has been answered by a read quorum of replicas that did not
hold it when the get was to start, for no delete and no clear removes it meanwhile. -/
theorem get_none_counts (hw : w.Fair Operation.every) (hget : w.Gets j k)
    (hcalls : w.Calls turns (Activity.Calm (Request.Spares k)))
    (hvalue : (w.follow turns).value? j = some none) :
    w.cluster.ring.options.readQuorum + (w.cluster.ring.placement k).members.countP
      (fun m => (w.cluster.fleet.held m k).isSome) ≤
        (w.cluster.ring.placement k).members.length := by
  refine (get_counts _ (fun _ => True) hw hget hcalls (fun past hpast m hm hthere => ?_)
    (fun _ _ _ _ _ _ => trivial) hvalue).1 rfl
  exact hw.keeps hcalls hpast (fun _ hr => hr) (hw.linked.sound.placement_subset hm)
    (Option.isSome_iff_ne_none.1 hthere)

/-! ### A put without rivals -/

/-- No other activity that goes on may write a key. -/
def SoleWriter (w : World) (turns : List (Instant × Turn)) (i : Nat) (k : String) : Prop :=
  ∀ j a, j ≠ i → (∃ t, (t, Turn.activity j) ∈ turns) → w.activities[j]? = some a →
    ∀ r, a.Requests r → r.Avoids k

/-- Whatever is asked in a turn, only the put writes the key. -/
theorem SoleWriter.writes (h : w.SoleWriter turns i k) (hw : w.Fair Operation.every)
    (hcalls : w.Calls turns (Activity.Calm ok)) (hput : w.Puts i k v)
    (hinit : past ++ [(t, x)] <+: turns) (htakes : w.Takes ok past t x v') {r : Request}
    (hr : v'.Asks x r) : r.Avoids k ∨ r = .set k v := by
  cases x with
  | loop j => exact False.elim hr
  | activity j =>
    obtain ⟨a', ha', hr⟩ := hr
    have hpast : past <+: turns := (List.prefix_append _ _).trans hinit
    obtain ⟨a, ha, hleads⟩ := hw.follow_leads (hcalls.mono fun e he => hpast.subset he) j a'
      (by rwa [htakes.before] at ha')
    have hasked := hleads.requests r hr
    by_cases hj : j = i
    · obtain ⟨t', timeout, hi⟩ := hput.later
      subst hj
      obtain rfl := Option.some.inj (ha.symm.trans hi)
      exact .inr hasked
    · exact .inl (h j a hj ⟨t, hinit.subset (by simp)⟩ ha r hasked)

/-- Requests that either do not write a key or write a certain value leave that value. -/
theorem writes_effect {r : Request} (h : r.Avoids k ∨ r = .set k v) :
    r.effect k (some v) = some v := by
  rcases h with h | rfl
  · exact h.effect _
  · exact if_pos rfl

/-- Where no sweep is under way and only the put writes the key, its value stays. -/
theorem preserves_of_idle (htakes : w.Takes ok past t x v') (hidle : ∀ z, v'.sweepAt z = none)
    (hwrites : ∀ r, v'.Asks x r → r.Avoids k ∨ r = .set k v) :
    v'.Preserves (· = some v) k x := by
  intro m hm hold
  have hhouse := htakes.fair.linked.houses m (htakes.fair.linked.sound.placement_subset hm)
  rcases htakes.turned.held hhouse k with hsame | ⟨r, hr, heffect⟩ | ⟨run, job, u, hrun, -, -, -⟩
  · exact hsame.trans hold
  · rw [heffect, hold]
    exact writes_effect (hwrites r hr)
  · exact absurd ((hidle x).symm.trans hrun).symm (Option.some_ne_none run)

/-- All replicas of a key hold a value, and no sweep has found that one lacks the key. -/
structure Settled (w : World) (k v : String) : Prop where
  data : ∀ m ∈ (w.cluster.ring.placement k).members, w.cluster.fleet.held m k = some v
  sweeps : ∀ z run, w.sweepAt z = some run → run.sweep.stage.lacks? k = none ∧
    run.sweep.stage.Backed (fun k m => m ∈ (w.cluster.ring.placement k).members) fun _ _ => True

theorem Settled.advanceTo (h : w.Settled k v) (t : Instant) : (w.advanceTo t).Settled k v :=
  ⟨h.data, h.sweeps⟩

/-- **One turn.** A value on all replicas stays there: sweeps find nothing to copy. -/
theorem Settled.turn (h : v'.Settled k v) (htakes : w.Takes ok past t x v')
    (hwrites : ∀ r, v'.Asks x r → r.Avoids k ∨ r = .set k v) : (v'.go x).Settled k v := by
  have hring : (v'.go x).cluster.ring = v'.cluster.ring :=
    htakes.turned.ring_eq (spares_of_calm htakes.called)
  constructor
  · intro m hm
    rw [hring] at hm
    have hhouse := htakes.fair.linked.houses m (htakes.fair.linked.sound.placement_subset hm)
    rcases htakes.turned.held hhouse k with
      hsame | ⟨r, hr, heffect⟩ | ⟨run, job, u, hrun, hstage, hk, -⟩
    · exact hsame.trans (h.data m hm)
    · rw [heffect, h.data m hm]
      exact writes_effect (hwrites r hr)
    · have hlacks := (h.sweeps x run hrun).1
      rw [hstage, Sweep.Stage.lacks?, if_pos hk] at hlacks
      exact absurd hlacks (Option.some_ne_none m)
  · intro z run hrun
    rw [hring]
    rcases htakes.turned.sweeps hrun with hsame | rfl | ⟨run₀, cancelled, hz, hgoes⟩
    · exact h.sweeps z run hsame
    · exact ⟨rfl, trivial⟩
    · obtain ⟨hlacks, hbacked⟩ := h.sweeps z run₀ hz
      refine ⟨?_, hgoes.backed trivial (htakes.fair.sweep hz) hbacked (fun _ _ hm => hm)
        fun _ _ _ _ _ => trivial⟩
      cases hl : run.sweep.stage.lacks? k with
      | none => rfl
      | some m =>
        rcases hgoes.lacks trivial hl with hl | ⟨job, hstage, rfl, hnone⟩
        · exact absurd (hlacks.symm.trans hl).symm (Option.some_ne_none m)
        · rw [hstage] at hbacked
          exact absurd ((h.data m hbacked.2).symm.trans hnone) (Option.some_ne_none v)

/-- A turn of the rest of a run is a turn of the run. -/
theorem Takes.append (h : (w.follow turns).Takes ok past t x v')
    (hring : (w.follow turns).cluster.ring = w.cluster.ring) :
    w.Takes ok (turns ++ past) t x v' where
  before := by rw [follow_append, h.before]
  fair := h.fair
  ring := h.ring.trans hring
  called := h.called
  turned := h.turned

/-- A value on all replicas stays there along a run in which nothing else is written. -/
theorem Settled.follow (h : w.Settled k v) (hw : w.Fair Operation.every)
    (hcalls : w.Calls turns (Activity.Calm ok))
    (hwrites : ∀ past t x v', past ++ [(t, x)] <+: turns → w.Takes ok past t x v' →
      ∀ r, v'.Asks x r → r.Avoids k ∨ r = .set k v) : (w.follow turns).Settled k v := by
  refine (hw.follow_calm hcalls (Q := fun past => (w.follow past).Settled k v) h ?_).2
  intro past t x v' hinit htakes h
  rw [htakes.after]
  exact Settled.turn (htakes.before ▸ h.advanceTo t) htakes (hwrites past t x v' hinit htakes)

/-- A get returns a value that is on all replicas when it is to start, and stays there. -/
theorem Settled.get {found : Option String} (h : w.Settled k v) (hw : w.Fair Operation.every)
    (hvalid : w.cluster.ring.options.Valid) (hget : w.Gets j k)
    (hcalls : w.Calls turns (Activity.Calm (Request.Spares k)))
    (hwrites : ∀ past t x v', past ++ [(t, x)] <+: turns →
      w.Takes (Request.Spares k) past t x v' → ∀ r, v'.Asks x r → r.Avoids k ∨ r = .set k v)
    (hvalue : (w.follow turns).value? j = some found) : found = some v := by
  have hheld : ∀ past, past <+: turns → ∀ m ∈ (w.cluster.ring.placement k).members,
      (w.follow past).cluster.fleet.held m k = some v := by
    intro past hpast m hm
    have hpart := hcalls.mono fun e he => hpast.subset he
    refine (h.follow hw hpart fun past' t x v' hinit => ?_).data m ?_
    · exact hwrites past' t x v' (hinit.trans hpast)
    · rwa [hw.follow_ring hpart]
  cases found with
  | some u =>
    have hseen := (get_counts (fun _ => false) (· = v) hw hget hcalls
      (fun _ _ _ _ hfalse => absurd hfalse Bool.false_ne_true)
      (fun past hpast m hm u hu => Option.some.inj (hu.symm.trans (hheld past hpast m hm)))
      hvalue).2 u rfl
    rw [hseen]
  | none =>
    have hcount := get_none_counts hw hget hcalls hvalue
    have hall : ∀ m ∈ (w.cluster.ring.placement k).members,
        (w.cluster.fleet.held m k).isSome = true :=
      fun m hm => Option.isSome_iff_exists.2 ⟨v, hheld [] List.nil_prefix m hm⟩
    rw [List.countP_eq_length.2 hall] at hcount
    have hread := hvalid.2.2.1.1
    omega

/-- A put that no replica has missed leaves its value on all of them, if no sweep is under way and
nobody else writes the key. -/
theorem settled_of_put {o : WriteOutcome} (hw : w.Fair Operation.every) (hput : w.Puts i k v)
    (hcalls : w.Calls turns (Activity.Calm ok)) (hwritten : (w.follow turns).written? i = some o)
    (hmissed : o.missed = [])
    (hidle : ∀ past, past <+: turns → ∀ z, (w.follow past).sweepAt z = none)
    (hwrites : ∀ past t x v', past ++ [(t, x)] <+: turns → w.Takes ok past t x v' →
      ∀ r, v'.Asks x r → r.Avoids k ∨ r = .set k v) : (w.follow turns).Settled k v := by
  have hack := put_acknowledged (· = some v) hw hput hcalls rfl
    (fun past t x v' hinit htakes => preserves_of_idle htakes
      (fun z => htakes.before ▸ hidle past ((List.prefix_append _ _).trans hinit) z)
      (hwrites past t x v' hinit htakes)) hwritten
  refine ⟨fun m hm => ?_, fun z run hrun => ?_⟩
  · rw [hw.follow_ring hcalls] at hm
    exact hack.good_of_complete hw.linked.sound hmissed hm
  · exact absurd ((hidle turns (List.prefix_refl _) z).symm.trans hrun).symm
      (Option.some_ne_none run)

/-- **Acknowledged puts and later gets.** A put succeeds, and then a get of its key starts, while
other puts, sweeps and gets go on over a fixed membership and any request may fail or be late. No
delete or clear touches the key. If the replicas that have acknowledged the put and the read quorum
are together more than all replicas, the get does not report the key as absent. If none has missed
the put, no sweep was under way meanwhile and nobody else writes the key, then the get, if it
succeeds, returns the value. -/
theorem put_then_get {o : WriteOutcome} {found : Option String} (hw : w.Fair Operation.every)
    (hcalls : w.Calls (turns ++ turns') (Activity.Calm (Request.Spares k))) (hput : w.Puts i k v)
    (hwritten : (w.follow turns).written? i = some o) (hget : (w.follow turns).Gets j k)
    (hvalue : (w.follow (turns ++ turns')).value? j = some found) :
    (w.cluster.ring.options.replicaCount < o.acked.length + w.cluster.ring.options.readQuorum ∨
      w.cluster.ring.options.replicaCount <
        w.cluster.ring.options.writeQuorum + w.cluster.ring.options.readQuorum → found ≠ none) ∧
    (o.missed = [] → w.cluster.ring.options.Valid →
      (∀ past, past <+: turns → ∀ z, (w.follow past).sweepAt z = none) →
      w.SoleWriter (turns ++ turns') i k → found = some v) := by
  have hfirst : w.Calls turns (Activity.Calm (Request.Spares k)) :=
    hcalls.mono fun e he => List.mem_append_left _ he
  have hring := hw.follow_ring hfirst
  obtain ⟨hfair, hrest⟩ := hw.follow_rest hcalls
  rw [follow_append] at hvalue
  constructor
  · rintro hmany rfl
    have hack := put_acknowledged (· ≠ none) hw hput hfirst (Option.some_ne_none v)
      (fun past t x v' _ htakes m hm hold => htakes.keeps (fun _ hr => hr)
        (htakes.fair.linked.houses m (htakes.fair.linked.sound.placement_subset hm)) hold) hwritten
    have hcount := get_none_counts hfair hget hrest hvalue
    rw [hring] at hcount
    have hacked : o.acked.length ≤ (w.cluster.ring.placement k).members.countP
        fun m => ((w.follow turns).cluster.fleet.held m k).isSome := hack.length_le
    have hquorum := hack.quorum
    have hlength : (w.cluster.ring.placement k).members.length ≤
        w.cluster.ring.options.replicaCount := by
      rw [Ring.placement, hw.linked.sound.placement_members]
      exact List.length_take_le _ _
    omega
  · intro hmissed hvalid hidle hsole
    have hwrites : ∀ past t x v', past ++ [(t, x)] <+: turns ++ turns' →
        w.Takes (Request.Spares k) past t x v' → ∀ r, v'.Asks x r → r.Avoids k ∨ r = .set k v :=
      fun past t x v' hinit htakes r hr => hsole.writes hw hcalls hput hinit htakes hr
    have hsettled : (w.follow turns).Settled k v :=
      settled_of_put hw hput hfirst hwritten hmissed hidle fun past t x v' hinit =>
        hwrites past t x v' (hinit.trans (List.prefix_append _ _))
    refine hsettled.get hfair (by rwa [hring]) hget hrest
      (fun past t x v' hinit htakes => ?_) hvalue
    refine hwrites (turns ++ past) t x v' ?_ (htakes.append hring)
    rw [List.append_assoc]
    exact (List.prefix_append_right_inj turns).2 hinit

/-- Three nodes, of which the first two are the replicas of every key. The first one refuses to
store `a`, and the third one holds an old value of `b`. -/
def staleTrio : World where
  cluster :=
    { fleet := ⟨#[
        { id := ⟨10⟩,
          faults := .scripted [{ on := .set, key := some "a", act := .failed "busy" }] [] },
        { id := ⟨20⟩ },
        { id := ⟨30⟩, store := ⟨[("b", "old")]⟩ }]⟩
      ring := ⟨fun _ => 5, { replicaCount := 2, readQuorum := 2, opTimeout := .ofMillis 1000 },
        ⟨⟨[(⟨10⟩, ⟨⟨10⟩, 0⟩), (⟨20⟩, ⟨⟨20⟩, 1⟩), (⟨30⟩, ⟨⟨30⟩, 2⟩)]⟩, 0⟩⟩ }
  activities := #[.later 0 (.put "a" "1" none), .later 0 (.get "a" none),
    .later 0 (.put "b" "2" none), .later 0 (.get "b" none), .later 0 (.repair none)]
  registry := ⟨[(⟨10⟩, ⟨⟨10⟩, 0⟩), (⟨20⟩, ⟨⟨20⟩, 1⟩), (⟨30⟩, ⟨⟨30⟩, 2⟩)]⟩

theorem staleTrio_fresh : staleTrio.Fresh where
  activities := by simp [staleTrio]
  loops := rfl

theorem staleTrio_linked : staleTrio.Linked :=
  .of_registry ⟨by unfold OrderedMap.Sorted; decide, by decide⟩ (by decide) rfl

theorem staleTrio_fair : staleTrio.Fair Operation.every :=
  staleTrio_fresh.fair staleTrio_linked (by
    simp [Fleet.Candid, staleTrio, Node.Candid, Faults.Candid, Rule.Candid])

theorem staleTrio_calls (turns : List (Instant × Turn)) (k : String) :
    staleTrio.Calls turns (Activity.Calm (Request.Spares k)) := by
  refine Calls.of_forall (fun i a ha => ?_) turns
  have hmem := Array.mem_of_getElem? ha
  simp only [staleTrio, List.mem_toArray, List.mem_cons, List.not_mem_nil, or_false] at hmem
  rcases hmem with rfl | rfl | rfl | rfl | rfl <;>
    exact ⟨⟨trivial, by rintro r ⟨⟩ <;> trivial⟩, trivial⟩

theorem staleTrio_soleWriter (turns : List (Instant × Turn)) :
    staleTrio.SoleWriter turns 2 "b" := by
  intro j a hj _ ha r hr
  rcases j with _ | _ | _ | _ | _ | j
  · obtain rfl := Option.some.inj ha
    obtain rfl : r = .set "a" "1" := hr
    exact (by decide : "a" ≠ "b")
  · obtain rfl := Option.some.inj ha
    obtain rfl : r = .get "a" := hr
    exact trivial
  · exact absurd rfl hj
  · obtain rfl := Option.some.inj ha
    obtain rfl : r = .get "b" := hr
    exact trivial
  · obtain rfl := Option.some.inj ha
    exact False.elim hr
  · simp [staleTrio] at ha

/-- An activity goes on for some turns. -/
def goingOn (n i : Nat) : List (Instant × Turn) := List.replicate n (0, .activity i)

theorem follow_writing (rest : List (Instant × Turn)) (h : i = 0 ∧ k = "a" ∧ v = "1" ∨
    i = 2 ∧ k = "b" ∧ v = "2") : staleTrio.follow ((0, .activity i) :: rest) =
      ((staleTrio.advanceTo 0).writing i (.put v) k none).follow rest := by
  rw [follow]
  rcases h with ⟨rfl, rfl, rfl⟩ | ⟨rfl, rfl, rfl⟩
  · rw [go_write (.put "1") rfl rfl rfl (by decide) (by decide)]
  · rw [go_write (.put "2") rfl rfl rfl (by decide) (by decide)]

/-- Whether no sweep is under way. -/
def isQuiet (w : World) : Bool :=
  w.activities.all (·.sweepRun?.isNone) && w.loops.all (·.sweepRun?.isNone)

theorem sweepAt_of_isQuiet (h : w.isQuiet = true) (z : Turn) : w.sweepAt z = none := by
  rw [isQuiet, Bool.and_eq_true, Array.all_eq_true_iff_forall_mem,
    Array.all_eq_true_iff_forall_mem] at h
  cases z with
  | activity i =>
    rw [sweepAt, Option.bind_eq_none_iff]
    exact fun a ha => Option.isNone_iff_eq_none.1 (h.1 a (Array.mem_of_getElem? ha))
  | loop i =>
    rw [sweepAt, Option.bind_eq_none_iff]
    exact fun l hl => Option.isNone_iff_eq_none.1 (h.2 l (Array.mem_of_getElem? hl))

/-- No sweep is under way while `b` is put. -/
theorem staleTrio_quiet : ∀ past, past <+: (0, .activity 2) :: goingOn 2 2 →
    ∀ z, (staleTrio.follow past).sweepAt z = none := by
  intro past hpast
  rcases List.prefix_cons_iff.1 hpast with rfl | ⟨rest, rfl, hrest⟩
  · exact staleTrio_fresh.sweepAt
  · have hinits : ∀ rest ∈ (goingOn 2 2).inits,
        (((staleTrio.advanceTo 0).writing 2 (.put "2") "b" none).follow rest).isQuiet = true := by
      decide +kernel
    rw [follow_writing rest (.inr ⟨rfl, rfl, rfl⟩)]
    exact sweepAt_of_isQuiet (hinits rest ((List.mem_inits _ _).2 hrest))

/-- Only the second node acknowledges the put of `a`, and still a get does not miss it. Both
replicas acknowledge the put of `b`, so that a get returns it although a sweep has met the old
value. -/
theorem put_then_get_staleTrio :
    staleTrio.Fair Operation.every ∧ staleTrio.Puts 0 "a" "1" ∧ staleTrio.Puts 2 "b" "2" ∧
    (∀ turns k, staleTrio.Calls turns (Activity.Calm (Request.Spares k))) ∧
    (∀ turns, staleTrio.SoleWriter turns 2 "b") ∧
    (staleTrio.follow ((0, .activity 0) :: goingOn 2 0)).written? 0 = some ⟨[⟨20⟩], [⟨10⟩]⟩ ∧
    (∃ found, (staleTrio.follow ((0, .activity 0) :: goingOn 2 0 ++ goingOn 4 1)).value? 1 =
      some found ∧ found ≠ none) ∧
    (staleTrio.follow ((0, .activity 2) :: goingOn 2 2)).written? 2 =
      some ⟨[⟨10⟩, ⟨20⟩], []⟩ ∧
    ∃ found, (staleTrio.follow ((0, .activity 2) :: goingOn 2 2 ++
      (goingOn 40 4 ++ goingOn 4 3))).value? 3 = some found ∧ found = some "2" := by
  have hputs : staleTrio.Puts 0 "a" "1" ∧ staleTrio.Puts 2 "b" "2" := by decide
  have hfirst : (staleTrio.follow ((0, .activity 0) :: goingOn 2 0)).written? 0 =
      some ⟨[⟨20⟩], [⟨10⟩]⟩ := by
    rw [follow_writing _ (.inl ⟨rfl, rfl, rfl⟩)]
    decide +kernel
  have hsecond : (staleTrio.follow ((0, .activity 2) :: goingOn 2 2)).written? 2 =
      some ⟨[⟨10⟩, ⟨20⟩], []⟩ := by
    rw [follow_writing _ (.inr ⟨rfl, rfl, rfl⟩)]
    decide +kernel
  have hgets : (staleTrio.follow ((0, .activity 0) :: goingOn 2 0)).Gets 1 "a" ∧
      (staleTrio.follow ((0, .activity 2) :: goingOn 2 2)).Gets 3 "b" := by
    rw [follow_writing _ (.inl ⟨rfl, rfl, rfl⟩), follow_writing _ (.inr ⟨rfl, rfl, rfl⟩)]
    decide +kernel
  have hfound : (staleTrio.follow ((0, .activity 0) :: goingOn 2 0 ++ goingOn 4 1)).value? 1 =
      some (some "1") := by
    rw [List.cons_append, follow_writing _ (.inl ⟨rfl, rfl, rfl⟩)]
    decide +kernel
  have hreturned : (staleTrio.follow ((0, .activity 2) :: goingOn 2 2 ++
      (goingOn 40 4 ++ goingOn 4 3))).value? 3 = some (some "2") := by
    rw [List.cons_append, follow_writing _ (.inr ⟨rfl, rfl, rfl⟩)]
    decide +kernel
  obtain ⟨hpresent, -⟩ := put_then_get staleTrio_fair (staleTrio_calls _ "a") hputs.1 hfirst
    hgets.1 hfound
  obtain ⟨-, hexact⟩ := put_then_get staleTrio_fair (staleTrio_calls _ "b") hputs.2 hsecond
    hgets.2 hreturned
  have hvalid : staleTrio.cluster.ring.options.Valid := by
    unfold RingOptions.Valid
    decide
  exact ⟨staleTrio_fair, hputs.1, hputs.2, staleTrio_calls, staleTrio_soleWriter, hfirst,
    ⟨_, hfound, hpresent (by decide)⟩, hsecond, _, hreturned,
    hexact rfl hvalid staleTrio_quiet (staleTrio_soleWriter _)⟩

end World

end Scenario

end ReplicaRing

import Mathlib.Data.List.Perm.Subperm
import ReplicaRing.Proofs.ClientEvents

/-!
# Counting answers

A write counts the replicas that have acknowledged it, a read those that have answered without the
key. What the counts say about the nodes is kept by every event of the write and of the read.

* `Write.Counts` — the replicas that have acknowledged a put hold a value;
* `Acknowledged` — a put that has reached its quorum;
* `ReadRun.Counts` — the replicas that hold the key are not among those that answered without it;
* `ReadRun.Counts.settled` — when a read reports a key as absent.
-/

namespace ReplicaRing

variable {p : Placement} {f f' : Fleet} {k v : String}

/-! ### Writes -/

/-- The members of a placement that have acknowledged a write are different ones, and what they hold
is good. -/
structure Write.Counts (p : Placement) (f : Fleet) (good : Option String → Prop) (run : Write) :
    Prop where
  members : run.outcome.members = p.ids
  targets : ∀ q ∈ run.flights, q.target ∈ p.members
  distinct : (run.outcome.acked ++ run.flights.map (·.target.id)).Nodup
  acked : ∀ id ∈ run.outcome.acked, ∃ m ∈ p.members, m.id = id ∧ good (f.held m run.key)

namespace Write.Counts

variable {good : Option String → Prop} {run run' : Write}

/-- What the members hold stays good. -/
theorem mono (h : run.Counts p f good)
    (hkept : ∀ m ∈ p.members, good (f.held m run.key) → good (f'.held m run.key)) :
    run.Counts p f' good where
  members := h.members
  targets := h.targets
  distinct := h.distinct
  acked id hid := by
    obtain ⟨m, hm, he, hgood⟩ := h.acked id hid
    exact ⟨m, hm, he, hkept m hm hgood⟩

/-- **The next event of a put.** A member that acknowledges it holds the value. -/
theorem goes (h : run.Counts p f good) (hgoes : run.Goes Operation.every f f' run')
    (hhouses : ∀ q ∈ run.flights, f.Houses q.target) (hchange : run.change = .put v)
    (hgood : good (some v))
    (hkept : ∀ m ∈ p.members, good (f.held m run.key) → good (f'.held m run.key)) :
    run'.Counts p f' good := by
  have h' := h.mono hkept
  cases hgoes with
  | rests done still => exact h'
  | expires still =>
    exact ⟨h'.members, fun q hq => absurd hq List.not_mem_nil,
      h'.distinct.sublist (by simp), h'.acked⟩
  | hears q flights answer first intime ends =>
    obtain ⟨change, key, started, deadline, flights', outcome⟩ := run
    obtain rfl : change = .put v := hchange
    obtain rfl : flights' = q :: flights := first
    have htarget := h.targets q (List.mem_cons_self ..)
    have hrest : ∀ q' ∈ flights, q'.target ∈ p.members :=
      fun q' hq' => h.targets q' (List.mem_cons_of_mem _ hq')
    cases answer with
    | error e =>
      refine ⟨h'.members, hrest, h'.distinct.sublist ?_, h'.acked⟩
      exact (List.Sublist.refl _).append (List.sublist_cons_self _ _)
    | ok reply =>
      refine ⟨h'.members, hrest, ?_, fun id hid => ?_⟩
      · have hdistinct := h'.distinct
        rwa [List.map_cons, List.append_cons] at hdistinct
      · rcases List.mem_append.1 hid with hid | hid
        · exact h'.acked id hid
        · obtain rfl := List.mem_singleton.1 hid
          refine ⟨q.target, htarget, rfl, ?_⟩
          have hstored : f'.held q.target key = some v :=
            Fleet.Ends.stored ends trivial (hhouses q (List.mem_cons_self ..))
          rw [hstored]
          exact hgood

end Write.Counts

/-- A put that has been acknowledged by enough members of a placement, which hold something good. -/
structure Acknowledged (r : Ring) (f : Fleet) (k : String) (good : Option String → Prop)
    (o : WriteOutcome) : Prop where
  quorum : r.options.writeQuorum ≤ o.acked.length
  distinct : o.acked.Nodup
  acked : ∀ id ∈ o.acked, ∃ m ∈ (r.placement k).members, m.id = id ∧ good (f.held m k)
  complete : o.missed = [] → ∀ m ∈ (r.placement k).members, m.id ∈ o.acked

/-- A put that has come to its end with enough acknowledgements. -/
theorem Write.Counts.acknowledged {r : Ring} {good : Option String → Prop} {run : Write}
    (h : run.Counts (r.placement run.key) f good)
    (hquorum : r.options.writeQuorum ≤ run.outcome.acks) :
    Acknowledged r f run.key good ⟨run.outcome.acked, run.outcome.missed⟩ where
  quorum := hquorum
  distinct := h.distinct.sublist (List.sublist_append_left _ _)
  acked := h.acked
  complete hmissed m hm := by
    obtain ⟨hfailed, htimedOut⟩ := List.append_eq_nil_iff.1 hmissed
    have hmember : m.id ∈ run.outcome.members := by
      rw [h.members]
      exact List.mem_map_of_mem hm
    have hanswered := List.filter_eq_nil_iff.1 htimedOut m.id hmember
    simpa [List.map_eq_nil_iff.1 hfailed] using hanswered

namespace Acknowledged

variable {r : Ring} {good : Option String → Prop} {o : WriteOutcome}

theorem mono (h : Acknowledged r f k good o)
    (hkept : ∀ m ∈ (r.placement k).members, good (f.held m k) → good (f'.held m k)) :
    Acknowledged r f' k good o where
  quorum := h.quorum
  distinct := h.distinct
  acked id hid := by
    obtain ⟨m, hm, he, hgood⟩ := h.acked id hid
    exact ⟨m, hm, he, hkept m hm hgood⟩
  complete := h.complete

/-- As many members hold the key as have acknowledged the put. -/
theorem length_le (h : Acknowledged r f k (· ≠ none) o) :
    o.acked.length ≤ (r.placement k).members.countP fun m => (f.held m k).isSome := by
  have hsub : o.acked ⊆
      ((r.placement k).members.filter fun m => (f.held m k).isSome).map Handle.id := by
    intro id hid
    obtain ⟨m, hm, rfl, hsome⟩ := h.acked id hid
    exact List.mem_map_of_mem (List.mem_filter.2 ⟨hm, Option.isSome_iff_ne_none.2 hsome⟩)
  have hle := (List.subperm_of_subset h.distinct hsub).length_le
  rwa [List.length_map, ← List.countP_eq_length_filter] at hle

/-- What all members hold is good if all of them have acknowledged the put. -/
theorem good_of_complete (h : Acknowledged r f k good o) (hr : r.membership.Sound)
    (hmissed : o.missed = []) {m : Handle} (hm : m ∈ (r.placement k).members) :
    good (f.held m k) := by
  obtain ⟨m', hm', hid, hgood⟩ := h.acked m.id (h.complete hmissed m hm)
  rwa [hr.eq_of_id (hr.placement_subset hm') (hr.placement_subset hm) hid] at hgood

end Acknowledged

/-! ### Reads -/

/-- What a read has found has been seen, and each member that it has asked and that holds the key
has failed to answer. -/
structure ReadRun.Counts (p : Placement) (there : Handle → Bool) (seen : String → Prop)
    (run : ReadRun) : Prop where
  ahead : ∀ m ∈ run.read.ahead, m ∈ p.members
  hit : ∀ id u, run.read.outcome.hit = some (id, u) → seen u
  asked : run.read.outcome.hit = none → run.read.outcome.timedOut = false →
    ∃ done, p.members = done ++ run.read.ahead ∧
      run.read.outcome.answered + done.countP there ≤ done.length

namespace ReadRun.Counts

variable {there : Handle → Bool} {seen : String → Prop} {run run' : ReadRun}

theorem start (hread : run.read = Read.start k p) : run.Counts p there seen where
  ahead m hm := by rwa [hread] at hm
  hit id u hu := by
    rw [hread] at hu
    exact absurd hu.symm (Option.some_ne_none _)
  asked _ _ := by
    rw [hread]
    exact ⟨[], rfl, Nat.le_refl 0⟩

/-- The member asked is passed over, and it has not answered or does not hold the key. -/
theorem pass {done rest : List Handle} {m : Handle} {answered answered' : Nat}
    (h : answered + done.countP there ≤ done.length)
    (hnext : answered' = answered ∨ answered' = answered + 1 ∧ there m = false)
    (hmembers : p.members = done ++ m :: rest) :
    ∃ done', p.members = done' ++ rest ∧ answered' + done'.countP there ≤ done'.length := by
  refine ⟨done ++ [m], by rw [hmembers, List.append_assoc]; rfl, ?_⟩
  rw [List.countP_append, List.length_append, List.countP_singleton, List.length_singleton]
  rcases hnext with rfl | ⟨rfl, hm⟩
  · split <;> omega
  · rw [if_neg (by simp [hm])]
    omega

/-- **The next event of a read.** A member that answers without the key does not hold it. -/
theorem goes (h : run.Counts p there seen) (hgoes : run.Goes Operation.every f f' run')
    (hasks : Cluster.AsksHead Operation.every f run.read.ahead (.get run.read.key) run.inquiry)
    (hthere : ∀ m ∈ p.members, there m = true → f.held m run.read.key ≠ none)
    (hseen : ∀ m ∈ p.members, ∀ u, f.held m run.read.key = some u → seen u) :
    run'.Counts p there seen := by
  cases hgoes with
  | rests idle still => exact h
  | hears q answer? q? asked ends asks =>
    have hhead : run.read.ahead.head? = some q.flight.target := by rw [← hasks.head, asked]; rfl
    obtain ⟨rest, hahead⟩ : ∃ rest, run.read.ahead = q.flight.target :: rest :=
      List.head?_eq_some_iff.1 hhead
    have htarget : q.flight.target ∈ p.members :=
      h.ahead _ (hahead ▸ List.mem_cons_self ..)
    have hnext : ∀ m ∈ run.read.ahead.tail, m ∈ p.members :=
      fun m hm => h.ahead m (List.mem_of_mem_tail hm)
    rcases answer? with _ | e | _ | u
    · exact ⟨fun m hm => absurd hm List.not_mem_nil, h.hit, fun _ htime => nomatch htime⟩
    · refine ⟨hnext, h.hit, fun hhit htime => ?_⟩
      obtain ⟨done, hmembers, hcount⟩ := h.asked hhit htime
      rw [hahead] at hmembers
      have hpass := pass hcount (.inl rfl) hmembers
      rw [show (run.hear q.flight.target (some (.error e))).ahead = rest from
        congrArg List.tail hahead]
      exact hpass
    · refine ⟨hnext, h.hit, fun hhit htime => ?_⟩
      obtain ⟨done, hmembers, hcount⟩ := h.asked hhit htime
      rw [hahead] at hmembers
      have hlacks : there q.flight.target = false := by
        refine Bool.eq_false_iff.2 fun hholds => ?_
        exact hthere _ htarget hholds (ends.found trivial)
      have hpass := pass hcount (.inr ⟨rfl, hlacks⟩) hmembers
      rw [show (run.hear q.flight.target (some (.ok none))).ahead = rest from
        congrArg List.tail hahead]
      exact hpass
    · refine ⟨fun m hm => absurd hm List.not_mem_nil, fun id u' hu' => ?_, fun hhit => ?_⟩
      · obtain ⟨rfl, rfl⟩ := Prod.mk.inj (Option.some.inj hu')
        exact hseen _ htarget _ (ends.found trivial)
      · exact absurd hhit (Option.some_ne_none _)

/-- A read that has come to its end reports the key as absent only if enough members that do not
hold it have answered. -/
theorem settled {o : RingOptions} {elapsed : Duration} {x : Option String}
    (h : run.Counts p there seen) (hdone : run.read.ahead = [])
    (hsettle : run.read.outcome.settle o k elapsed = .ok x) :
    (x = none → o.readQuorum + p.members.countP there ≤ p.members.length) ∧
      ∀ u, x = some u → seen u := by
  rw [ReadOutcome.settle] at hsettle
  cases hhit : run.read.outcome.hit with
  | some found =>
    rw [hhit] at hsettle
    obtain rfl := Except.ok.inj hsettle
    refine ⟨fun he => absurd he (Option.some_ne_none _), fun u hu => ?_⟩
    exact h.hit found.1 u (hhit.trans (congrArg some (Prod.ext rfl (Option.some.inj hu))))
  | none =>
    rw [hhit] at hsettle
    simp only at hsettle
    split at hsettle
    · cases hsettle
    · next htime =>
      split at hsettle
      · cases hsettle
      · next hquorum =>
        obtain rfl := Except.ok.inj hsettle
        refine ⟨fun _ => ?_, fun u hu => absurd hu.symm (Option.some_ne_none u)⟩
        obtain ⟨done, hmembers, hcount⟩ := h.asked hhit (Bool.eq_false_iff.2 htime)
        rw [hdone, List.append_nil] at hmembers
        rw [hmembers]
        omega

end ReadRun.Counts

end ReplicaRing

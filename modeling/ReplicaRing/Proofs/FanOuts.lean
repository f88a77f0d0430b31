import Mathlib.Data.List.Sort
import ReplicaRing.Proofs.Punctual

/-!
# What a write comes to

How long each member of a write takes and what it makes of the request is settled when the write
starts. From this alone it follows who acknowledges the write, who fails and who is given up, in
which order, and what the stores hold afterwards, however other calls change the membership
meanwhile.

* `Fleet.fate`, `Fleet.wait` — what becomes of a request to a node, and how long it takes;
* `FanOut.Tells` — the outcome of a write, told from the fates of its members;
* `byWait` — the members in the order of their answers, `FanOut.tally` — what they have answered;
* `WriteCall` — a write as it starts, `WriteCall.Along` — a write under way;
* `WriteCall.kept_along` — the events of a write keep it along;
* `writes_settle` — a write to a list of nodes, or to the replicas of a key, comes to its end.
-/

namespace ReplicaRing

/-! ### Lists without repetition -/

namespace Placement

theorem foldl_push_eq_loop (hs : List Handle) (p : Placement) :
    (hs.foldl push p).members =
      List.eraseDupsBy.loop (fun a b => b.id == a.id) hs p.members.reverse := by
  induction hs generalizing p with
  | nil =>
    rw [List.eraseDupsBy.loop, List.reverse_reverse]
    rfl
  | cons h hs ih =>
    rw [List.foldl_cons, ih, List.eraseDupsBy.loop, push, contains, List.any_reverse]
    cases p.members.any fun b => b.id == h.id with
    | true => rfl
    | false =>
      show _ = List.eraseDupsBy.loop _ hs (h :: p.members.reverse)
      rw [if_neg Bool.false_ne_true, List.reverse_append]
      rfl

/-- **The members of a list.** Of several nodes with one identity only the first is kept. -/
theorem ofList_members_eq (hs : List Handle) :
    (ofList hs).members = hs.eraseDupsBy fun a b => b.id == a.id :=
  foldl_push_eq_loop hs {}

theorem foldl_push_distinct (hs : List Handle) {p : Placement}
    (hp : p.members.Pairwise fun a b => a.id ≠ b.id) :
    (hs.foldl push p).members.Pairwise fun a b => a.id ≠ b.id := by
  induction hs generalizing p with
  | nil => exact hp
  | cons h hs ih =>
    apply ih
    rw [push]
    split
    · exact hp
    · next hfresh =>
      refine List.pairwise_append.2 ⟨hp, List.pairwise_singleton _ _, fun a ha b hb hab => ?_⟩
      obtain rfl := List.mem_singleton.1 hb
      exact hfresh (List.any_eq_true.2 ⟨a, ha, beq_iff_eq.2 hab⟩)

theorem ofList_distinct (hs : List Handle) :
    (ofList hs).members.Pairwise fun a b => a.id ≠ b.id :=
  foldl_push_distinct hs List.Pairwise.nil

end Placement

/-! ### Fates -/

theorem Change.effect_eq (change : Change) (key k : String) (old : Option String) :
    (change.request key).effect k old = if k = key then change.value else old := by
  cases change <;> rfl

/-- The error that a request ends with, if it does. -/
def Verdict.error? : Verdict → Option NodeError
  | refuse e => some e
  | _ => none

/-- What becomes of a request to a node that starts now. -/
def Fleet.fate (f : Fleet) (env : Env) (r : Request) (h : Handle) : Fate :=
  ((f.node h).begin env r).1

/-- How long a node takes for a request that starts now, in ticks of the clock. -/
def Fleet.wait (f : Fleet) (env : Env) (r : Request) (h : Handle) : Nat :=
  (f.fate env r h).wait env.timer

/-- A node that is switched off fails a request at once. -/
theorem Fleet.fate_of_isDown {f : Fleet} {h : Handle} (hh : f.Houses h)
    (hdown : (f.node h).isDown = true) (env : Env) (r : Request) :
    f.wait env r h = 0 ∧ (f.fate env r h).verdict.error? = some (.unavailable h.id) := by
  rw [Node.isDown] at hdown
  split at hdown
  next i hi =>
    have hfate : f.fate env r h = ⟨.zero, .refuse (.unavailable h.id)⟩ := by
      simp only [Fleet.fate, Node.begin, hi, Injection.fate, hdown, if_true, hh.node_id]
    rw [Fleet.wait, hfate]
    exact ⟨env.timer.wait_zero, rfl⟩
  next => exact absurd hdown Bool.false_ne_true

/-- One member answers before another: it takes less time, or as much time and it comes first among
the members. -/
def Earlier (ms : List Handle) (wait : Handle → Nat) (a b : Handle) : Prop :=
  wait a < wait b ∨ wait a = wait b ∧ [a, b].Sublist ms

/-- The outcome of a write, told from the fates of its members and how long they take: those that
answer in time do so in the order of their waits, and everybody has acknowledged the write, failed
or been given up. -/
structure FanOut.Tells (ms : List Handle) (fate : Handle → Fate) (wait : Handle → Nat)
    (limit : Nat) (o : FanOut) : Prop where
  arrivals : ∃ order : List Handle,
    order.Perm (ms.filter fun h => wait h ≤ limit) ∧
    order.Pairwise (Earlier ms wait) ∧
    o.acked = (order.filter fun h => (fate h).verdict.error?.isNone).map Handle.id ∧
    o.failed = order.filterMap fun h => (fate h).verdict.error?.map fun e => (h.id, e)
  timedOut : o.timedOut = (ms.filter fun h => limit < wait h).map Handle.id
  complete : (o.acked ++ o.failed.map Prod.fst ++ o.timedOut).Perm (ms.map Handle.id)
  distinct : (ms.map Handle.id).Nodup

/-- The members that have acknowledged a change hold what it says, and no other value differs. -/
def Fleet.Shows (f : Fleet) (ms : List Handle) (acked : List NodeId) (change : Change)
    (key : String) (f' : Fleet) : Prop :=
  ∀ x, f.Houses x → ∀ k, f'.held x k =
    if x ∈ ms ∧ x.id ∈ acked ∧ k = key then change.value else f.held x k

/-! ### The order of the answers -/

/-- The nodes of a list by their waits; of two with one wait, the earlier one in the list comes
first. -/
def byWait (wait : Handle → Nat) (ms : List Handle) : List Handle :=
  ms.mergeSort fun a b => wait a ≤ wait b

section Order

variable {fate : Handle → Fate} {wait : Handle → Nat} {ms done : List Handle}

theorem byWait_perm (wait : Handle → Nat) (ms : List Handle) : (byWait wait ms).Perm ms :=
  List.mergeSort_perm ms _

theorem wait_trans (a b c : Handle) (hab : decide (wait a ≤ wait b) = true)
    (hbc : decide (wait b ≤ wait c) = true) :
    decide (wait a ≤ wait c) = true := by
  rw [decide_eq_true_eq] at *
  omega

theorem wait_total (a b : Handle) :
    (decide (wait a ≤ wait b) || decide (wait b ≤ wait a)) = true := by
  rw [Bool.or_eq_true, decide_eq_true_eq, decide_eq_true_eq]
  omega

theorem byWait_ascends (wait : Handle → Nat) (ms : List Handle) :
    (byWait wait ms).Pairwise fun a b => wait a ≤ wait b :=
  (List.pairwise_mergeSort wait_trans wait_total ms).imp fun h => of_decide_eq_true h

/-- Sorting by waits leaves nodes with one wait in their order. The induction is on the list: its
head comes behind those that take less time and before all others. -/
theorem byWait_pairwise (wait : Handle → Nat) (ms : List Handle) :
    (byWait wait ms).Pairwise (Earlier ms wait) := by
  induction ms with
  | nil =>
    rw [byWait, List.mergeSort_nil]
    exact List.Pairwise.nil
  | cons a ms ih =>
    obtain ⟨front, back, hwhole, hrest, hfront⟩ := List.mergeSort_cons wait_trans wait_total a ms
    have hsorted : (front ++ a :: back).Pairwise fun a b => wait a ≤ wait b :=
      hwhole ▸ byWait_ascends wait (a :: ms)
    have hperm : (front ++ back).Perm ms := hrest ▸ List.mergeSort_perm ms _
    have hmem : ∀ b ∈ back, b ∈ ms := fun b hb =>
      hperm.mem_iff.1 (List.mem_append_right front hb)
    rw [byWait, hrest] at ih
    have hold : (front ++ back).Pairwise (Earlier (a :: ms) wait) := by
      refine ih.imp fun h => h.imp_right fun ⟨heq, hsub⟩ => ⟨heq, ?_⟩
      exact hsub.trans (List.sublist_cons_self a ms)
    obtain ⟨hpf, hpb, hcross⟩ := List.pairwise_append.1 hold
    rw [byWait, hwhole]
    refine List.pairwise_append.2 ⟨hpf, List.pairwise_cons.2 ⟨fun b hb => ?_, hpb⟩, ?_⟩
    · have hle := (List.pairwise_cons.1 (List.pairwise_append.1 hsorted).2.1).1 b hb
      rcases Nat.lt_or_eq_of_le hle with hlt | heq
      · exact .inl hlt
      · exact .inr ⟨heq, List.Sublist.cons_cons a (List.singleton_sublist.2 (hmem b hb))⟩
    · intro x hx b hb
      rcases List.mem_cons.1 hb with rfl | hb
      · have hless := hfront x hx
        simp only [Bool.not_eq_true', decide_eq_false_iff_not] at hless
        exact .inl (by omega)
      · exact hcross x hx b hb

/-- What a write has heard of the members that have answered so far. -/
def FanOut.tally (fate : Handle → Fate) (ms done : List Handle) : FanOut where
  members := ms.map Handle.id
  acked := (done.filter fun h => (fate h).verdict.error?.isNone).map Handle.id
  failed := done.filterMap fun h => (fate h).verdict.error?.map fun e => (h.id, e)

/-- One more member has answered as its fate says. -/
theorem FanOut.tally_append {h : Handle} {α : Type} {answer : Except NodeError α}
    (hanswer : match (fate h).verdict.error? with
      | some e => answer = .error e
      | none => ∃ x, answer = .ok x) :
    (FanOut.tally fate ms done).record h.id answer = FanOut.tally fate ms (done ++ [h]) := by
  cases herror : (fate h).verdict.error? with
  | none =>
    rw [herror] at hanswer
    obtain ⟨x, rfl⟩ := hanswer
    simp [FanOut.tally, FanOut.record, herror]
  | some e =>
    rw [herror] at hanswer
    obtain rfl := hanswer
    simp [FanOut.tally, FanOut.record, herror]

/-- Members are told apart by their identities. -/
theorem eq_of_id (hms : ms.Pairwise fun a b => a.id ≠ b.id) {a b : Handle} (ha : a ∈ ms)
    (hb : b ∈ ms) (hab : a.id = b.id) : a = b :=
  List.inj_on_of_nodup_map (List.pairwise_map.2 hms) ha hb hab

theorem mem_tally_acked (fate : Handle → Fate) (hms : ms.Pairwise fun a b => a.id ≠ b.id)
    (hsub : ∀ h ∈ done, h ∈ ms) {h : Handle} (hh : h ∈ ms) :
    h.id ∈ (FanOut.tally fate ms done).acked ↔
      h ∈ done ∧ (fate h).verdict.error? = none := by
  simp only [FanOut.tally, List.mem_map, List.mem_filter, Option.isNone_iff_eq_none]
  constructor
  · rintro ⟨x, ⟨hx, hnone⟩, hid⟩
    obtain rfl := eq_of_id hms (hsub x hx) hh hid
    exact ⟨hx, hnone⟩
  · exact fun hdone => ⟨h, hdone, rfl⟩

theorem mem_tally_failed (fate : Handle → Fate) (hms : ms.Pairwise fun a b => a.id ≠ b.id)
    (hsub : ∀ h ∈ done, h ∈ ms) {h : Handle} (hh : h ∈ ms) :
    (∃ e, (h.id, e) ∈ (FanOut.tally fate ms done).failed) ↔
      h ∈ done ∧ (fate h).verdict.error? ≠ none := by
  simp only [FanOut.tally, List.mem_filterMap, Option.map_eq_some_iff, Prod.mk.injEq]
  constructor
  · rintro ⟨e, x, hx, e', he', hid, rfl⟩
    obtain rfl := eq_of_id hms (hsub x hx) hh hid
    exact ⟨hx, he' ▸ Option.some_ne_none e'⟩
  · rintro ⟨hdone, hsome⟩
    obtain ⟨e, he⟩ := Option.ne_none_iff_exists'.1 hsome
    exact ⟨e, h, hdone, e, he, rfl, rfl⟩

/-- Given up are the members that have not answered. -/
theorem FanOut.tally_timedOut (hms : ms.Pairwise fun a b => a.id ≠ b.id)
    (hsub : ∀ h ∈ done, h ∈ ms) :
    (FanOut.tally fate ms done).timedOut = (ms.filter fun h => h ∉ done).map Handle.id := by
  rw [FanOut.timedOut, show (FanOut.tally fate ms done).members = ms.map Handle.id from rfl,
    List.filter_map]
  congr 1
  refine List.filter_congr fun h hh => ?_
  have hacked := mem_tally_acked fate hms hsub hh
  have hfailed := mem_tally_failed fate hms hsub hh
  rw [Bool.eq_iff_iff]
  simp only [Function.comp_apply, Bool.and_eq_true, Bool.not_eq_true', decide_eq_true_eq,
    List.contains_eq_mem, decide_eq_false_iff_not, List.any_eq_false, beq_iff_eq, Prod.forall]
  rw [hacked]
  constructor
  · rintro ⟨hnotAcked, hnotFailed⟩ hdone
    by_cases hnone : (fate h).verdict.error? = none
    · exact hnotAcked ⟨hdone, hnone⟩
    · obtain ⟨e, he⟩ := hfailed.2 ⟨hdone, hnone⟩
      exact hnotFailed h.id e he rfl
  · intro hnot
    refine ⟨fun h' => hnot h'.1, fun id e he hid => ?_⟩
    subst hid
    exact hnot (hfailed.1 ⟨e, he⟩).1

/-- Everybody who has answered has acknowledged the write or failed. -/
theorem FanOut.tally_perm (fate : Handle → Fate) (ms done : List Handle) :
    ((FanOut.tally fate ms done).acked ++ (FanOut.tally fate ms done).failed.map Prod.fst).Perm
      (done.map Handle.id) := by
  have hfailed : (FanOut.tally fate ms done).failed.map Prod.fst =
      (done.filter fun h => !(fate h).verdict.error?.isNone).map Handle.id := by
    simp only [FanOut.tally]
    induction done with
    | nil => rfl
    | cons h done ih => cases he : (fate h).verdict.error? <;> simp [he, ih]
  rw [hfailed, FanOut.tally, ← List.map_append]
  exact (List.filter_append_perm _ done).map Handle.id

/-- **The outcome of a write.** It tells of its members when those in time have answered. -/
theorem FanOut.tally_tells {late : List Handle} {limit : Nat}
    (hms : ms.Pairwise fun a b => a.id ≠ b.id) (horder : byWait wait ms = done ++ late)
    (hdone : ∀ h ∈ done, wait h ≤ limit)
    (hlate : ∀ h ∈ late, limit < wait h) :
    (FanOut.tally fate ms done).Tells ms fate wait limit := by
  have hperm : (done ++ late).Perm ms := horder ▸ byWait_perm wait ms
  have hmem : ∀ h ∈ ms, (h ∈ done ↔ wait h ≤ limit) := by
    intro h hh
    refine ⟨hdone h, fun hle => ?_⟩
    rcases List.mem_append.1 (hperm.mem_iff.2 hh) with hin | hout
    · exact hin
    · exact absurd (hlate h hout) (Nat.not_lt.2 hle)
  have hsub : ∀ h ∈ done, h ∈ ms := fun h hh => hperm.mem_iff.1 (List.mem_append_left late hh)
  have htimed : (FanOut.tally fate ms done).timedOut =
      (ms.filter fun h => limit < wait h).map Handle.id := by
    rw [FanOut.tally_timedOut hms hsub]
    congr 1
    refine List.filter_congr fun h hh => ?_
    rw [decide_eq_decide, hmem h hh, Nat.not_le]
  have hintime : done.Perm (ms.filter fun h => wait h ≤ limit) := by
    have hall : (done ++ late).filter (fun h => wait h ≤ limit) = done := by
      rw [List.filter_append, List.filter_eq_self.2 fun h hh => decide_eq_true (hdone h hh),
        List.filter_eq_nil_iff.2 fun h hh => by
          rw [decide_eq_true_eq, Nat.not_le]
          exact hlate h hh, List.append_nil]
    rw [← hall]
    exact hperm.filter _
  refine ⟨⟨done, hintime, ?_, rfl, rfl⟩, htimed, ?_, List.pairwise_map.2 hms⟩
  · exact (horder ▸ byWait_pairwise wait ms).sublist (List.sublist_append_left done late)
  · have hsplit :=
      List.filter_append_perm (fun h : Handle => decide (wait h ≤ limit)) ms
    have hnot : (ms.filter fun h => !decide (wait h ≤ limit)) =
        ms.filter fun h => decide (limit < wait h) := by
      refine List.filter_congr fun h _ => ?_
      rw [← decide_not, decide_eq_decide, Nat.not_le]
    rw [hnot] at hsplit
    have hanswered := (FanOut.tally_perm fate ms done).trans (hintime.map Handle.id)
    rw [htimed]
    refine (hanswered.append_right _).trans ?_
    rw [← List.map_append]
    exact hsplit.map Handle.id

end Order

/-- A client's answer when whoever is given up is given up just at the deadline. -/
theorem FanOut.settle_answer (o : FanOut) (options : RingOptions) (key : String)
    {elapsed limit : Duration} (h : o.timedOut ≠ [] → elapsed = limit) :
    (match o.settle options key elapsed with
      | .ok outcome => Scenario.Answer.written outcome
      | .error e => .ringError e) =
    if options.writeQuorum ≤ o.acked.length then
      .written ⟨o.acked, o.failed.map Prod.fst ++ o.timedOut⟩
    else if o.timedOut = [] then .ringError (.quorumNotReached options.writeQuorum o.acked.length)
    else .ringError (.timeout key limit) := by
  rw [settle, acks]
  by_cases hquorum : options.writeQuorum ≤ o.acked.length
  · rw [if_pos hquorum, if_pos hquorum]
    rfl
  · rw [if_neg hquorum, if_neg hquorum]
    by_cases hnone : o.timedOut = []
    · rw [if_pos hnone, hnone]
      rfl
    · rw [if_neg hnone, if_neg (by rwa [List.isEmpty_iff]), h hnone]

/-! ### A write as it starts -/

/-- A write to different nodes, as it starts on a cluster. -/
structure WriteCall where
  start : Cluster
  members : List Handle
  change : Change
  key : String
  limit : Duration
  /-- Whether it is a client's. -/
  client : Bool

namespace WriteCall

variable {x : WriteCall} {c c' : Cluster} {done late : List Handle} {h : Handle} {f : Fleet}
  {p : Placement}

/-- The request to the members. -/
def request (x : WriteCall) : Request := x.change.request x.key

/-- What becomes of the request to a member. -/
def fate (x : WriteCall) : Handle → Fate := x.start.fleet.fate x.start.env x.request

/-- How long a member takes. -/
def wait (x : WriteCall) : Handle → Nat := x.start.fleet.wait x.start.env x.request

/-- The members as they answer. -/
def order (x : WriteCall) : List Handle := byWait x.wait x.members

/-- The request to a member. -/
def flight (x : WriteCall) (h : Handle) : Flight :=
  ⟨h, x.start.env.timer.after x.start.now (x.fate h).delay, (x.fate h).verdict⟩

theorem flight_due (x : WriteCall) (h : Handle) :
    (x.flight h).due = x.start.now + x.wait h := rfl

/-- The write when the members of a list have answered. -/
def run (x : WriteCall) (done late : List Handle) : Write where
  change := x.change
  key := x.key
  started := x.start.now
  deadline := x.start.now + x.limit.ticks
  flights := late.map x.flight
  outcome := .tally x.fate x.members done

/-- What the write is answered with. -/
def answer (x : WriteCall) (o : FanOut) : Scenario.Answer :=
  if x.client then
    if x.start.ring.options.writeQuorum ≤ o.acked.length then
      .written ⟨o.acked, o.failed.map Prod.fst ++ o.timedOut⟩
    else if o.timedOut = [] then
      .ringError (.quorumNotReached x.start.ring.options.writeQuorum o.acked.length)
    else .ringError (.timeout x.key (.ofMillis x.limit.ticks))
  else .fanOut o

/-- The members of a write are different nodes that exist, and no answer is made up. -/
structure Good (x : WriteCall) : Prop where
  distinct : x.members.Pairwise fun a b => a.id ≠ b.id
  houses : ∀ h ∈ x.members, x.start.fleet.Houses h
  honest : ∀ h ∈ x.members, (x.fate h).verdict ≠ .pretend

/-- A cluster on which the members of a list have answered the write, and nothing else has changed
that matters to it. -/
structure Served (x : WriteCall) (done : List Handle) (c : Cluster) : Prop where
  options : c.ring.options = x.start.ring.options
  houses : ∀ y, x.start.fleet.Houses y → c.fleet.Houses y
  held : ∀ y, x.start.fleet.Houses y → ∀ k, c.fleet.held y k =
    if y ∈ done ∧ (x.fate y).verdict.error? = none ∧ k = x.key then x.change.value
    else x.start.fleet.held y k

theorem Served.passes (hserved : x.Served done c) (h : c.Passes c') : x.Served done c' where
  options := h.options.trans hserved.options
  houses y hy := h.houses y (hserved.houses y hy)
  held y hy k := by
    rw [Fleet.held, h.node y (hserved.houses y hy), ← hserved.held y hy k]
    rfl

/-- A member answers as its fate says. -/
theorem Served.conclude (hx : x.Good) (hserved : x.Served done c) (hh : h ∈ x.members) :
    let p := c.fleet.conclude h x.request (x.fate h).verdict
    x.Served (done ++ [h]) { c with fleet := p.2.1 } ∧
      match (x.fate h).verdict.error? with
      | some e => p.1 = .error e
      | none => ∃ reply, p.1 = .ok reply := by
  have hhouse : c.fleet.Houses h := hserved.houses h (hx.houses h hh)
  have hmem : ∀ y : Handle, y ∈ done ++ [h] ↔ y ∈ done ∨ y = h := fun y => by simp
  cases hverdict : (x.fate h).verdict with
  | pretend => exact absurd hverdict (hx.honest h hh)
  | refuse e =>
    refine ⟨⟨hserved.options, fun y hy => ?_, fun y hy k => ?_⟩, rfl⟩
    · show (c.fleet.conclude h x.request (.refuse e)).2.1.Houses y
      exact Fleet.houses_conclude _ _ hhouse (hserved.houses y hy)
    · show (c.fleet.conclude h x.request (.refuse e)).2.1.held y k = _
      rw [Fleet.conclude_refuse hhouse, hserved.held y hy k]
      refine if_congr ?_ rfl rfl
      rw [hmem]
      constructor
      · exact fun h' => ⟨.inl h'.1, h'.2⟩
      · rintro ⟨hdone | rfl, hnone, hk⟩
        · exact ⟨hdone, hnone, hk⟩
        · exact nomatch hverdict ▸ hnone
  | forward =>
    refine ⟨⟨hserved.options, fun y hy => ?_, fun y hy k => ?_⟩, ⟨_, rfl⟩⟩
    · show (c.fleet.conclude h x.request .forward).2.1.Houses y
      exact Fleet.houses_conclude _ _ hhouse (hserved.houses y hy)
    · show (c.fleet.conclude h x.request .forward).2.1.held y k = _
      rw [Fleet.held_conclude_forward _ hhouse (hserved.houses y hy), request, Change.effect_eq]
      by_cases hy' : y = h
      · subst hy'
        rw [if_pos rfl, hserved.held y hy k]
        by_cases hk : k = x.key
        · rw [if_pos hk, if_pos ⟨(hmem y).2 (.inr rfl), by rw [hverdict]; rfl, hk⟩]
        · rw [if_neg hk, if_neg fun h' => hk h'.2.2, if_neg fun h' => hk h'.2.2]
      · rw [if_neg hy', hserved.held y hy k]
        refine if_congr ?_ rfl rfl
        rw [hmem]
        exact ⟨fun h' => ⟨.inl h'.1, h'.2⟩, fun h' => ⟨h'.1.resolve_right hy', h'.2⟩⟩

/-- The stores in the end, told by the acknowledgements. -/
theorem Served.shows (hx : x.Good) (hserved : x.Served done c) (hsub : ∀ h ∈ done, h ∈ x.members) :
    x.start.fleet.Shows x.members (FanOut.tally x.fate x.members done).acked x.change x.key
      c.fleet := by
  intro y hy k
  rw [hserved.held y hy k]
  refine if_congr ?_ rfl rfl
  constructor
  · rintro ⟨hdone, hnone, hk⟩
    have hacked := (mem_tally_acked x.fate hx.distinct hsub (hsub y hdone)).2 ⟨hdone, hnone⟩
    exact ⟨hsub y hdone, hacked, hk⟩
  · rintro ⟨hmember, hacked, hk⟩
    obtain ⟨hdone, hnone⟩ := (mem_tally_acked x.fate hx.distinct hsub hmember).1 hacked
    exact ⟨hdone, hnone, hk⟩

/-! ### A write under way -/

/-- How a write stands: some members have answered, all of them in time, and the others are waited
for; or it is answered as its members tell. -/
inductive Along (x : WriteCall) : Cluster → Scenario.Activity → Prop
  | going {c : Cluster} {done late : List Handle} {h : Handle}
      (split : x.order = done ++ h :: late) (served : x.Served done c)
      (intime : ∀ y ∈ done, x.wait y ≤ x.limit.ticks)
      (early : c.now ≤ (x.run done (h :: late)).wake) :
      x.Along c (.write (x.run done (h :: late)) x.client)
  | ended {c : Cluster} {t : Instant} {o : FanOut}
      (tells : o.Tells x.members x.fate x.wait x.limit.ticks)
      (shows_ : x.start.fleet.Shows x.members o.acked x.change x.key c.fleet)
      (houses : ∀ y, x.start.fleet.Houses y → c.fleet.Houses y) :
      x.Along c (.answered t (x.answer o))

/-- A write that waits for nobody any more is answered as its members tell. -/
theorem along_ended (hx : x.Good) (split : x.order = done ++ late) (served : x.Served done c)
    (intime : ∀ y ∈ done, x.wait y ≤ x.limit.ticks)
    (tooLate : ∀ y ∈ late, x.limit.ticks < x.wait y)
    (hnow : late ≠ [] → c.now = x.start.now + x.limit.ticks) :
    x.Along (Scenario.Activity.ofWrite c (x.run done []) x.client).2
      (Scenario.Activity.ofWrite c (x.run done []) x.client).1 := by
  have hperm : (done ++ late).Perm x.members := split ▸ byWait_perm x.wait x.members
  have hsub : ∀ y ∈ done, y ∈ x.members := fun y hy =>
    hperm.mem_iff.1 (List.mem_append_left late hy)
  let o := FanOut.tally x.fate x.members done
  have tells : o.Tells x.members x.fate x.wait x.limit.ticks :=
    FanOut.tally_tells hx.distinct split intime tooLate
  have hshows := served.shows hx hsub
  -- somebody is given up just at the deadline
  have helapsed : o.timedOut ≠ [] → c.now - x.start.now = x.limit.ticks := by
    intro hne
    have hlate : late ≠ [] := by
      rintro rfl
      refine hne ?_
      rw [tells.timedOut, List.map_eq_nil_iff, List.filter_eq_nil_iff]
      intro y hy
      have hin : y ∈ done := by simpa using hperm.mem_iff.2 hy
      have := intime y hin
      simpa using this
    rw [hnow hlate]
    exact Nat.add_sub_cancel_left _ _
  have hdone : (x.run done []).isDone = true := rfl
  rw [Scenario.Activity.ofWrite, if_pos hdone]
  cases hclient : x.client with
  | false =>
    have hanswer : x.answer o = .fanOut o := by rw [answer, hclient, if_neg Bool.false_ne_true]
    rw [if_neg Bool.false_ne_true, show (x.run done []).outcome = o from rfl, ← hanswer]
    exact .ended tells hshows served.houses
  | true =>
    have hanswer : (match o.settle c.ring.options x.key (.ofMillis (c.now - x.start.now)) with
        | .ok outcome => Scenario.Answer.written outcome
        | .error e => .ringError e) = x.answer o := by
      rw [answer, hclient, if_pos rfl, served.options]
      exact o.settle_answer _ _ fun hne => congrArg Duration.ofMillis (helapsed hne)
    rw [if_pos rfl]
    simp only [Scenario.Activity.now]
    have hover : x.Along ((c.report (o.events x.change.op x.key)).endOp x.change.op o.misses
        x.start.now) (.answered c.now (x.answer o)) := .ended tells hshows served.houses
    rw [← hanswer] at hover
    exact hover

/-- A write stands as its members have answered. -/
theorem along_ofWrite (hx : x.Good) (split : x.order = done ++ late) (served : x.Served done c)
    (intime : ∀ y ∈ done, x.wait y ≤ x.limit.ticks)
    (early : late ≠ [] → c.now ≤ (x.run done late).wake) :
    x.Along (Scenario.Activity.ofWrite c (x.run done late) x.client).2
      (Scenario.Activity.ofWrite c (x.run done late) x.client).1 := by
  cases late with
  | nil => exact along_ended hx split served intime (fun y hy => nomatch hy) fun h => absurd rfl h
  | cons h late =>
    have hmore : ¬ (x.run done (h :: late)).isDone = true := Bool.false_ne_true
    rw [Scenario.Activity.ofWrite, if_neg hmore]
    exact .going split served intime (early (List.cons_ne_nil h late))

/-- The waits ascend along the order of the answers. -/
theorem wait_le_of_split (split : x.order = done ++ h :: late) :
    ∀ y ∈ late, x.wait h ≤ x.wait y := by
  have hsorted := byWait_ascends x.wait x.members
  rw [show byWait x.wait x.members = done ++ h :: late from split] at hsorted
  exact (List.pairwise_cons.1 (List.pairwise_append.1 hsorted).2.1).1

theorem mem_of_split (split : x.order = done ++ h :: late) : h ∈ x.members := by
  have hperm : x.order.Perm x.members := byWait_perm x.wait x.members
  rw [← hperm.mem_iff, split]
  exact List.mem_append_right done (List.mem_cons_self ..)

/-- The first member waited for answers in time. -/
theorem run_step_due (hx : x.Good) (split : x.order = done ++ h :: late) (served : x.Served done c)
    (hdue : (x.flight h).due ≤ x.start.now + x.limit.ticks) :
    ((x.run done (h :: late)).step c.fleet).1 = x.run (done ++ [h]) late ∧
      x.Served (done ++ [h]) { c with fleet := ((x.run done (h :: late)).step c.fleet).2.1 } := by
  obtain ⟨hserved, hanswer⟩ := served.conclude hx (mem_of_split split)
  have hstep : (x.run done (h :: late)).step c.fleet =
      ({ x.run done (h :: late) with
         flights := late.map x.flight
         outcome := (FanOut.tally x.fate x.members done).record h.id
           (c.fleet.conclude h x.request (x.fate h).verdict).1 },
        (c.fleet.conclude h x.request (x.fate h).verdict).2) := if_pos hdue
  rw [hstep, FanOut.tally_append hanswer]
  exact ⟨rfl, hserved⟩

/-- **The next event of a write** keeps it along: the first member waited for answers, or the
deadline is there. -/
theorem along_step (hx : x.Good) (split : x.order = done ++ h :: late) (served : x.Served done c)
    (intime : ∀ y ∈ done, x.wait y ≤ x.limit.ticks)
    (hwake : (x.run done (h :: late)).wake = c.now) (events : List LogEvent) :
    let s := (x.run done (h :: late)).step c.fleet
    let p := Scenario.Activity.ofWrite (Cluster.report { c with fleet := s.2.1 } events) s.1
      x.client
    x.Along p.2 p.1 := by
  simp only
  have hnow : min (x.flight h).due (x.start.now + x.limit.ticks) = c.now := hwake
  rw [flight_due] at hnow
  by_cases hdue : (x.flight h).due ≤ x.start.now + x.limit.ticks
  · obtain ⟨hrun, hserved⟩ := run_step_due hx split served hdue
    rw [flight_due] at hdue
    rw [Nat.min_eq_left hdue] at hnow
    rw [hrun]
    refine along_ofWrite hx (split.trans (List.append_cons ..))
      ⟨hserved.options, hserved.houses, hserved.held⟩ (fun y hy => ?_) fun hne => ?_
    · rcases List.mem_append.1 hy with hy | hy
      · exact intime y hy
      · obtain rfl := List.mem_singleton.1 hy
        exact Nat.le_of_add_le_add_left hdue
    · obtain ⟨y, late, rfl⟩ := List.exists_cons_of_ne_nil hne
      have hle := wait_le_of_split split y (List.mem_cons_self ..)
      show c.now ≤ min (x.flight y).due (x.start.now + x.limit.ticks)
      rw [← hnow, flight_due]
      exact Nat.le_min.2 ⟨Nat.add_le_add_left hle _, hdue⟩
  · have hstep : (x.run done (h :: late)).step c.fleet = (x.run done [], c.fleet, []) := if_neg hdue
    rw [hstep]
    rw [flight_due, Nat.not_le] at hdue
    have hfirst : x.limit.ticks < x.wait h := Nat.lt_of_add_lt_add_left hdue
    refine along_ended hx split ⟨served.options, served.houses, served.held⟩ intime (fun y hy => ?_)
      fun _ => hnow.symm.trans (Nat.min_eq_right (Nat.le_of_lt hdue))
    rcases List.mem_cons.1 hy with rfl | hy
    · exact hfirst
    · exact Nat.lt_of_lt_of_le hfirst (wait_le_of_split split y hy)

/-- **Writes under way.** Their events, and changes of the membership meanwhile, keep them along. -/
theorem kept_along (hx : x.Good) : Scenario.World.Kept x.Along where
  early := by
    intro c a s halong hs
    cases halong with
    | going split served intime early => exact Option.some.inj hs ▸ early
    | ended tells shows_ houses => cases hs
  meanwhile := by
    intro c c' a halong hpasses hnow
    cases halong with
    | going split served intime early =>
      exact .going split (served.passes hpasses) intime (hnow _ rfl)
    | ended tells shows_ houses =>
      refine .ended tells (fun y hy k => ?_) fun y hy => hpasses.houses y (houses y hy)
      rw [← shows_ y hy k, Fleet.held, hpasses.node y (houses y hy)]
      rfl
  goes := by
    intro w a halong hwake
    generalize hc : w.cluster = c at halong
    cases halong with
    | ended tells shows_ houses => cases hwake
    | going split served intime early =>
      subst hc
      exact along_step hx split served intime (Option.some.inj hwake) _

/-! ### The start of a write -/

/-- The requests of a write, and the fleet once they have been started: no data has changed. -/
theorem launchAll_eq (env : Env) (now : Instant) (r : Request) (hs : List Handle)
    (hhouses : ∀ h ∈ hs, f.Houses h) (hnodup : hs.Nodup) :
    (Write.launchAll env now r hs f).1 =
        hs.map (fun h =>
          ⟨h, env.timer.after now (f.fate env r h).delay, (f.fate env r h).verdict⟩) ∧
      (∀ y, f.Houses y → (Write.launchAll env now r hs f).2.Houses y) ∧
      ∀ y, f.Houses y → ∀ k, (Write.launchAll env now r hs f).2.held y k = f.held y k := by
  induction hs generalizing f with
  | nil => exact ⟨rfl, fun y hy => hy, fun y hy k => rfl⟩
  | cons h hs ih =>
    have hh := hhouses h (List.mem_cons_self ..)
    obtain ⟨hnot, hrest⟩ := List.nodup_cons.1 hnodup
    let f₁ := (f.launch env now h r).2
    have hhouses₁ : ∀ y, f.Houses y → f₁.Houses y := fun y hy =>
      Fleet.houses_replace ((Node.begin_id ..).trans hh.node_id) hh hy
    obtain ⟨hflights, hkeep, hheld⟩ := ih (f := f₁)
      (fun y hy => hhouses₁ y (hhouses y (List.mem_cons_of_mem _ hy))) hrest
    refine ⟨?_, fun y hy => hkeep y (hhouses₁ y hy), fun y hy k => ?_⟩
    · rw [Write.launchAll, List.map_cons]
      refine congrArg₂ List.cons rfl (hflights.trans (List.map_congr_left fun y hy => ?_))
      have hne : y ≠ h := fun he => hnot (he ▸ hy)
      have hnode : f₁.node y = f.node y :=
        (Fleet.node_launch env now r hh (hhouses y (List.mem_cons_of_mem _ hy))).trans (if_neg hne)
      rw [Fleet.fate, hnode, Fleet.fate]
    · rw [Write.launchAll]
      refine (hheld y (hhouses₁ y hy) k).trans ?_
      rw [Fleet.held, show (f₁.node y).store = (f.node y).store from
        Fleet.store_launch env now r hh hy, Fleet.held]

/-- A write starts with all of its members still to answer. -/
theorem start_eq (hx : x.Good) (hp : p.members = x.members) :
    (Write.start x.start.env x.start.now x.limit x.change x.key p x.start.fleet).1 =
        x.run [] x.order ∧
      x.Served [] { x.start with
        fleet := (Write.start x.start.env x.start.now x.limit x.change x.key p
          x.start.fleet).2 } := by
  have hnodup : x.members.Nodup := hx.distinct.imp fun hab he => hab (congrArg Handle.id he)
  obtain ⟨hflights, hkeep, hheld⟩ :=
    launchAll_eq x.start.env x.start.now x.request x.members hx.houses hnodup
  rw [Write.start, hp]
  refine ⟨?_, ⟨rfl, hkeep, fun y hy k => ?_⟩⟩
  · have hsort : ((x.members.map x.flight).mergeSort fun a b => a.due ≤ b.due) =
        x.order.map x.flight := by
      refine (List.map_mergeSort fun a _ b _ => ?_).symm
      rw [decide_eq_decide, flight_due, flight_due]
      exact Nat.add_le_add_iff_left.symm
    have hids : p.ids = x.members.map Handle.id := by rw [Placement.ids, hp]
    show ({ flights := (Write.launchAll _ _ _ _ _).1.mergeSort _, .. } : Write) = _
    rw [show (Write.launchAll x.start.env x.start.now (x.change.request x.key) x.members
      x.start.fleet).1 = x.members.map x.flight from hflights, hsort, hids]
    rfl
  · rw [if_neg fun h => absurd h.1 List.not_mem_nil]
    exact hheld y hy k

end WriteCall

/-! ### Writes among changes of the membership -/

/-- What a write to members that starts on a cluster comes to: an outcome that tells of its members,
and stores that show it. -/
structure Cluster.FansOut (c : Cluster) (ms : List Handle) (change : Change) (key : String)
    (limit : Duration) (o : FanOut) (c' : Cluster) : Prop where
  tells : o.Tells ms (c.fleet.fate c.env (change.request key))
    (c.fleet.wait c.env (change.request key)) limit.ticks
  shows_ : c.fleet.Shows ms o.acked change key c'.fleet

namespace Scenario.World

variable {w : World} {i : Nat} {x : WriteCall} {p : Placement}

/-- **Writes come to their end** as their members tell. -/
theorem concludes_write (hx : x.Good) (hp : p.members = x.members) (h : w.Undisturbed i)
    (hi : i < w.activities.size) :
    let q := Write.start x.start.env x.start.now x.limit x.change x.key p x.start.fleet
    let r := Activity.ofWrite { x.start with fleet := q.2 } q.1 x.client
    ({ w with
       cluster := r.2
       activities := w.activities.setIfInBounds i r.1 } : World).Concludes i fun a c =>
      ∃ o, x.start.FansOut x.members x.change x.key x.limit o c ∧ a = x.answer o := by
  obtain ⟨hrun, hserved⟩ := WriteCall.start_eq hx hp
  simp only
  rw [hrun]
  have hunder := (ofWrite_underway { x.start with
    fleet := (Write.start x.start.env x.start.now x.limit x.change x.key p x.start.fleet).2 }
    (x.run [] x.order) x.client).1
  refine (h.amongChanges hi hunder).concludes (WriteCall.kept_along hx) (fun a ha => ?_) ?_
  · have hset := ha
    rw [Array.getElem?_setIfInBounds, if_pos rfl, if_pos hi] at hset
    obtain rfl := Option.some.inj hset
    refine WriteCall.along_ofWrite hx rfl hserved (fun y hy => nomatch hy) fun hne => ?_
    obtain ⟨y, late, hcons⟩ := List.exists_cons_of_ne_nil hne
    rw [hcons]
    exact Nat.le_min.2 ⟨Nat.le_add_right _ _, Nat.le_add_right _ _⟩
  · intro c t a halong
    cases halong with
    | ended tells shows_ houses => exact ⟨_, ⟨tells, shows_⟩, rfl⟩

/-- A write to a list of nodes begins with its requests. -/
theorem begin_writeTo {ids : List NodeId} {hs : List Handle} {change : Change} {key : String}
    {limit : Duration} (hids : ids.mapM w.registry.find? = some hs) (hfits : limit.fits = true) :
    w.begin (.writeTo (.nodes ids) change key limit) =
      (let q := Write.start w.cluster.env w.cluster.now limit change key (.ofList hs)
         w.cluster.fleet
       w.started (Activity.ofWrite { w.cluster with fleet := q.2 } q.1 false)) := by
  rw [begin, ringless, Bool.or_true, if_pos rfl, beginChecked, withSelection, select]
  simp only [hids, hfits, if_true]

/-- **Writes, from start to end.** The time that a node takes and the limit of a write count in
whole ticks of the clock. A write to a list of nodes, of which the first of each identity counts,
comes to its end: whoever answers in time has acknowledged it or failed, in the order of the waits,
the others are given up, and the stores of those that have acknowledged it show it. A put or a
delete of a client does so on the replicas of its key at its start, whatever calls change the
membership meanwhile; it succeeds just if its quorum has acknowledged it, and fails at its limit if
a replica was given up. A node that is switched off fails at once. -/
theorem writes_settle (w : World) (i : Nat) (hw : w.Undisturbed i) (change : Change)
    (key : String) :
    let fate := w.cluster.fleet.fate w.cluster.env (change.request key)
    let wait := w.cluster.fleet.wait w.cluster.env (change.request key)
    (∀ h, (fate h).delay.nanos ≤ Duration.longestSleep.nanos → wait h = (fate h).delay.ticks) ∧
    (∀ h, w.cluster.fleet.Houses h → (w.cluster.fleet.node h).isDown = true →
      wait h = 0 ∧ (fate h).verdict.error? = some (.unavailable h.id)) ∧
    (∀ hs : List Handle,
      (Placement.ofList hs).members = hs.eraseDupsBy fun a b => b.id == a.id) ∧
    (∀ (t : Instant) (ids : List NodeId) (hs : List Handle) (limit : Duration),
      ids.mapM w.registry.find? = some hs → limit.fits = true →
      w.activities[i]? = some (.later t (.writeTo (.nodes ids) change key limit)) →
      (∀ h ∈ (Placement.ofList hs).members,
        w.cluster.fleet.Houses h ∧ (fate h).verdict ≠ .pretend) →
      (w.go (.activity i)).Concludes i fun a c =>
        ∃ o, w.cluster.FansOut (Placement.ofList hs).members change key limit o c ∧
          a = .fanOut o) ∧
    ∀ (t : Instant) (timeout : Option Duration), w.hasRing = true → w.Linked →
      (w.cluster.ring.options.limit timeout).fits = true →
      w.activities[i]? = some (.later t (changeOp key timeout change)) →
      (∀ h ∈ (w.cluster.ring.placement key).members, (fate h).verdict ≠ .pretend) →
      (w.go (.activity i)).Concludes i fun a c =>
        ∃ o, w.cluster.FansOut (w.cluster.ring.placement key).members change key
            (w.cluster.ring.options.limit timeout) o c ∧
          a =
            if w.cluster.ring.options.writeQuorum ≤ o.acked.length then
              .written ⟨o.acked, o.failed.map Prod.fst ++ o.timedOut⟩
            else if o.timedOut = [] then
              .ringError (.quorumNotReached w.cluster.ring.options.writeQuorum o.acked.length)
            else .ringError (.timeout key
              (.ofMillis (w.cluster.ring.options.limit timeout).ticks)) := by
  refine ⟨fun h hshort => w.cluster.env.timer.exact _ hshort,
    fun h hh hdown => Fleet.fate_of_isDown hh hdown _ _, Placement.ofList_members_eq,
    fun t ids hs limit hids hfits hcall hgood => ?_,
    fun t timeout hring hlinked hfits hcall hhonest => ?_⟩
  · let x : WriteCall := ⟨w.cluster, (Placement.ofList hs).members, change, key, limit, false⟩
    have hx : x.Good := ⟨Placement.ofList_distinct hs, fun h hh => (hgood h hh).1,
      fun h hh => (hgood h hh).2⟩
    rw [go_later hcall (begin_writeTo hids hfits)]
    refine (concludes_write (x := x) (p := .ofList hs) hx rfl hw
      (Array.getElem?_eq_some_iff.1 hcall).1).mono ?_
    rintro a c ⟨o, ho, rfl⟩
    exact ⟨o, ho, rfl⟩
  · let p := w.cluster.ring.placement key
    let start := (w.cluster.beginOp change.op).report [w.cluster.ring.placementEvent key]
    let x : WriteCall :=
      ⟨start, p.members, change, key, w.cluster.ring.options.limit timeout, true⟩
    have hx : x.Good := ⟨hlinked.sound.placement_ne _ _,
      fun h hh => hlinked.houses h (hlinked.sound.placement_subset hh), hhonest⟩
    rw [go_later hcall (begin_change hring hfits rfl)]
    refine (concludes_write (x := x) (p := p) hx rfl hw
      (Array.getElem?_eq_some_iff.1 hcall).1).mono ?_
    rintro a c ⟨o, ho, rfl⟩
    exact ⟨o, ⟨ho.tells, ho.shows_⟩, if_pos rfl⟩

/-- Three nodes: one takes a while, one is switched off, and one is too slow. They are the replicas
of every key. -/
def slowNodes : Cluster where
  fleet := ⟨#[
    { id := ⟨10⟩, faults := .injected { latency := .ofMillis 30 } },
    { id := ⟨20⟩, faults := .injected { latency := .ofMillis 50, down := true } },
    { id := ⟨30⟩, faults := .injected { latency := .ofMillis 200 } }]⟩
  ring := ⟨fun _ => 5, { replicaCount := 3, writeQuorum := 2, opTimeout := .ofMillis 100 },
    ⟨⟨[(⟨10⟩, ⟨⟨10⟩, 0⟩), (⟨20⟩, ⟨⟨20⟩, 1⟩), (⟨30⟩, ⟨⟨30⟩, 2⟩)]⟩, 0⟩⟩

/-- While an operation goes on, a node is added and another one is dropped. -/
def slowTrio (op : Op) : World where
  cluster := slowNodes
  activities := #[.later 0 op, .later 10 (.add { id := ⟨40⟩ }), .later 20 (.drop ⟨10⟩)]
  registry := ⟨[(⟨10⟩, ⟨⟨10⟩, 0⟩), (⟨20⟩, ⟨⟨20⟩, 1⟩), (⟨30⟩, ⟨⟨30⟩, 2⟩)]⟩

theorem slowTrio_linked (op : Op) : (slowTrio op).Linked := by
  have hsound : slowNodes.ring.membership.Sound :=
    ⟨by unfold OrderedMap.Sorted; decide, by decide⟩
  have hhouses : ∀ h ∈ slowNodes.ring.membership.handles, slowNodes.fleet.Houses h := by decide
  exact .of_registry hsound hhouses rfl

theorem slowTrio_undisturbed (op : Op) : (slowTrio op).Undisturbed 0 where
  loops := rfl
  others j b hj hb := by
    rcases j with _ | _ | _ | j
    · exact absurd rfl hj
    · exact .inr ⟨10, _, (Option.some.inj hb).symm, rfl⟩
    · exact .inr ⟨20, _, (Option.some.inj hb).symm, rfl⟩
    · simp [slowTrio] at hb

theorem writes_settle_slowTrio :
    (let w := slowTrio (.writeTo (.nodes [⟨10⟩, ⟨20⟩, ⟨10⟩]) (.put "1") "a" (.ofMillis 50))
     (w.go (.activity 0)).Concludes 0 fun a c => ∃ o,
      w.cluster.FansOut [⟨⟨10⟩, 0⟩, ⟨⟨20⟩, 1⟩] (.put "1") "a" (.ofMillis 50) o c ∧
        a = .fanOut o) ∧
    let w := slowTrio (.put "a" "1" none)
    (w.go (.activity 0)).Concludes 0 fun a c => ∃ o,
      w.cluster.FansOut (w.cluster.ring.placement "a").members (.put "1") "a" (.ofMillis 100) o c ∧
        a =
          if 2 ≤ o.acked.length then .written ⟨o.acked, o.failed.map Prod.fst ++ o.timedOut⟩
          else if o.timedOut = [] then .ringError (.quorumNotReached 2 o.acked.length)
          else .ringError (.timeout "a" (.ofMillis 100)) := by
  let first := slowTrio (.writeTo (.nodes [⟨10⟩, ⟨20⟩, ⟨10⟩]) (.put "1") "a" (.ofMillis 50))
  let second := slowTrio (.put "a" "1" none)
  obtain ⟨-, -, -, hlist, -⟩ :=
    writes_settle first 0 (slowTrio_undisturbed _) (.put "1") "a"
  obtain ⟨-, -, -, -, hring⟩ :=
    writes_settle second 0 (slowTrio_undisturbed _) (.put "1") "a"
  have hids : [⟨10⟩, ⟨20⟩, ⟨10⟩].mapM first.registry.find? =
      some [⟨⟨10⟩, 0⟩, ⟨⟨20⟩, 1⟩, ⟨⟨10⟩, 0⟩] := by decide
  have hmembers : (Placement.ofList [⟨⟨10⟩, 0⟩, ⟨⟨20⟩, 1⟩, ⟨⟨10⟩, 0⟩]).members =
      [⟨⟨10⟩, 0⟩, ⟨⟨20⟩, 1⟩] := by decide
  have hconcludes := hlist 0 _ _ (.ofMillis 50) hids (by decide) rfl (by decide)
  rw [hmembers] at hconcludes
  have hput := hring 0 none rfl (slowTrio_linked _) rfl rfl (by decide)
  rw [show (second.cluster.ring.options.limit none).ticks = 100 from by decide] at hput
  exact ⟨hconcludes, hput⟩

/-- One node that takes its time. -/
def slowOne (timer : Timer) (latency opTimeout : Duration) : World where
  cluster :=
    { fleet := ⟨#[{ id := ⟨10⟩, faults := .injected { latency := latency } }]⟩
      ring := ⟨fun _ => 5, { replicaCount := 1, opTimeout := opTimeout },
        ⟨⟨[(⟨10⟩, ⟨⟨10⟩, 0⟩)]⟩, 0⟩⟩
      env := { timer := timer } }

/-- A put on that node, at its start. -/
def slowPut (timer : Timer) (latency opTimeout : Duration) : Activity × World :=
  (slowOne timer latency opTimeout).writeStarted (.put "v") "k" none

theorem begin_slowPut (timer : Timer) {latency opTimeout : Duration}
    (hfits : opTimeout.fits = true) :
    (slowOne timer latency opTimeout).begin (.put "k" "v" none) =
      slowPut timer latency opTimeout :=
  begin_change_sorted (.put "v") rfl hfits (List.pairwise_singleton _ _)
    (List.cons_ne_nil _ _)

/-- **A late acknowledgement.** The only replica takes longer than a put may take, and yet it
acknowledges the put: both times are over at the same tick, or the runtime cuts the longer one. -/
theorem put_outlasts_limit :
    (let w := slowOne .standard ⟨500000⟩ ⟨100000⟩
     w.cluster.ring.options.opTimeout.nanos <
        (w.cluster.fleet.fate w.cluster.env (.set "k" "v") ⟨⟨10⟩, 0⟩).delay.nanos ∧
      ∃ w', w.Performs (.put "k" "v" none) (.written ⟨[⟨10⟩], []⟩) w') ∧
    let w := slowOne .capped (.ofMillis 1000000000000) (.ofMillis 946080000000)
    w.cluster.ring.options.opTimeout.nanos <
        (w.cluster.fleet.fate w.cluster.env (.set "k" "v") ⟨⟨10⟩, 0⟩).delay.nanos ∧
      ∃ w', w.Performs (.put "k" "v" none) (.written ⟨[⟨10⟩], []⟩) w' := by
  refine ⟨⟨by decide, ?_⟩, by decide, ?_⟩
  · have hruns : RunsTo (.written ⟨[⟨10⟩], []⟩) (slowPut .standard ⟨500000⟩ ⟨100000⟩) :=
      .event rfl (by decide) (.answered 1 _)
    exact performs_of_runsTo rfl (begin_slowPut .standard (by decide)) hruns
  · have hruns : RunsTo (.written ⟨[⟨10⟩], []⟩)
        (slowPut .capped (.ofMillis 1000000000000) (.ofMillis 946080000000)) :=
      .event rfl (by decide) (.answered 946080000000 _)
    exact performs_of_runsTo rfl (begin_slowPut .capped (by decide)) hruns

end Scenario.World

end ReplicaRing

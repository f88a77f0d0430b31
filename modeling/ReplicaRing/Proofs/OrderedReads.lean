import Mathlib.Algebra.Ring.Nat
import ReplicaRing.Proofs.FanOuts

/-!
# What a read comes to

A read asks its members one after the other, so the waits of those asked add up under one deadline.
What every member answers and how long it takes is settled before the read starts; from this alone
it follows how far the walk along the members gets and what it has heard on its way, however other
calls change the membership meanwhile.

* `Questions` — what the members answer and when, `Cluster.questions` — to a question on a cluster;
* `Questions.Walk` — how far a read gets and what it hears, `exists_walk` and `Walk.unique`;
* `Cluster.Asked` — a cluster of which the nodes of a list have been asked;
* `ReadCall.Along` — a read under way, and `kept_along` — its events keep to it;
* `reads_settle` — a read of a list of nodes, or of the replicas of a key, comes to its end.
-/

namespace ReplicaRing

/-- What the members of a read answer, and after which wait. -/
structure Questions where
  members : List Handle
  wait : Handle → Nat
  answer : Handle → Except NodeError (Option String)
  limit : Nat

namespace Questions

variable {x : Questions} {before done ahead asked : List Handle} {h m : Handle} {o : ReadOutcome}

/-! ### Walks -/

/-- How long it takes to ask some members one after the other. -/
def cost (x : Questions) (hs : List Handle) : Nat := (hs.map fun h => x.wait h).sum

/-- The error of a member that fails. -/
def failure? (x : Questions) (h : Handle) : Option (NodeId × NodeError) :=
  match x.answer h with
  | .error e => some (h.id, e)
  | .ok _ => none

/-- Whether a member answers that the key is absent. -/
def isAbsent (x : Questions) (h : Handle) : Bool :=
  match x.answer h with
  | .ok none => true
  | _ => false

/-- What a read has heard of members without a value. -/
def heard (x : Questions) (hs : List Handle) : ReadOutcome where
  answered := hs.countP x.isAbsent
  failed := hs.filterMap x.failure?

/-- A read gets past some members: all of them answer in time, and none has a value. -/
structure Passes (x : Questions) (hs : List Handle) : Prop where
  intime : x.cost hs ≤ x.limit
  valueless : ∀ h ∈ hs, ∀ v, x.answer h ≠ .ok (some v)

theorem heard_absent (hs : List Handle) (h : x.answer m = .ok none) :
    x.heard (hs ++ [m]) = { x.heard hs with answered := (x.heard hs).answered + 1 } := by
  simp [heard, isAbsent, failure?, h]

theorem heard_failed (hs : List Handle) {e : NodeError} (h : x.answer m = .error e) :
    x.heard (hs ++ [m]) = { x.heard hs with failed := (x.heard hs).failed ++ [(m.id, e)] } := by
  simp [heard, isAbsent, failure?, h]

/-- How far a read gets, and what it has heard then. -/
inductive Walk (x : Questions) : List Handle → ReadOutcome → Prop
  /-- It stops at the first member that answers with a value in time. -/
  | hit {before after : List Handle} {m : Handle} {v : String}
      (split : x.members = before ++ m :: after) (passes : x.Passes before)
      (intime : x.cost (before ++ [m]) ≤ x.limit) (value : x.answer m = .ok (some v)) :
      x.Walk (before ++ [m])
        { x.heard before with hit := some (m.id, v), answered := (x.heard before).answered + 1 }
  /-- It stops at the first member whose answer would come too late. -/
  | late {before after : List Handle} {m : Handle}
      (split : x.members = before ++ m :: after) (passes : x.Passes before)
      (tooLate : x.limit < x.cost (before ++ [m])) :
      x.Walk (before ++ [m]) { x.heard before with timedOut := true }
  /-- It never stops. -/
  | through (passes : x.Passes x.members) : x.Walk x.members (x.heard x.members)

@[simp] theorem cost_nil (x : Questions) : x.cost [] = 0 := rfl

@[simp] theorem cost_append (x : Questions) (hs hs' : List Handle) :
    x.cost (hs ++ hs') = x.cost hs + x.cost hs' := by
  rw [cost, List.map_append, List.sum_append]
  rfl

@[simp] theorem cost_singleton (x : Questions) (h : Handle) : x.cost [h] = x.wait h :=
  List.sum_singleton

theorem passes_nil (x : Questions) : x.Passes [] := ⟨Nat.zero_le _, fun _ hh => nomatch hh⟩

theorem Passes.append (hpasses : x.Passes before) (hin : x.cost (before ++ [m]) ≤ x.limit)
    (hm : ∀ v, x.answer m ≠ .ok (some v)) : x.Passes (before ++ [m]) where
  intime := hin
  valueless y hy := by
    rcases List.mem_append.1 hy with hy | hy
    · exact hpasses.valueless y hy
    · exact List.mem_singleton.1 hy ▸ hm

/-- A read gets past the members in front of others that it gets past. -/
theorem Passes.of_prefix {hs hs' : List Handle} (hpasses : x.Passes hs') (h : hs <+: hs') :
    x.Passes hs := by
  obtain ⟨rest, rfl⟩ := h
  refine ⟨Nat.le_trans ?_ hpasses.intime, fun y hy => ?_⟩
  · rw [cost_append]
    exact Nat.le_add_right _ _
  · exact hpasses.valueless y (List.mem_append_left rest hy)

/-- A member stops a read: it answers with a value, or too late. -/
def Stops (x : Questions) (before : List Handle) (m : Handle) : Prop :=
  (∃ v, x.answer m = .ok (some v)) ∨ x.limit < x.cost (before ++ [m])

theorem Stops.not_passes (hstops : x.Stops before m) : ¬ x.Passes (before ++ [m]) := by
  intro hpasses
  rcases hstops with ⟨v, hv⟩ | hlate
  · exact hpasses.valueless m (List.mem_append_right before (List.mem_singleton_self m)) v hv
  · exact absurd hpasses.intime (Nat.not_le.2 hlate)

/-- The member that stops a read is the first one that it does not get past. -/
theorem stop_unique {before' after after' : List Handle} {m' : Handle}
    (hsplit : x.members = before ++ m :: after) (hsplit' : x.members = before' ++ m' :: after')
    (hpasses : x.Passes before) (hpasses' : x.Passes before') (hstops : x.Stops before m)
    (hstops' : x.Stops before' m') : before = before' ∧ m = m' := by
  have hpre : before ++ [m] <+: x.members := ⟨after, by simp [hsplit]⟩
  have hpre' : before' ++ [m'] <+: x.members := ⟨after', by simp [hsplit']⟩
  have hfront : before <+: x.members := ⟨m :: after, hsplit.symm⟩
  have hfront' : before' <+: x.members := ⟨m' :: after', hsplit'.symm⟩
  have hlen : ∀ {hs hs' : List Handle} {y : Handle}, hs <+: x.members → hs' ++ [y] <+: x.members →
      x.Passes hs → x.Stops hs' y → hs.length ≤ hs'.length := by
    intro hs hs' y hp hp' hpass hstop
    refine Nat.le_of_not_lt fun hlt => hstop.not_passes (hpass.of_prefix ?_)
    refine List.prefix_of_prefix_length_le hp' hp ?_
    rw [List.length_append, List.length_singleton]
    omega
  have heq : before.length = before'.length :=
    Nat.le_antisymm (hlen hfront hpre' hpasses hstops') (hlen hfront' hpre hpasses' hstops)
  obtain ⟨hb, hrest⟩ := List.append_inj (hsplit.symm.trans hsplit') heq
  exact ⟨hb, (List.cons.inj hrest).1⟩

/-- A read that stops somewhere does not get past all members. -/
theorem not_passes_of_stop {after : List Handle} (hsplit : x.members = before ++ m :: after)
    (hstops : x.Stops before m) : ¬ x.Passes x.members := fun hpasses =>
  hstops.not_passes (hpasses.of_prefix ⟨after, by simp [hsplit]⟩)

/-- **A walk is determined** by what the members answer and when. -/
theorem Walk.unique {asked' : List Handle} {o' : ReadOutcome} (hw : x.Walk asked o)
    (hw' : x.Walk asked' o') : asked = asked' ∧ o = o' := by
  cases hw with
  | hit split passes intime value =>
    cases hw' with
    | hit split' passes' intime' value' =>
      obtain ⟨rfl, rfl⟩ := stop_unique split split' passes passes' (.inl ⟨_, value⟩)
        (.inl ⟨_, value'⟩)
      obtain rfl := Option.some.inj (Except.ok.inj (value.symm.trans value'))
      exact ⟨rfl, rfl⟩
    | late split' passes' tooLate =>
      obtain ⟨rfl, rfl⟩ := stop_unique split split' passes passes' (.inl ⟨_, value⟩) (.inr tooLate)
      exact absurd intime (Nat.not_le.2 tooLate)
    | through passes' => exact absurd passes' (not_passes_of_stop split (.inl ⟨_, value⟩))
  | late split passes tooLate =>
    cases hw' with
    | hit split' passes' intime value =>
      obtain ⟨rfl, rfl⟩ := stop_unique split split' passes passes' (.inr tooLate) (.inl ⟨_, value⟩)
      exact absurd intime (Nat.not_le.2 tooLate)
    | late split' passes' tooLate' =>
      obtain ⟨rfl, rfl⟩ := stop_unique split split' passes passes' (.inr tooLate) (.inr tooLate')
      exact ⟨rfl, rfl⟩
    | through passes' => exact absurd passes' (not_passes_of_stop split (.inr tooLate))
  | through passes =>
    cases hw' with
    | hit split' passes' intime value =>
      exact absurd passes (not_passes_of_stop split' (.inl ⟨_, value⟩))
    | late split' passes' tooLate => exact absurd passes (not_passes_of_stop split' (.inr tooLate))
    | through passes' => exact ⟨rfl, rfl⟩

/-- Some walk there is. The induction is on the members ahead. -/
theorem exists_walk_of_passes (hsplit : x.members = done ++ ahead) (hpasses : x.Passes done) :
    ∃ asked o, x.Walk asked o := by
  induction ahead generalizing done with
  | nil =>
    rw [List.append_nil] at hsplit
    exact ⟨_, _, .through (hsplit ▸ hpasses)⟩
  | cons m ahead ih =>
    by_cases hlate : x.limit < x.cost (done ++ [m])
    · exact ⟨_, _, .late hsplit hpasses hlate⟩
    · have hin := Nat.le_of_not_lt hlate
      by_cases hvalue : ∃ v, x.answer m = .ok (some v)
      · obtain ⟨v, hv⟩ := hvalue
        exact ⟨_, _, .hit hsplit hpasses hin hv⟩
      · refine ih (hsplit.trans (List.append_cons ..))
          (hpasses.append hin fun v hv => hvalue ⟨v, hv⟩)

theorem exists_walk (x : Questions) : ∃ asked o, x.Walk asked o :=
  exists_walk_of_passes rfl x.passes_nil

/-- A read that has got past some members asks the next one. -/
theorem Walk.mem_asked (hw : x.Walk asked o) (hsplit : x.members = done ++ h :: ahead)
    (hpasses : x.Passes done) : h ∈ asked := by
  have hmem : ∀ {before after : List Handle} {m : Handle}, x.members = before ++ m :: after →
      x.Stops before m → h ∈ before ++ [m] := by
    intro before after m hsplit' hstops
    have hpre : before ++ [m] <+: x.members := ⟨after, by simp [hsplit']⟩
    have hnext : done ++ [h] <+: x.members := ⟨ahead, by simp [hsplit]⟩
    have hdone : done <+: x.members := ⟨h :: ahead, hsplit.symm⟩
    have hlen : (done ++ [h]).length ≤ (before ++ [m]).length := by
      rw [List.length_append, List.length_append, List.length_singleton, List.length_singleton]
      refine Nat.succ_le_succ (Nat.le_of_not_lt fun hlt => hstops.not_passes (hpasses.of_prefix ?_))
      refine List.prefix_of_prefix_length_le hpre hdone ?_
      rw [List.length_append, List.length_singleton]
      omega
    exact (List.prefix_of_prefix_length_le hnext hpre hlen).subset
      (List.mem_append_right done (List.mem_singleton_self h))
  cases hw with
  | hit split passes intime value => exact hmem split (.inl ⟨_, value⟩)
  | late split passes tooLate => exact hmem split (.inr tooLate)
  | through passes => exact hsplit ▸ List.mem_append_right done (List.mem_cons_self ..)

end Questions

/-! ### Nodes that have been asked -/

/-- What nodes answer to a question about a key that is asked on a cluster. -/
def Cluster.questions (c : Cluster) (key : String) (ms : List Handle) (limit : Duration) :
    Questions where
  members := ms
  wait := c.fleet.wait c.env (.get key)
  answer h :=
    match (c.fleet.fate c.env (.get key) h).verdict with
    | .forward => .ok (c.fleet.held h key)
    | .pretend => .ok none
    | .refuse e => .error e
  limit := limit.ticks

/-- A cluster of which the nodes of a list have been asked, and nothing else has changed that
matters to a read. -/
structure Cluster.Asked (c : Cluster) (r : Request) (asked : List Handle) (c' : Cluster) :
    Prop where
  env : c'.env = c.env
  options : c'.ring.options = c.ring.options
  houses : ∀ y, c.fleet.Houses y → c'.fleet.Houses y
  node : ∀ y, c.fleet.Houses y → c'.fleet.node y =
    if y ∈ asked then ((c.fleet.node y).begin c.env r).2 else c.fleet.node y

namespace Cluster.Asked

variable {c c' c'' : Cluster} {r : Request} {asked : List Handle} {h : Handle}

theorem refl (c : Cluster) (r : Request) : c.Asked r [] c where
  env := rfl
  options := rfl
  houses _ hy := hy
  node _ _ := (if_neg List.not_mem_nil).symm

theorem passes (h : c.Asked r asked c') (hpasses : c'.Passes c'') : c.Asked r asked c'' where
  env := hpasses.env.trans h.env
  options := hpasses.options.trans h.options
  houses y hy := hpasses.houses y (h.houses y hy)
  node y hy := (hpasses.node y (h.houses y hy)).trans (h.node y hy)

/-- Nobody's data has changed. -/
theorem store (h : c.Asked r asked c') {y : Handle} (hy : c.fleet.Houses y) :
    (c'.fleet.node y).store = (c.fleet.node y).store := by
  rw [h.node y hy]
  split
  · exact Node.begin_store ..
  · rfl

/-- One more node is asked. -/
theorem ask (hasked : c.Asked r asked c') (hh : c.fleet.Houses h) (hnot : h ∉ asked)
    (expires : Option Instant) :
    (c'.ask h r expires).1 = ⟨⟨h, c.env.timer.after c'.now (c.fleet.fate c.env r h).delay,
        (c.fleet.fate c.env r h).verdict⟩, expires⟩ ∧
      c.Asked r (asked ++ [h]) (c'.ask h r expires).2 ∧ (c'.ask h r expires).2.now = c'.now := by
  have hhouse := hasked.houses h hh
  have hnode : c'.fleet.node h = c.fleet.node h := (hasked.node h hh).trans (if_neg hnot)
  have hid : ((c'.fleet.node h).begin c'.env r).2.id = h.id :=
    (Node.begin_id ..).trans hhouse.node_id
  refine ⟨?_, ⟨hasked.env, hasked.options, fun y hy => ?_, fun y hy => ?_⟩, rfl⟩
  · have hfate : ((c'.fleet.node h).begin c'.env r).1 = c.fleet.fate c.env r h := by
      rw [hnode, hasked.env]
      rfl
    rw [← hfate, ← hasked.env]
    rfl
  · exact Fleet.houses_replace hid hhouse (hasked.houses y hy)
  · refine (Fleet.node_replace _ hhouse (hasked.houses y hy)).trans ?_
    by_cases hy' : y = h
    · subst hy'
      rw [if_pos rfl, if_pos (List.mem_append_right _ (List.mem_singleton_self y))]
      show ((c'.fleet.node y).begin c'.env r).2 = _
      rw [hnode, hasked.env]
    · rw [if_neg hy', hasked.node y hy]
      refine if_congr ?_ rfl rfl
      rw [List.mem_append, List.mem_singleton, or_iff_left hy']

end Cluster.Asked

/-- The end of a question, whatever becomes of it, changes nothing in the fleet. -/
theorem Fleet.conclude_question {f : Fleet} {h : Handle} (hh : f.Houses h) (key : String)
    (v : Verdict) :
    f.conclude h (.get key) v =
      (match v with
        | .forward => .ok (f.held h key)
        | .pretend => .ok none
        | .refuse e => .error e, f, []) := by
  cases v with
  | forward => exact Fleet.conclude_get hh key
  | pretend => exact congrArg (fun f' => (_, f', _)) (Fleet.replace_node hh)
  | refuse e => exact congrArg (fun f' => (_, f', _)) (Fleet.replace_node hh)

/-! ### A read under way -/

/-- A read of different nodes, as it starts on a cluster. -/
structure ReadCall where
  start : Cluster
  members : List Handle
  key : String
  limit : Duration
  primary : Option NodeId
  /-- Whether it is a client's. -/
  client : Bool

namespace ReadCall

variable {x : ReadCall} {c c' : Cluster} {done ahead asked : List Handle} {h : Handle}
  {o : ReadOutcome} {p : Placement}

/-- What the members answer. -/
def questions (x : ReadCall) : Questions := x.start.questions x.key x.members x.limit

/-- What becomes of the request to a member. -/
def fate (x : ReadCall) : Handle → Fate := x.start.fleet.fate x.start.env (.get x.key)

/-- The request to a member that is asked once the members of a list have answered. -/
def inquiry (x : ReadCall) (done : List Handle) (h : Handle) : Inquiry where
  flight :=
    ⟨h, x.start.env.timer.after (x.start.now + x.questions.cost done) (x.fate h).delay,
      (x.fate h).verdict⟩
  expires := some (x.start.now + x.limit.ticks)

theorem inquiry_due (x : ReadCall) (done : List Handle) (h : Handle) :
    (x.inquiry done h).flight.due = x.start.now + x.questions.cost (done ++ [h]) := by
  rw [Questions.cost_append, Questions.cost_singleton, ← Nat.add_assoc]
  rfl

/-- The read when it has heard something and others are still ahead. -/
def run (x : ReadCall) (done ahead : List Handle) (o : ReadOutcome) : ReadRun where
  read := { key := x.key, ahead := ahead, outcome := o }
  started := x.start.now
  deadline := x.start.now + x.limit.ticks
  inquiry := ahead.head?.map (x.inquiry done)

/-- What the read is answered with. -/
def reply (x : ReadCall) (o : ReadOutcome) : Scenario.Answer :=
  if x.client then
    match o.hit with
    | some (_, v) => .value (some v)
    | none =>
      if o.timedOut then .ringError (.timeout x.key (.ofMillis x.limit.ticks))
      else if x.start.ring.options.readQuorum ≤ o.answered then .value none
      else .ringError (.quorumNotReached x.start.ring.options.readQuorum o.answered)
  else .readOutcome o

/-- The members of a read are different nodes that exist. -/
structure Good (x : ReadCall) : Prop where
  distinct : x.members.Nodup
  houses : ∀ h ∈ x.members, x.start.fleet.Houses h

/-- How a read stands: it has got past some members and waits for the next one; or it is answered as
its walk says. -/
inductive Along (x : ReadCall) : Cluster → Scenario.Activity → Prop
  | going {c : Cluster} {done ahead : List Handle} {h : Handle}
      (split : x.members = done ++ h :: ahead) (passes : x.questions.Passes done)
      (asked : x.start.Asked (.get x.key) (done ++ [h]) c)
      (early : c.now ≤ (x.inquiry done h).wake) :
      x.Along c (.read (x.run done (h :: ahead) (x.questions.heard done)) x.primary x.client)
  | ended {c : Cluster} {t : Instant} {asked : List Handle} {o : ReadOutcome}
      (walk : x.questions.Walk asked o) (left : x.start.Asked (.get x.key) asked c) :
      x.Along c (.answered t (x.reply o))

/-- A client's answer when the deadline, if it has passed, has passed just now. -/
theorem settle_reply (o : ReadOutcome) (options : RingOptions) (key : String)
    {elapsed limit : Duration} (h : o.timedOut = true → elapsed = limit) :
    (match o.settle options key elapsed with
      | .ok value => Scenario.Answer.value value
      | .error e => .ringError e) =
    match o.hit with
    | some (_, v) => .value (some v)
    | none =>
      if o.timedOut then .ringError (.timeout key limit)
      else if options.readQuorum ≤ o.answered then .value none
      else .ringError (.quorumNotReached options.readQuorum o.answered) := by
  rw [ReadOutcome.settle]
  cases o.hit with
  | some found => rfl
  | none =>
    cases htime : o.timedOut with
    | true =>
      rw [if_pos rfl, if_pos rfl, h htime]
    | false =>
      rw [if_neg Bool.false_ne_true, if_neg Bool.false_ne_true]
      by_cases hquorum : options.readQuorum ≤ o.answered
      · rw [if_pos hquorum, if_neg (Nat.not_lt.2 hquorum)]
      · rw [if_neg hquorum, if_pos (Nat.lt_of_not_le hquorum)]

/-- A read that waits for nobody any more is answered as its walk says. -/
theorem along_ended (done : List Handle) (hwalk : x.questions.Walk asked o)
    (hleft : x.start.Asked (.get x.key) asked c)
    (hnow : o.timedOut = true → c.now = x.start.now + x.limit.ticks) :
    x.Along (Scenario.Activity.ofRead c (x.run done [] o) x.primary x.client).2
      (Scenario.Activity.ofRead c (x.run done [] o) x.primary x.client).1 := by
  have hdone : (x.run done [] o).read.isDone = true := rfl
  rw [Scenario.Activity.ofRead, if_pos hdone]
  cases hclient : x.client with
  | false =>
    have hreply : x.reply o = .readOutcome o := by rw [reply, hclient, if_neg Bool.false_ne_true]
    rw [if_neg Bool.false_ne_true, show (x.run done [] o).read.outcome = o from rfl, ← hreply]
    exact .ended hwalk hleft
  | true =>
    have hreply : (match o.settle c.ring.options x.key (.ofMillis (c.now - x.start.now)) with
        | .ok value => Scenario.Answer.value value
        | .error e => .ringError e) = x.reply o := by
      rw [reply, hclient, if_pos rfl, hleft.options]
      refine settle_reply o _ _ fun htime => congrArg Duration.ofMillis ?_
      rw [hnow htime]
      exact Nat.add_sub_cancel_left _ _
    rw [if_pos rfl]
    simp only [Scenario.Activity.now]
    have hover : x.Along ((c.report (o.events x.key x.primary)).endOp .get o.misses x.start.now)
        (.answered c.now (x.reply o)) :=
      .ended hwalk ⟨hleft.env, hleft.options, hleft.houses, hleft.node⟩
    rw [← hreply] at hover
    exact hover

/-- **The next question.** A read that has got past some members asks the next one, or it is
over. -/
theorem along_next (hx : x.Good) (split : x.members = done ++ ahead)
    (passes : x.questions.Passes done) (hasked : x.start.Asked (.get x.key) done c)
    (hnow : c.now = x.start.now + x.questions.cost done) :
    let q := c.askHead ahead (.get x.key) (some (x.start.now + x.limit.ticks))
    let run : ReadRun := { x.run done ahead (x.questions.heard done) with inquiry := q.1 }
    x.Along (Scenario.Activity.ofRead q.2 run x.primary x.client).2
      (Scenario.Activity.ofRead q.2 run x.primary x.client).1 := by
  cases ahead with
  | nil =>
    rw [List.append_nil] at split
    subst split
    exact along_ended x.members (.through passes) hasked
      fun htime => absurd htime Bool.false_ne_true
  | cons h ahead =>
    have hnot : h ∉ done := fun hmem =>
      (List.nodup_append.1 (split ▸ hx.distinct)).2.2 h hmem h (List.mem_cons_self ..) rfl
    have hh : x.start.fleet.Houses h :=
      hx.houses h (split ▸ List.mem_append_right done (List.mem_cons_self ..))
    obtain ⟨hq, hnext, hnow'⟩ := hasked.ask hh hnot (some (x.start.now + x.limit.ticks))
    rw [hnow] at hq
    have hmore : ¬ (x.run done (h :: ahead) (x.questions.heard done)).read.isDone = true :=
      Bool.false_ne_true
    simp only [Cluster.askHead]
    rw [Scenario.Activity.ofRead, if_neg hmore, hq]
    refine .going split passes hnext ?_
    rw [hnow', hnow]
    refine Nat.le_min.2 ⟨?_, Nat.add_le_add_left passes.intime _⟩
    rw [inquiry_due, Questions.cost_append]
    exact Nat.add_le_add_left (Nat.le_add_right _ _) _

theorem member_of_split (split : x.members = done ++ h :: ahead) : h ∈ x.members :=
  split ▸ List.mem_append_right done (List.mem_cons_self ..)

/-- A member answers as it was bound to when the read started, or too late. -/
theorem receive_eq (hx : x.Good) (split : x.members = done ++ h :: ahead)
    (hasked : x.start.Asked (.get x.key) (done ++ [h]) c) :
    c.receive (x.inquiry done h) (.get x.key) =
      if x.questions.cost (done ++ [h]) ≤ x.limit.ticks then
        (some (x.questions.answer h), c.report [])
      else (none, c) := by
  have hh := hx.houses h (member_of_split split)
  have hheld : c.fleet.held h x.key = x.start.fleet.held h x.key := by
    rw [Fleet.held, hasked.store hh]
    rfl
  have harrives : (x.inquiry done h).arrives =
      decide (x.questions.cost (done ++ [h]) ≤ x.limit.ticks) := by
    show decide ((x.inquiry done h).flight.due ≤ x.start.now + x.limit.ticks) = _
    rw [inquiry_due, decide_eq_decide]
    exact Nat.add_le_add_iff_left
  have hanswer : c.fleet.conclude (x.inquiry done h).flight.target (.get x.key)
      (x.inquiry done h).flight.verdict = (x.questions.answer h, c.fleet, []) := by
    refine (Fleet.conclude_question (hasked.houses h hh) x.key (x.fate h).verdict).trans ?_
    rw [hheld]
    rfl
  rw [Cluster.receive, harrives]
  by_cases hin : x.questions.cost (done ++ [h]) ≤ x.limit.ticks
  · rw [if_pos hin, if_pos (decide_eq_true hin)]
    rw [hanswer]
    cases x.questions.answer h <;> rfl
  · rw [if_neg hin, if_neg (by rwa [decide_eq_true_eq])]

/-- What a read has heard once one more member has answered without a value. -/
theorem hear_append (done ahead : List Handle) (hvalue : ∀ v, x.questions.answer h ≠ .ok (some v)) :
    (x.run done (h :: ahead) (x.questions.heard done)).hear h (some (x.questions.answer h)) =
      { key := x.key, ahead := ahead, outcome := x.questions.heard (done ++ [h]) } := by
  cases hanswer : x.questions.answer h with
  | error e =>
    rw [Questions.heard_failed done hanswer]
    rfl
  | ok found =>
    cases found with
    | none =>
      rw [Questions.heard_absent done hanswer]
      rfl
    | some v => exact absurd hanswer (hvalue v)

/-- **The next event of a read** keeps it along: the member asked answers, or the deadline is
there. -/
theorem along_step (hx : x.Good) (split : x.members = done ++ h :: ahead)
    (passes : x.questions.Passes done)
    (hasked : x.start.Asked (.get x.key) (done ++ [h]) c)
    (hwake : (x.inquiry done h).wake = c.now) :
    let s := (x.run done (h :: ahead) (x.questions.heard done)).step c
    let p := Scenario.Activity.ofRead s.2 s.1 x.primary x.client
    x.Along p.2 p.1 := by
  have hreceive := receive_eq hx split hasked
  have hnow : min (x.inquiry done h).flight.due (x.start.now + x.limit.ticks) = c.now := hwake
  rw [inquiry_due] at hnow
  have hq : (x.run done (h :: ahead) (x.questions.heard done)).inquiry = some (x.inquiry done h) :=
    rfl
  have hstep : (x.run done (h :: ahead) (x.questions.heard done)).step c =
      (let p := c.receive (x.inquiry done h) (.get x.key)
       let read := (x.run done (h :: ahead) (x.questions.heard done)).hear h p.1
       let q := p.2.askHead read.ahead (.get read.key) (some (x.start.now + x.limit.ticks))
       ({ x.run done (h :: ahead) (x.questions.heard done) with
            read := read, inquiry := q.1 }, q.2)) := by
    simp only [ReadRun.step, hq]
    rfl
  simp only [hstep, hreceive]
  by_cases hin : x.questions.cost (done ++ [h]) ≤ x.limit.ticks
  · rw [Nat.min_eq_left (Nat.add_le_add_left hin _)] at hnow
    have hreport : x.start.Asked (.get x.key) (done ++ [h]) (c.report []) :=
      ⟨hasked.env, hasked.options, hasked.houses, hasked.node⟩
    simp only [if_pos hin]
    by_cases hvalue : ∃ v, x.questions.answer h = .ok (some v)
    · obtain ⟨v, hv⟩ := hvalue
      rw [hv]
      exact along_ended done (.hit split passes hin hv) hreport
        fun htime => absurd htime Bool.false_ne_true
    · have hvalue : ∀ v, x.questions.answer h ≠ .ok (some v) := fun v hv => hvalue ⟨v, hv⟩
      rw [hear_append done ahead hvalue]
      exact along_next hx (split.trans (List.append_cons ..)) (passes.append hin hvalue) hreport
        hnow.symm
  · have hlate := Nat.lt_of_not_le hin
    rw [Nat.min_eq_right (Nat.add_le_add_left (Nat.le_of_lt hlate) _)] at hnow
    simp only [if_neg hin]
    exact along_ended done (.late split passes hlate) hasked fun _ => hnow.symm

/-- A read starts with the question to its first member. -/
theorem start_eq (hp : p.members = x.members) :
    ReadRun.start x.start x.key p x.limit =
      (let q := x.start.askHead x.members (.get x.key) (some (x.start.now + x.limit.ticks))
       ({ x.run [] x.members (x.questions.heard []) with inquiry := q.1 }, q.2)) := by
  rw [ReadRun.start, Read.start, hp]
  cases x.members <;> rfl

/-- **Reads under way.** Their events, and changes of the membership meanwhile, keep them along. -/
theorem kept_along (hx : x.Good) : Scenario.World.Kept x.Along where
  early := by
    intro c a s halong hs
    cases halong with
    | going split passes asked early => exact Option.some.inj hs ▸ early
    | ended walk left => cases hs
  meanwhile := by
    intro c c' a halong hpasses hnow
    cases halong with
    | going split passes asked early =>
      exact .going split passes (asked.passes hpasses) (hnow _ rfl)
    | ended walk left => exact .ended walk (left.passes hpasses)
  goes := by
    intro w a halong hwake
    generalize hc : w.cluster = c at halong
    cases halong with
    | ended walk left => cases hwake
    | going split passes asked early =>
      subst hc
      exact along_step hx split passes asked (Option.some.inj hwake)

end ReadCall

/-! ### Reads among changes of the membership -/

namespace Scenario.World

variable {w : World} {i : Nat} {x : ReadCall} {p : Placement}

/-- The member that a read waits for. -/
def asking (i : Nat) (w : World) : Option Handle :=
  match w.activities[i]? with
  | some (.read run _ _) => run.inquiry.map (·.flight.target)
  | _ => none

/-- A read comes to its end with an answer and has asked only the nodes of a list until then: no
store has changed, and the other nodes are as they were. -/
structure ReadsOnly (w : World) (i : Nat) (c : Cluster) (key : String) (asked : List Handle)
    (a : Answer) : Prop where
  concludes : w.Concludes i fun a' c' => a' = a ∧ c.Asked (.get key) asked c' ∧
    ∀ y, c.fleet.Houses y → (c'.fleet.node y).store = (c.fleet.node y).store
  asks : ∀ turns, w.Punctual turns → ∀ h, (w.follow turns).asking i = some h → h ∈ asked

/-- **Reads come to their end** as their walk says. -/
theorem readsOnly_of_walk (hx : x.Good) (hp : p.members = x.members) (h : w.Undisturbed i)
    (hi : i < w.activities.size) {asked : List Handle} {o : ReadOutcome}
    (hwalk : x.questions.Walk asked o) :
    let q := ReadRun.start x.start x.key p x.limit
    let r := Activity.ofRead q.2 q.1 x.primary x.client
    ({ w with
       cluster := r.2
       activities := w.activities.setIfInBounds i r.1 } : World).ReadsOnly i x.start x.key asked
      (x.reply o) := by
  simp only
  rw [ReadCall.start_eq hp]
  let q := x.start.askHead x.members (.get x.key) (some (x.start.now + x.limit.ticks))
  let run : ReadRun := { x.run [] x.members (x.questions.heard []) with inquiry := q.1 }
  let r := Activity.ofRead q.2 run x.primary x.client
  have hunder : r.1.Underway := (ofRead_underway q.2 x.primary x.client fun hne =>
    askHead_ne_none (c := x.start) hne _ _).1
  have hstart : x.Along r.2 r.1 :=
    ReadCall.along_next hx rfl x.questions.passes_nil (.refl x.start _) (Nat.add_zero _).symm
  have hamong := h.amongChanges (c := r.2) hi hunder
  have hcall : ∀ a, (w.activities.setIfInBounds i r.1)[i]? = some a → x.Along r.2 a := by
    intro a ha
    rw [Array.getElem?_setIfInBounds, if_pos rfl, if_pos hi] at ha
    exact Option.some.inj ha ▸ hstart
  refine ⟨hamong.concludes (ReadCall.kept_along hx) hcall fun c t a halong => ?_,
    fun turns hturns m hm => ?_⟩
  · cases halong with
    | ended walk left =>
      obtain ⟨rfl, rfl⟩ := hwalk.unique walk
      exact ⟨rfl, left, fun y hy => left.store hy⟩
  · obtain ⟨-, -, hlast⟩ := hturns.keeps (ReadCall.kept_along hx) hamong hcall
    rw [asking] at hm
    split at hm
    · next run primary client hact =>
      generalize hc : (follow _ turns).cluster = c at hlast
      have halong := hlast _ hact
      cases halong with
      | going split passes asked early =>
        obtain rfl := Option.some.inj hm
        exact hwalk.mem_asked split passes
    · exact nomatch hm

/-- A read of a list of nodes begins with the question to the first one. -/
theorem begin_readFrom {ids : List NodeId} {hs : List Handle} {key : String} {limit : Duration}
    (hids : ids.mapM w.registry.find? = some hs) (hfits : limit.fits = true) :
    w.begin (.readFrom (.nodes ids) key limit) =
      (let q := ReadRun.start w.cluster key (.ofList hs) limit
       w.started (Activity.ofRead q.2 q.1 ((Placement.ofList hs).primary?.map (·.id)) false)) := by
  rw [begin, ringless, Bool.or_true, if_pos rfl, beginChecked, withSelection, select]
  simp only [hids, hfits, if_true]

/-- A node that is switched off answers a question at once, with an error. -/
theorem questions_of_isDown {c : Cluster} {h : Handle} (hh : c.fleet.Houses h)
    (hdown : (c.fleet.node h).isDown = true) (key : String) (ms : List Handle) (limit : Duration) :
    (c.questions key ms limit).wait h = 0 ∧
      (c.questions key ms limit).answer h = .error (.unavailable h.id) := by
  obtain ⟨hwait, herror⟩ := Fleet.fate_of_isDown hh hdown c.env (.get key)
  refine ⟨hwait, ?_⟩
  cases hverdict : (c.fleet.fate c.env (.get key) h).verdict with
  | refuse e =>
    rw [hverdict] at herror
    simp only [Cluster.questions, hverdict]
    exact congrArg Except.error (Option.some.inj herror)
  | _ =>
    rw [hverdict] at herror
    exact nomatch herror

/-- **Reads, from start to end.** The time that a node takes and the limit of a read count in whole
ticks of the clock. A read of a list of nodes, of which the first of each identity counts, asks them
in order, up to the first one that has a value or whose answer would come after the limit. So does a
get of a client with the replicas of its key; it returns the value if the read stops at one, fails
at its limit if the read stops there, and otherwise reports the key as absent if its quorum has
answered so. No store changes. A node that is switched off fails at once. -/
theorem reads_settle (w : World) (i : Nat) (hw : w.Undisturbed i) (key : String) :
    (∀ h ms limit,
      (w.cluster.fleet.fate w.cluster.env (.get key) h).delay.nanos ≤
        Duration.longestSleep.nanos →
      (w.cluster.questions key ms limit).wait h =
        (w.cluster.fleet.fate w.cluster.env (.get key) h).delay.ticks) ∧
    (∀ h ms limit, w.cluster.fleet.Houses h → (w.cluster.fleet.node h).isDown = true →
      (w.cluster.questions key ms limit).wait h = 0 ∧
        (w.cluster.questions key ms limit).answer h = .error (.unavailable h.id)) ∧
    (∀ (t : Instant) (ids : List NodeId) (hs : List Handle) (limit : Duration),
      ids.mapM w.registry.find? = some hs → limit.fits = true →
      w.activities[i]? = some (.later t (.readFrom (.nodes ids) key limit)) →
      let x := w.cluster.questions key (Placement.ofList hs).members limit
      (∀ h ∈ x.members, w.cluster.fleet.Houses h) →
      (∃ asked o, x.Walk asked o) ∧ ∀ asked o, x.Walk asked o →
        (w.go (.activity i)).ReadsOnly i w.cluster key asked (.readOutcome o)) ∧
    ∀ (t : Instant) (timeout : Option Duration), w.hasRing = true → w.Linked →
      w.activities[i]? = some (.later t (.get key timeout)) →
      let limit := w.cluster.ring.options.limit timeout
      let quorum := w.cluster.ring.options.readQuorum
      let x := w.cluster.questions key (w.cluster.ring.placement key).members limit
      limit.fits = true →
      (∃ asked o, x.Walk asked o) ∧ ∀ asked o, x.Walk asked o →
        (w.go (.activity i)).ReadsOnly i w.cluster key asked
          (match o.hit with
            | some (_, v) => .value (some v)
            | none =>
              if o.timedOut then .ringError (.timeout key (.ofMillis limit.ticks))
              else if quorum ≤ o.answered then .value none
              else .ringError (.quorumNotReached quorum o.answered)) := by
  refine ⟨fun h _ _ hshort => w.cluster.env.timer.exact _ hshort,
    fun h ms limit hh hdown => questions_of_isDown hh hdown key ms limit,
    fun t ids hs limit hids hfits hcall hhouses =>
      ⟨Questions.exists_walk _, fun asked o hwalk => ?_⟩,
    fun t timeout hring hlinked hcall hfits =>
      ⟨Questions.exists_walk _, fun asked o hwalk => ?_⟩⟩
  · let p := Placement.ofList hs
    let x : ReadCall := ⟨w.cluster, p.members, key, limit, p.primary?.map (·.id), false⟩
    have hx : x.Good :=
      ⟨(Placement.ofList_distinct hs).imp fun hab he => hab (congrArg Handle.id he), hhouses⟩
    rw [go_later hcall (begin_readFrom hids hfits)]
    exact readsOnly_of_walk (x := x) (p := p) hx rfl hw (Array.getElem?_eq_some_iff.1 hcall).1 hwalk
  · let p := w.cluster.ring.placement key
    let limit := w.cluster.ring.options.limit timeout
    let start := (w.cluster.beginOp .get).report [w.cluster.ring.placementEvent key]
    let x : ReadCall := ⟨start, p.members, key, limit, p.primary?.map (·.id), true⟩
    have hx : x.Good := ⟨hlinked.sound.placement_nodup _ _,
      fun h hh => hlinked.houses h (hlinked.sound.placement_subset hh)⟩
    have hreads := readsOnly_of_walk (x := x) (p := p) hx rfl hw
      (Array.getElem?_eq_some_iff.1 hcall).1 hwalk
    rw [go_later hcall (begin_get hring hfits rfl)]
    refine ⟨hreads.concludes.mono ?_, hreads.asks⟩
    rintro a c ⟨rfl, hasked, hstore⟩
    exact ⟨if_pos rfl, ⟨hasked.env, hasked.options, hasked.houses, hasked.node⟩, hstore⟩

/-- Three nodes: one is switched off, and one of the other two has a value of `a`. They are the
replicas of every key. -/
def patchyNodes : Cluster where
  fleet := ⟨#[
    { id := ⟨10⟩, store := ⟨[("a", "0")]⟩, faults := .injected { down := true } },
    { id := ⟨20⟩, faults := .injected { latency := .ofMillis 30 } },
    { id := ⟨30⟩, store := ⟨[("a", "1")]⟩, faults := .injected { latency := .ofMillis 40 } }]⟩
  ring := ⟨fun _ => 5, { replicaCount := 3, readQuorum := 2, opTimeout := .ofMillis 70 },
    ⟨⟨[(⟨10⟩, ⟨⟨10⟩, 0⟩), (⟨20⟩, ⟨⟨20⟩, 1⟩), (⟨30⟩, ⟨⟨30⟩, 2⟩)]⟩, 0⟩⟩

/-- While an operation goes on, a node is added and another one is dropped. -/
def patchyTrio (op : Op) : World where
  cluster := patchyNodes
  activities := #[.later 0 op, .later 10 (.add { id := ⟨40⟩ }), .later 20 (.drop ⟨30⟩)]
  registry := ⟨[(⟨10⟩, ⟨⟨10⟩, 0⟩), (⟨20⟩, ⟨⟨20⟩, 1⟩), (⟨30⟩, ⟨⟨30⟩, 2⟩)]⟩

theorem patchyTrio_linked (op : Op) : (patchyTrio op).Linked := by
  have hsound : patchyNodes.ring.membership.Sound :=
    ⟨by unfold OrderedMap.Sorted; decide, by decide⟩
  have hhouses : ∀ h ∈ patchyNodes.ring.membership.handles, patchyNodes.fleet.Houses h := by decide
  exact .of_registry hsound hhouses rfl

theorem patchyTrio_undisturbed (op : Op) : (patchyTrio op).Undisturbed 0 where
  loops := rfl
  others j b hj hb := by
    rcases j with _ | _ | _ | j
    · exact absurd rfl hj
    · exact .inr ⟨10, _, (Option.some.inj hb).symm, rfl⟩
    · exact .inr ⟨20, _, (Option.some.inj hb).symm, rfl⟩
    · simp [patchyTrio] at hb

/-- A value that arrives just at the limit counts; with less time the read stops there. -/
theorem reads_settle_patchyTrio :
    (let w := patchyTrio (.readFrom (.nodes [⟨10⟩, ⟨20⟩, ⟨30⟩]) "a" (.ofMillis 69))
     (w.go (.activity 0)).ReadsOnly 0 w.cluster "a" [⟨⟨10⟩, 0⟩, ⟨⟨20⟩, 1⟩, ⟨⟨30⟩, 2⟩]
      (.readOutcome
        { answered := 1
          failed := [(⟨10⟩, .unavailable ⟨10⟩)]
          timedOut := true })) ∧
    let w := patchyTrio (.get "a" none)
    (w.go (.activity 0)).ReadsOnly 0 w.cluster "a" [⟨⟨10⟩, 0⟩, ⟨⟨20⟩, 1⟩, ⟨⟨30⟩, 2⟩]
      (.value (some "1")) := by
  let first := patchyTrio (.readFrom (.nodes [⟨10⟩, ⟨20⟩, ⟨30⟩]) "a" (.ofMillis 69))
  let second := patchyTrio (.get "a" none)
  obtain ⟨-, -, hlist, -⟩ := reads_settle first 0 (patchyTrio_undisturbed _) "a"
  obtain ⟨-, -, -, hring⟩ := reads_settle second 0 (patchyTrio_undisturbed _) "a"
  have hids : [⟨10⟩, ⟨20⟩, ⟨30⟩].mapM first.registry.find? =
      some [⟨⟨10⟩, 0⟩, ⟨⟨20⟩, 1⟩, ⟨⟨30⟩, 2⟩] := by decide
  obtain ⟨-, hlist⟩ := hlist 0 _ _ (.ofMillis 69) hids (by decide) rfl (by decide)
  obtain ⟨-, hring⟩ := hring 0 none rfl (patchyTrio_linked _) rfl (by decide)
  have hvalueless : ∀ h ∈ [(⟨⟨10⟩, 0⟩ : Handle), ⟨⟨20⟩, 1⟩], ∀ ms limit v,
      (patchyNodes.questions "a" ms limit).answer h ≠ .ok (some v) := by
    intro h hh ms limit v
    simp only [List.mem_cons, List.not_mem_nil, or_false] at hh
    rcases hh with rfl | rfl
    · exact nofun
    · exact nofun
  have hsplit : [⟨⟨10⟩, 0⟩, ⟨⟨20⟩, 1⟩, ⟨⟨30⟩, 2⟩] =
      [⟨⟨10⟩, 0⟩, ⟨⟨20⟩, 1⟩] ++ (⟨⟨30⟩, 2⟩ : Handle) :: [] := rfl
  exact ⟨hlist _ _ (.late hsplit ⟨by decide, fun h hh => hvalueless h hh _ _⟩ (by decide)),
    hring _ _ (.hit hsplit ⟨by decide, fun h hh => hvalueless h hh _ _⟩ (by decide) rfl)⟩

/-- Two nodes without a value that take half a tick each. A read that asks both may take one
tick. -/
def halfTicks : World where
  cluster :=
    { fleet := ⟨#[
        { id := ⟨10⟩, faults := .injected { latency := ⟨500000⟩ } },
        { id := ⟨20⟩, faults := .injected { latency := ⟨500000⟩ } }]⟩
      ring := ⟨fun _ => 5, { replicaCount := 2, opTimeout := .ofMillis 1 },
        ⟨⟨[(⟨10⟩, ⟨⟨10⟩, 0⟩), (⟨20⟩, ⟨⟨20⟩, 1⟩)]⟩, 0⟩⟩ }

/-- One node that has a value and takes its time. -/
def slowHolder (timer : Timer) (latency opTimeout : Duration) : World where
  cluster :=
    { fleet := ⟨#[
        { id := ⟨10⟩, store := ⟨[("k", "v")]⟩, faults := .injected { latency := latency } }]⟩
      ring := ⟨fun _ => 5, { replicaCount := 1, opTimeout := opTimeout },
        ⟨⟨[(⟨10⟩, ⟨⟨10⟩, 0⟩)]⟩, 0⟩⟩
      env := { timer := timer } }

/-- How long the replicas of a key take for a read together. -/
def nanosAsked (w : World) (key : String) : Nat :=
  ((w.cluster.ring.placement key).members.map fun h =>
    (w.cluster.fleet.fate w.cluster.env (.get key) h).delay.nanos).sum

/-- **Limits that are missed.** Two replicas without the key take exactly as long as a get may take,
and yet it fails at its limit, since each of their waits is over at a tick only. And a get returns
the value of a replica that takes longer than it may take: both times are over at the same tick, or
the runtime cuts the longer one. -/
theorem get_misses_limit :
    (halfTicks.nanosAsked "k" = halfTicks.cluster.ring.options.opTimeout.nanos ∧
      ∃ w', halfTicks.Performs (.get "k" none) (.ringError (.timeout "k" (.ofMillis 1))) w') ∧
    (let w := slowHolder .standard ⟨500000⟩ ⟨100000⟩
     w.cluster.ring.options.opTimeout.nanos < w.nanosAsked "k" ∧
      ∃ w', w.Performs (.get "k" none) (.value (some "v")) w') ∧
    let w := slowHolder .capped (.ofMillis 1000000000000) (.ofMillis 946080000000)
    w.cluster.ring.options.opTimeout.nanos < w.nanosAsked "k" ∧
      ∃ w', w.Performs (.get "k" none) (.value (some "v")) w' := by
  refine ⟨⟨by decide, ?_⟩, ⟨by decide, ?_⟩, by decide, ?_⟩
  · exact performs_of_runsTo rfl (begin_get rfl (by decide) rfl)
      (.event (t := 1) rfl (by decide) (.event (t := 1) rfl (by decide) (.answered 1 _)))
  · exact performs_of_runsTo rfl (begin_get rfl (by decide) rfl)
      (.event (t := 1) rfl (by decide) (.answered 1 _))
  · exact performs_of_runsTo rfl (begin_get rfl (by decide) rfl)
      (.event (t := 946080000000) rfl (by decide) (.answered 946080000000 _))

end Scenario.World

end ReplicaRing

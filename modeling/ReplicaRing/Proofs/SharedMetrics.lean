import Mathlib.Algebra.Ring.Nat
import Mathlib.Data.List.Sigma
import ReplicaRing.Proofs.CallCounts
import ReplicaRing.Proofs.ReachableRings

/-!
# Rings that share their metrics

Several rings may share their metrics, their clock and some of their nodes. In every run of such
rings each client call is measured once when it begins and once when it ends, whatever it comes to,
and each member that has not done its part is counted as failed.

* `Rings`, `Rings.go`, `Rings.follow` — several rings, of which one goes on at a time;
* `Rings.calls`, `Rings.heard` — the client calls, and what members answer to them;
* `Rings.InOrder` — what every move keeps of all rings;
* `Rings.Accounted`, `accounted_follow` — the measures after every run, calls under way included;
* `client_metrics` — the measures when all calls have ended.
-/

namespace ReplicaRing.Scenario

/-- Several rings with what they share: the clock, the nodes and the metrics. Each world stands for
one ring with its calls. -/
structure Rings where
  now : Instant := 0
  fleet : Fleet
  metrics : Metrics := {}
  worlds : Array World

namespace Rings

/-- Whoever goes on, on which ring and when. -/
structure Move where
  ring : Nat
  time : Instant
  turn : World.Turn
  deriving Repr

/-- An activity, by its ring and its place there. -/
structure Place where
  ring : Nat
  index : Nat
  deriving DecidableEq, Repr

/-- A ring, with what it shares with the others. -/
def world? (s : Rings) (r : Nat) : Option World :=
  s.worlds[r]?.map fun w =>
    { w with cluster := { w.cluster with now := s.now, fleet := s.fleet, metrics := s.metrics } }

/-- The rings after one of them has gone on. -/
def set (s : Rings) (r : Nat) (w : World) : Rings where
  now := w.cluster.now
  fleet := w.cluster.fleet
  metrics := w.cluster.metrics
  worlds := s.worlds.setIfInBounds r w

/-- One ring goes on. -/
def go (s : Rings) (m : Move) : Rings :=
  match s.world? m.ring with
  | some w => s.set m.ring ((w.advanceTo m.time).go m.turn)
  | none => s

/-- The moves of a schedule. -/
def follow (s : Rings) (moves : List Move) : Rings := moves.foldl go s

/-- The activity at a place. -/
def activity? (s : Rings) (p : Place) : Option Activity :=
  s.worlds[p.ring]?.bind fun w => w.activities[p.index]?

/-- The client calls of a kind that have not ended. -/
def calls (s : Rings) (op : ClientOp) : List Place :=
  s.worlds.toList.zipIdx.flatMap fun e => e.1.activities.toList.zipIdx.filterMap fun a =>
    if a.1.client? = some op then some ⟨e.2, a.2⟩ else none

/-- The call that hears a member in a move, and whether the member acknowledges it. -/
def heard? (s : Rings) (m : Move) : Option (Place × Bool) :=
  match m.turn with
  | .activity i => do
    let w ← s.world? m.ring
    let a ← w.activities[i]?
    let ok ← a.reply? (w.advanceTo m.time).cluster
    return (⟨m.ring, i⟩, ok)
  | .loop _ => none

/-- All that calls hear in a schedule. -/
def heard (s : Rings) : List Move → List (Place × Bool)
  | [] => []
  | m :: moves => (s.heard? m).toList ++ (s.go m).heard moves

/-- How many members acknowledge a call. -/
def acks (s : Rings) (moves : List Move) (p : Place) : Nat := (s.heard moves).count (p, true)

/-- How many members answer a call with an error. -/
def errors (s : Rings) (moves : List Move) (p : Place) : Nat := (s.heard moves).count (p, false)

/-- The number of replicas on a ring. -/
def replicas (s : Rings) (r : Nat) : Nat :=
  s.worlds[r]?.elim 0 fun w => w.cluster.ring.options.replicaCount

/-- Whether the activity at a place has been answered. -/
def isAnswered (s : Rings) (p : Place) : Bool := (s.activity? p).any Activity.isAnswered

/-- The failed replicas of a call: for a write all that have not acknowledged it, unless it has
broken off, and for a read those that have answered with an error and one more if it has ended in a
timeout. -/
def cost (s : Rings) (moves : List Move) (op : ClientOp) (p : Place) : Nat :=
  match op with
  | .get => s.errors moves p + if ((s.follow moves).activity? p).any Activity.expired then 1 else 0
  | _ =>
    if ((s.follow moves).activity? p).any Activity.broken then 0
    else s.replicas p.ring - s.acks moves p

/-! ### Moves -/

variable {s : Rings} {m : Move} {moves : List Move} {p : Place} {op : ClientOp} {r : Nat}
  {w : World}

theorem follow_concat (s : Rings) (moves : List Move) (m : Move) :
    s.follow (moves ++ [m]) = (s.follow moves).go m := by
  rw [follow, List.foldl_concat, follow]

theorem heard_concat (s : Rings) (moves : List Move) (m : Move) :
    s.heard (moves ++ [m]) = s.heard moves ++ ((s.follow moves).heard? m).toList := by
  induction moves generalizing s with
  | nil => exact List.append_nil _
  | cons m' moves ih =>
    rw [List.cons_append, heard, ih, heard, List.append_assoc]
    rfl

theorem activity?_of_world (hw : s.world? r = some w) (i : Nat) :
    s.activity? ⟨r, i⟩ = w.activities[i]? := by
  obtain ⟨v, hv, rfl⟩ := Option.map_eq_some_iff.1 hw
  rw [activity?, hv]
  rfl

/-- A ring that has gone on stands with its activities, and the others with theirs. -/
theorem activity?_set (hw : s.world? r = some w) (w' : World) (p : Place) :
    (s.set r w').activity? p =
      if p.ring = r then w'.activities[p.index]? else s.activity? p := by
  obtain ⟨v, hv, -⟩ := Option.map_eq_some_iff.1 hw
  have hlt : r < s.worlds.size := (Array.getElem?_eq_some_iff.1 hv).1
  simp only [activity?, set, Array.getElem?_setIfInBounds]
  by_cases hr : r = p.ring
  · rw [if_pos hr, if_pos (hr ▸ hlt), if_pos hr.symm]
    rfl
  · rw [if_neg hr, if_neg fun he => hr he.symm]

/-- The others see what is shared change, and nothing else. -/
theorem world?_set {w' v : World} {r' : Nat} (h : (s.set r w').world? r' = some v) :
    v = w' ∧ r' = r ∨ ∃ u, s.world? r' = some u ∧
      v = { u with cluster := { u.cluster with
        now := w'.cluster.now, fleet := w'.cluster.fleet, metrics := w'.cluster.metrics } } := by
  obtain ⟨u, hu, rfl⟩ := Option.map_eq_some_iff.1 h
  rw [show (s.set r w').worlds = s.worlds.setIfInBounds r w' from rfl,
    Array.getElem?_setIfInBounds] at hu
  split at hu
  · next hr =>
    split at hu
    · obtain rfl := Option.some.inj hu
      exact .inl ⟨rfl, hr.symm⟩
    · exact nomatch hu
  · exact .inr ⟨_, congrArg (Option.map _) hu, rfl⟩

end Rings

/-! ### Rings in order -/

/-- A ring on which calls come to their end as they should: it is there and in order, and the nodes
it refers to exist. -/
structure World.InOrder (w : World) (replicas : Nat) : Prop where
  hasRing : w.hasRing = true
  fair : w.Fair Operation.never
  proper : w.cluster.ring.Proper
  replicas : w.cluster.ring.options.replicaCount = replicas

namespace World.InOrder

variable {w : World} {replicas : Nat}

/-- Others may change the clock, the metrics and the nodes. -/
theorem share (h : w.InOrder replicas) {c : Cluster}
    (hhouses : ∀ x, w.cluster.fleet.Houses x → c.fleet.Houses x) :
    ({ w with cluster := { w.cluster with
      now := c.now, fleet := c.fleet, metrics := c.metrics } } : World).InOrder replicas where
  hasRing := h.hasRing
  fair :=
    { linked := h.fair.linked.mono rfl rfl hhouses
      candid := fun n _ => Faults.candid_never n.faults
      activities := fun i a ha => (h.fair.activities i a ha).mono hhouses
      loops := fun i run hrun => (h.fair.loops i run hrun).mono hhouses }
  proper := h.proper
  replicas := h.replicas

theorem advanceTo (h : w.InOrder replicas) (t : Instant) : (w.advanceTo t).InOrder replicas where
  hasRing := h.hasRing
  fair := h.fair.advanceTo t
  proper := h.proper
  replicas := h.replicas

/-- Whoever goes on leaves the ring in order, and no node disappears. -/
theorem go (h : w.InOrder replicas) (x : Turn) :
    (w.go x).InOrder replicas ∧
      ∀ y, w.cluster.fleet.Houses y → (w.go x).cluster.fleet.Houses y := by
  have hturned := h.fair.turned (x := x) fun _ a _ _ => a.candid_never
  obtain ⟨hsame, hchanges⟩ := h.fair.go_changes x
  refine ⟨⟨(w.go_kept x).1.trans h.hasRing, hturned.fair, ?_, ?_⟩, fun y hy => hturned.houses hy⟩
  · by_cases hnone : w.change? x = none
    · exact hsame hnone ▸ h.proper
    · exact (h.proper.changes (hchanges hnone)).1
  · by_cases hnone : w.change? x = none
    · rw [hsame hnone, h.replicas]
    · rw [(h.proper.changes (hchanges hnone)).2.2.1, h.replicas]

end World.InOrder

namespace Rings

variable {s : Rings} {m : Move} {moves : List Move} {p : Place} {op : ClientOp} {r : Nat}
  {w : World} {replicas : Nat → Nat}

/-- Every ring is in order, and its number of replicas is known. -/
def InOrder (s : Rings) (replicas : Nat → Nat) : Prop :=
  ∀ r w, s.world? r = some w → w.InOrder (replicas r)

/-- **Moves** leave all rings in order. -/
theorem InOrder.go (h : s.InOrder replicas) (m : Move) : (s.go m).InOrder replicas := by
  rw [Rings.go]
  cases hw : s.world? m.ring with
  | none => exact h
  | some w =>
    obtain ⟨hgo, hhouses⟩ := ((h m.ring w hw).advanceTo m.time).go m.turn
    intro r v hv
    rcases world?_set hv with ⟨rfl, rfl⟩ | ⟨u, hu, rfl⟩
    · exact hgo
    · obtain ⟨u', hu', rfl⟩ := Option.map_eq_some_iff.1 hu
      obtain ⟨w', hw', rfl⟩ := Option.map_eq_some_iff.1 hw
      exact (h r _ hu).share hhouses

/-- What a move in which an activity goes on makes of the activities. -/
theorem activity?_go {i : Nat} {a : Activity} (hs : s.InOrder replicas)
    (hturn : m.turn = .activity i) (hw : s.world? m.ring = some w)
    (ha : w.activities[i]? = some a) (p : Place) :
    (s.go m).activity? p =
      if p = ⟨m.ring, i⟩ then some ((w.advanceTo m.time).stepActivity a).1
      else s.activity? p := by
  have hfair := ((hs m.ring w hw).advanceTo m.time).fair
  have hgo : s.go m = s.set m.ring ((w.advanceTo m.time).go (.activity i)) := by
    rw [go, hw, hturn]
  have hturned := hfair.turned (x := .activity i) fun _ b _ _ => b.candid_never
  have hhere := hfair.go_activity (i := i) ha a.candid_never
  obtain ⟨r, j⟩ := p
  rw [hgo, activity?_set hw]
  by_cases hr : r = m.ring
  · subst hr
    rw [if_pos rfl]
    by_cases hj : j = i
    · subst hj
      rw [if_pos rfl, hhere]
    · have hne : World.Turn.activity i ≠ .activity j := fun he =>
        hj (World.Turn.activity.inj he).symm
      rw [if_neg fun he => hj (congrArg Place.index he), hturned.activities j hne,
        activity?_of_world hw]
      rfl
  · rw [if_neg hr, if_neg fun he => hr (congrArg Place.ring he)]

/-- What a move in which an activity goes on makes of the metrics. -/
theorem metrics_go {i : Nat} {a : Activity} (hturn : m.turn = .activity i)
    (hw : s.world? m.ring = some w) (ha : w.activities[i]? = some a) :
    (s.go m).metrics = ((w.advanceTo m.time).stepActivity a).2.cluster.metrics := by
  have hactivity : (w.advanceTo m.time).activities[i]? = some a := ha
  rw [go, hw, hturn]
  show ((w.advanceTo m.time).go (.activity i)).cluster.metrics = _
  rw [World.go_activity_some hactivity]

/-- The metrics that a ring shares are those of all. -/
theorem metrics_of_world (hw : s.world? r = some w) : w.cluster.metrics = s.metrics := by
  obtain ⟨v, -, rfl⟩ := Option.map_eq_some_iff.1 hw
  rfl

/-- What is heard in a move in which an activity goes on. -/
theorem heard?_go {i : Nat} {a : Activity} (hturn : m.turn = .activity i)
    (hw : s.world? m.ring = some w) (ha : w.activities[i]? = some a) :
    s.heard? m = (a.reply? (w.advanceTo m.time).cluster).map fun ok => (⟨m.ring, i⟩, ok) := by
  rw [heard?, hturn]
  simp only [hw, ha, Option.bind_eq_bind, Option.bind_some]
  cases a.reply? (w.advanceTo m.time).cluster <;> rfl

/-! ### Client calls -/

theorem mem_calls : p ∈ s.calls op ↔ ∃ a, s.activity? p = some a ∧ a.client? = some op := by
  obtain ⟨r, i⟩ := p
  simp only [calls, activity?, List.mem_flatMap, List.mem_filterMap, Option.bind_eq_some_iff]
  constructor
  · rintro ⟨⟨w, r'⟩, hw, ⟨a, i'⟩, ha, hp⟩
    rw [List.mem_zipIdx_iff_getElem?] at hw ha
    split at hp
    · next hop =>
      obtain ⟨rfl, rfl⟩ := Place.mk.inj (Option.some.inj hp)
      exact ⟨a, ⟨w, by simpa using hw, by simpa using ha⟩, hop⟩
    · exact nomatch hp
  · rintro ⟨a, ⟨w, hw, ha⟩, hop⟩
    refine ⟨(w, r), ?_, (a, i), ?_, if_pos hop⟩
    · rw [List.mem_zipIdx_iff_getElem?]
      simpa using hw
    · rw [List.mem_zipIdx_iff_getElem?]
      simpa using ha

/-- Every call has its own place. -/
theorem nodup_calls (s : Rings) (op : ClientOp) : (s.calls op).Nodup := by
  have hindex : ∀ {α : Type} (l : List α), l.zipIdx.Pairwise fun a b => a.2 ≠ b.2 :=
    fun l => List.pairwise_map.1 (List.nodup_zipIdx_map_snd l)
  refine List.nodup_flatMap.2 ⟨fun e _ => ?_, (hindex _).imp fun {e e'} hne => ?_⟩
  · refine List.pairwise_filterMap.2 ((hindex _).imp fun {a a'} hne p hp p' hp' => ?_)
    split at hp
    · split at hp'
      · obtain rfl := Option.some.inj hp
        obtain rfl := Option.some.inj hp'
        exact fun he => hne (congrArg Place.index he)
      · exact nomatch hp'
    · exact nomatch hp
  · have hring : ∀ {e : World × Nat} {p : Place}, p ∈ (e.1.activities.toList.zipIdx.filterMap
        fun a => if a.1.client? = some op then some (⟨e.2, a.2⟩ : Place) else none) →
        p.ring = e.2 := by
      intro e p hp
      obtain ⟨a, -, ha⟩ := List.mem_filterMap.1 hp
      split at ha
      · exact congrArg Place.ring (Option.some.inj ha).symm
      · exact nomatch ha
    exact fun p hp hp' => hne ((hring hp).symm.trans (hring hp'))

/-- Calls of different kinds are different calls. -/
theorem kind_unique {op' : ClientOp} (h : p ∈ s.calls op) (h' : p ∈ s.calls op') : op = op' := by
  obtain ⟨a, ha, hop⟩ := mem_calls.1 h
  obtain ⟨a', ha', hop'⟩ := mem_calls.1 h'
  obtain rfl := Option.some.inj (ha.symm.trans ha')
  exact Option.some.inj (hop.symm.trans hop')

/-! ### Accounts -/

/-- What the call at a place has contributed after a schedule. -/
def contribution (s : Rings) (moves : List Move) (op : ClientOp) (p : Place) :
    CallMeasure → Nat :=
  ((s.follow moves).activity? p).elim (fun _ => 0)
    (Activity.contribution op (s.replicas p.ring) (s.acks moves p) (s.errors moves p))

/-- After a schedule the calls stand as their members have answered, nobody else is a call, and the
measures have grown by what all calls have contributed. -/
structure Accounted (s : Rings) (moves : List Move) : Prop where
  order : (s.follow moves).InOrder s.replicas
  calls : ∀ op, ∀ p ∈ s.calls op, ∃ a, (s.follow moves).activity? p = some a ∧
    a.Stands op (s.replicas p.ring) (s.acks moves p) (s.errors moves p)
  aside : ∀ p a, (s.follow moves).activity? p = some a → (∀ op, p ∉ s.calls op) →
    a.client? = none
  grown : ∀ op x, (s.follow moves).metrics.ofCalls op x =
    s.metrics.ofCalls op x + .ofNat ((s.calls op).map fun p => s.contribution moves op p x).sum

/-- What one call of a list contributes more, all of them do. -/
theorem sum_map_grow {α : Type} {l : List α} (hl : l.Nodup) {f g : α → Nat} {q : α} {n : Nat}
    (hothers : ∀ p ∈ l, p ≠ q → g p = f p) (hhere : q ∈ l → g q = f q + n)
    (hnone : q ∉ l → n = 0) : (l.map g).sum = (l.map f).sum + n := by
  induction l with
  | nil => simp [hnone List.not_mem_nil]
  | cons p l ih =>
    obtain ⟨hp, hl⟩ := List.nodup_cons.1 hl
    by_cases he : p = q
    · subst he
      have hrest : l.map g = l.map f := List.map_congr_left fun q hq =>
        hothers q (List.mem_cons_of_mem _ hq) fun he => hp (he ▸ hq)
      rw [List.map_cons, List.map_cons, List.sum_cons, List.sum_cons, hrest,
        hhere List.mem_cons_self]
      omega
    · have hsum := ih hl (fun q hq => hothers q (List.mem_cons_of_mem _ hq))
        (fun hmem => hhere (List.mem_cons_of_mem _ hmem))
        fun hnot => hnone fun hmem => (List.mem_cons.1 hmem).elim (fun h => he h.symm) hnot
      rw [List.map_cons, List.map_cons, List.sum_cons, List.sum_cons, hsum,
        hothers p List.mem_cons_self he]
      omega

/-- What one place hears, only that place hears. -/
theorem count_heard (q : Place) (o : Option Bool) (p : Place) (b : Bool) :
    (o.map fun ok => (q, ok)).toList.count (p, b) = if p = q ∧ o = some b then 1 else 0 := by
  cases o with
  | none => simp
  | some ok =>
    by_cases h : (q, ok) = (p, b)
    · obtain ⟨rfl, rfl⟩ := Prod.mk.inj h
      simp
    · have hne : ¬ (p = q ∧ some ok = some b) := by
        rintro ⟨rfl, hb⟩
        exact h (by rw [Option.some.inj hb])
      rw [if_neg hne, Option.map_some, Option.toList_some, List.count_singleton]
      simp [h]

theorem acks_concat (s : Rings) (moves : List Move) {q : Place} {o : Option Bool}
    (hheard : (s.follow moves).heard? m = o.map fun ok => (q, ok)) (p : Place) :
    s.acks (moves ++ [m]) p = s.acks moves p + if p = q ∧ o = some true then 1 else 0 := by
  rw [acks, heard_concat, List.count_append, hheard, count_heard, acks]

theorem errors_concat (s : Rings) (moves : List Move) {q : Place} {o : Option Bool}
    (hheard : (s.follow moves).heard? m = o.map fun ok => (q, ok)) (p : Place) :
    s.errors (moves ++ [m]) p = s.errors moves p + if p = q ∧ o = some false then 1 else 0 := by
  rw [errors, heard_concat, List.count_append, hheard, count_heard, errors]

namespace Accounted

/-- A move in which no call goes on leaves all accounts as they are. -/
theorem quiet (h : s.Accounted moves) (hheard : (s.follow moves).heard? m = none)
    (hcalls : ∀ op, ∀ p ∈ s.calls op,
      ((s.follow moves).go m).activity? p = (s.follow moves).activity? p)
    (haside : ∀ p a, ((s.follow moves).go m).activity? p = some a → (∀ op, p ∉ s.calls op) →
      a.client? = none)
    (hmetrics : ∀ op x, ((s.follow moves).go m).metrics.ofCalls op x =
      (s.follow moves).metrics.ofCalls op x) : s.Accounted (moves ++ [m]) := by
  have hacks : ∀ p, s.acks (moves ++ [m]) p = s.acks moves p := by
    intro p
    simpa using acks_concat s moves (q := p) (o := none) hheard p
  have herrors : ∀ p, s.errors (moves ++ [m]) p = s.errors moves p := by
    intro p
    simpa using errors_concat s moves (q := p) (o := none) hheard p
  refine ⟨?_, fun op p hp => ?_, ?_, fun op x => ?_⟩
  · rw [follow_concat]
    exact h.order.go m
  · rw [follow_concat, hcalls op p hp, hacks, herrors]
    exact h.calls op p hp
  · rw [follow_concat]
    exact haside
  · have hsame : ((s.calls op).map fun p => s.contribution (moves ++ [m]) op p x) =
        (s.calls op).map fun p => s.contribution moves op p x := by
      refine List.map_congr_left fun p hp => ?_
      rw [contribution, follow_concat, hcalls op p hp, hacks, herrors, contribution]
    rw [follow_concat, hmetrics, h.grown, hsame]

/-- A move in which a call goes on books what that call contributes. -/
theorem call (h : s.Accounted moves) {i : Nat} {a : Activity} (hturn : m.turn = .activity i)
    (hw : (s.follow moves).world? m.ring = some w) (ha : w.activities[i]? = some a)
    (hp : ⟨m.ring, i⟩ ∈ s.calls op) : s.Accounted (moves ++ [m]) := by
  let q : Place := ⟨m.ring, i⟩
  have horder := (h.order m.ring w hw).advanceTo m.time
  have hactivity := activity?_go h.order hturn hw ha
  have hheard := heard?_go hturn hw ha
  obtain ⟨b, hb, hstands⟩ := h.calls op q hp
  obtain rfl : a = b := Option.some.inj (ha.symm.trans ((activity?_of_world hw i).symm.trans hb))
  obtain ⟨hstands', hbooks⟩ :=
    World.stepActivity_call hstands horder.hasRing horder.proper horder.replicas
  have hacks := acks_concat s moves hheard
  have herrors := errors_concat s moves hheard
  -- Another place has heard nothing, and nothing has happened to its activity.
  have hothers : ∀ p, p ≠ q → s.acks (moves ++ [m]) p = s.acks moves p ∧
      s.errors (moves ++ [m]) p = s.errors moves p ∧
      (s.follow (moves ++ [m])).activity? p = (s.follow moves).activity? p := by
    intro p hne
    refine ⟨?_, ?_, ?_⟩
    · rw [hacks p, if_neg fun he => hne he.1, Nat.add_zero]
    · rw [herrors p, if_neg fun he => hne he.1, Nat.add_zero]
    · rw [follow_concat, hactivity p, if_neg hne]
  have hhere : (s.follow (moves ++ [m])).activity? q =
      some ((w.advanceTo m.time).stepActivity a).1 := by
    rw [follow_concat, hactivity q, if_pos rfl]
  have hhacks := hacks q
  have hherrors := herrors q
  simp only [q, true_and] at hhacks hherrors
  rw [← hhacks, ← hherrors] at hstands' hbooks
  refine ⟨?_, fun op' p hp' => ?_, fun p b hb' hnot => ?_, fun op' x => ?_⟩
  · rw [follow_concat]
    exact h.order.go m
  · by_cases hne : p = q
    · subst hne
      obtain rfl := kind_unique hp hp'
      exact ⟨_, hhere, hstands'⟩
    · obtain ⟨he₁, he₂, he₃⟩ := hothers p hne
      rw [he₁, he₂, he₃]
      exact h.calls op' p hp'
  · have hne : p ≠ q := fun he => hnot op (he ▸ hp)
    exact h.aside p b ((hothers p hne).2.2 ▸ hb') hnot
  · obtain ⟨n, hgrown, hsame, hother⟩ := hbooks op' x
    have hmetrics : (s.follow (moves ++ [m])).metrics.ofCalls op' x =
        (s.follow moves).metrics.ofCalls op' x + .ofNat n := by
      rw [follow_concat, metrics_go hturn hw ha, hgrown]
      exact congrArg (fun m : Metrics => m.ofCalls op' x + .ofNat n) (metrics_of_world hw)
    have hsum : ((s.calls op').map fun p => s.contribution (moves ++ [m]) op' p x).sum =
        ((s.calls op').map fun p => s.contribution moves op' p x).sum + n := by
      refine sum_map_grow (s.nodup_calls op') (q := q) (fun p _ hne => ?_) (fun hq => ?_)
        fun hnot => hother fun he => hnot (he ▸ hp)
      · obtain ⟨he₁, he₂, he₃⟩ := hothers p hne
        rw [contribution, he₁, he₂, he₃, contribution]
      · obtain rfl := kind_unique hp hq
        rw [contribution, hhere, contribution, hb]
        exact hsame rfl
    rw [hmetrics, h.grown, hsum, UInt64.ofNat_add, UInt64.add_assoc]

/-- **Moves.** Every move keeps the accounts. -/
theorem move (h : s.Accounted moves) (m : Move) : s.Accounted (moves ++ [m]) := by
  cases hw : (s.follow moves).world? m.ring with
  | none =>
    have hgo : (s.follow moves).go m = s.follow moves := by rw [go, hw]
    refine h.quiet ?_ (fun _ _ _ => by rw [hgo]) (by rw [hgo]; exact h.aside) fun _ _ => by rw [hgo]
    rw [heard?, hw]
    cases m.turn <;> rfl
  | some w =>
    have hgo : (s.follow moves).go m =
        (s.follow moves).set m.ring ((w.advanceTo m.time).go m.turn) := by rw [go, hw]
    have hshared := metrics_of_world hw
    have hcalm : (∀ i : Nat, ((w.advanceTo m.time).go m.turn).activities[i]? = w.activities[i]?) →
        w.cluster.metrics.Swept ((w.advanceTo m.time).go m.turn).cluster.metrics →
        (s.follow moves).heard? m = none → s.Accounted (moves ++ [m]) := by
      intro hactivities hswept hheard
      have hsame : ∀ p, ((s.follow moves).go m).activity? p = (s.follow moves).activity? p := by
        rintro ⟨r, i⟩
        rw [hgo, activity?_set hw]
        by_cases hr : r = m.ring
        · subst hr
          rw [if_pos rfl, hactivities, activity?_of_world hw]
        · rw [if_neg hr]
      refine h.quiet hheard (fun _ p _ => hsame p) (fun p a ha => h.aside p a (hsame p ▸ ha))
        fun op x => ?_
      rw [hgo, ← hshared]
      exact Metrics.ofCalls_swept hswept op x
    cases hturn : m.turn with
    | loop j =>
      have horder := (h.order m.ring w hw).advanceTo m.time
      have hturned := horder.fair.turned (x := .loop j) fun _ a _ _ => a.candid_never
      rw [hturn] at hcalm
      refine hcalm (fun i => hturned.activities i fun he => nomatch he)
        ((w.advanceTo m.time).go_loop_swept j) ?_
      rw [heard?, hturn]
    | activity i =>
      cases ha : w.activities[i]? with
      | none =>
        have hnone : (w.advanceTo m.time).activities[i]? = none := ha
        rw [hturn, World.go_activity_none hnone] at hcalm
        refine hcalm (fun _ => rfl) (.inl rfl) ?_
        rw [heard?, hturn]
        simp only [hw, ha, Option.bind_eq_bind, Option.bind_some, Option.bind_none]
      | some a =>
        by_cases hcall : ∃ op, ⟨m.ring, i⟩ ∈ s.calls op
        · obtain ⟨op, hp⟩ := hcall
          exact h.call hturn hw ha hp
        · have hnot := not_exists.1 hcall
          have hp : (s.follow moves).activity? ⟨m.ring, i⟩ = some a :=
            (activity?_of_world hw i).trans ha
          have hkind := h.aside _ a hp hnot
          obtain ⟨hnext, hswept⟩ := (w.advanceTo m.time).stepActivity_uncounted hkind
          have hactivity := activity?_go h.order hturn hw ha
          refine h.quiet ?_ (fun op p hmem => ?_) (fun p b hb hout => ?_) fun op x => ?_
          · rw [heard?_go hturn hw ha, Activity.reply?_of_client? hkind]
            rfl
          · have hne : p ≠ ⟨m.ring, i⟩ := fun he => hnot op (he ▸ hmem)
            rw [hactivity, if_neg hne]
          · rw [hactivity] at hb
            split at hb
            · exact Option.some.inj hb ▸ hnext
            · exact h.aside p b hb hout
          · rw [metrics_go hturn hw ha, ← hshared]
            exact Metrics.ofCalls_swept hswept op x

end Accounted

/-- Rings that are in order, on which nothing has started, and whose nodes exist. -/
def Ready (s : Rings) : Prop :=
  ∀ r w, s.world? r = some w →
    w.hasRing = true ∧ w.Fresh ∧ w.Linked ∧ w.cluster.ring.Proper

/-- Where nothing has started, every activity is still to start. -/
theorem Ready.later (hs : s.Ready) {a : Activity} (ha : s.activity? p = some a) :
    ∃ t o, a = .later t o := by
  rw [activity?] at ha
  obtain ⟨w, hw, ha⟩ := Option.bind_eq_some_iff.1 ha
  have hfresh := (hs p.ring _ (congrArg (Option.map _) hw)).2.1
  exact hfresh.activities a (Array.mem_of_getElem? ha)

/-- At the start no call has contributed anything. -/
theorem accounted_start (hs : s.Ready) : s.Accounted [] where
  order r w hw := by
    obtain ⟨hhas, hfresh, hlinked, hproper⟩ := hs r w hw
    refine ⟨hhas, hfresh.fair hlinked fun n _ => Faults.candid_never n.faults, hproper, ?_⟩
    obtain ⟨v, hv, rfl⟩ := Option.map_eq_some_iff.1 hw
    rw [replicas, show s.worlds[r]? = some v from hv]
    rfl
  calls op p hp := by
    obtain ⟨a, ha, hop⟩ := mem_calls.1 hp
    obtain ⟨t, o, rfl⟩ := hs.later ha
    exact ⟨_, ha, .waits hop ⟨rfl, rfl⟩⟩
  aside p a ha hnot := by
    rw [Option.eq_none_iff_forall_ne_some]
    exact fun op hop => hnot op (mem_calls.2 ⟨a, ha, hop⟩)
  grown op x := by
    have hzero : ((s.calls op).map fun p => s.contribution [] op p x) =
        (s.calls op).map fun _ => 0 := by
      refine List.map_congr_left fun p hp => ?_
      obtain ⟨a, ha, -⟩ := mem_calls.1 hp
      obtain ⟨t, o, rfl⟩ := hs.later ha
      rw [contribution, show (s.follow []).activity? p = some (.later t o) from ha]
      rfl
    have hnothing : ((s.calls op).map fun _ => 0).sum = 0 := by simp
    rw [hzero, hnothing]
    exact (UInt64.add_zero _).symm

/-- **Runs.** After every schedule the measures have grown by what all calls have contributed, those
under way included. -/
theorem accounted_follow (hs : s.Ready) (moves : List Move) : s.Accounted moves := by
  induction moves using List.reverseRecOn with
  | nil => exact accounted_start hs
  | append_singleton moves m ih => exact ih.move m

/-- **Client metrics.** Whatever the nodes answer, whenever they do and however the memberships
change: when all calls of a kind have ended, their counter and the samples of their latency have
grown by the number of the calls. The failed replicas have grown, for puts and deletes, by the
replicas that have not acknowledged their calls, and for gets by the members that have answered with
an error and by one for each call that has ended in a timeout. -/
theorem client_metrics (hs : s.Ready) (moves : List Move) (op : ClientOp)
    (hended : ∀ p ∈ s.calls op, (s.follow moves).isAnswered p = true) :
    let m := (s.follow moves).metrics
    m.read op.counter = s.metrics.read op.counter + .ofNat (s.calls op).length ∧
    m.samples op.name = s.metrics.samples op.name + .ofNat (s.calls op).length ∧
    m.failures op.name =
      s.metrics.failures op.name + .ofNat ((s.calls op).map (s.cost moves op)).sum ∧
    ∀ p ∈ s.calls op, op ≠ .get → s.acks moves p ≤ s.replicas p.ring := by
  have haccounted := accounted_follow hs moves
  have hover : ∀ p ∈ s.calls op, s.contribution moves op p = Cluster.finished (s.cost moves op p) ∧
      (op ≠ .get → s.acks moves p ≤ s.replicas p.ring) := by
    intro p hp
    obtain ⟨a, ha, hstands⟩ := haccounted.calls op p hp
    have hanswered := hended p hp
    rw [isAnswered, ha, Option.any_some] at hanswered
    cases hstands with
    | @ended t x within =>
      refine ⟨?_, within⟩
      rw [contribution, ha]
      cases op with
      | _ =>
        simp only [cost, ha]
        rfl
    | _ => exact absurd hanswered Bool.false_ne_true
  have hsum : ∀ x, ((s.calls op).map fun p => s.contribution moves op p x) =
      (s.calls op).map fun p => Cluster.finished (s.cost moves op p) x := fun x =>
    List.map_congr_left fun p hp => congrFun (hover p hp).1 x
  have hone : ((s.calls op).map fun _ => 1).sum = (s.calls op).length := by
    simp
  have hgrown := haccounted.grown op
  simp only [hsum] at hgrown
  refine ⟨?_, ?_, hgrown .failed, fun p hp => (hover p hp).2⟩
  · have hbegun := hgrown .begun
    simp only [Cluster.finished, hone] at hbegun
    exact hbegun
  · have hcounted := hgrown .ended
    simp only [Cluster.finished, hone] at hcounted
    exact hcounted

/-- Two rings that share a node and their metrics. On one the only replica of a key is switched off;
on the other it takes too long for the first call and not for the second, and a node joins
meanwhile. -/
def sharedPair : Rings where
  fleet := ⟨#[
    { id := ⟨10⟩, faults := .injected { down := true } }, { id := ⟨20⟩ },
    { id := ⟨30⟩, faults := .injected { latency := .ofMillis 50 } }]⟩
  worlds := #[
    { cluster :=
        { fleet := {}
          ring := ⟨fun _ => 5, { replicaCount := 1, writeQuorum := 1, opTimeout := .ofMillis 10 },
            ⟨⟨[(⟨10⟩, ⟨⟨10⟩, 0⟩), (⟨20⟩, ⟨⟨20⟩, 1⟩)]⟩, 0⟩⟩ }
      activities := #[.later 0 (.put "k" "v" none)]
      registry := ⟨[(⟨10⟩, ⟨⟨10⟩, 0⟩), (⟨20⟩, ⟨⟨20⟩, 1⟩)]⟩ },
    { cluster :=
        { fleet := {}
          ring := ⟨fun _ => 25, { replicaCount := 1, writeQuorum := 1, opTimeout := .ofMillis 10 },
            ⟨⟨[(⟨20⟩, ⟨⟨20⟩, 1⟩), (⟨30⟩, ⟨⟨30⟩, 2⟩)]⟩, 0⟩⟩ }
      activities := #[.later 0 (.get "k" none), .later 5 (.add { id := ⟨40⟩ }),
        .later 20 (.put "k" "u" (some (.ofMillis 100)))]
      registry := ⟨[(⟨20⟩, ⟨⟨20⟩, 1⟩), (⟨30⟩, ⟨⟨30⟩, 2⟩)]⟩ }]

/-- All calls of both rings, to their ends. -/
def sharedRun : List Move :=
  [⟨0, 0, .activity 0⟩, ⟨1, 0, .activity 0⟩, ⟨0, 0, .activity 0⟩, ⟨1, 5, .activity 1⟩,
    ⟨1, 10, .activity 0⟩, ⟨1, 20, .activity 2⟩, ⟨1, 70, .activity 2⟩]

theorem sharedPair_ready : sharedPair.Ready := by
  intro r w hw
  rcases r with _ | _ | r
  · have hsound : Membership.Sound ⟨⟨[(⟨10⟩, ⟨⟨10⟩, 0⟩), (⟨20⟩, ⟨⟨20⟩, 1⟩)]⟩, 0⟩ :=
      ⟨by unfold OrderedMap.Sorted; decide, by decide⟩
    obtain rfl := Option.some.inj hw
    refine ⟨rfl, ⟨by simp [sharedPair], rfl⟩, .of_registry hsound (by decide) rfl, hsound, ?_,
      by decide⟩
    unfold RingOptions.Valid
    decide
  · have hsound : Membership.Sound ⟨⟨[(⟨20⟩, ⟨⟨20⟩, 1⟩), (⟨30⟩, ⟨⟨30⟩, 2⟩)]⟩, 0⟩ :=
      ⟨by unfold OrderedMap.Sorted; decide, by decide⟩
    obtain rfl := Option.some.inj hw
    refine ⟨rfl, ⟨by simp [sharedPair], rfl⟩, .of_registry hsound (by decide) rfl, hsound, ?_,
      by decide⟩
    unfold RingOptions.Valid
    decide
  · cases hw

/-- The put to the node that is switched off and the get that times out count one failed replica
each, the put that is acknowledged counts none. -/
theorem client_metrics_sharedPair :
    sharedPair.Ready ∧
    (∀ op, ∀ p ∈ sharedPair.calls op, (sharedPair.follow sharedRun).isAnswered p = true) ∧
    let m := (sharedPair.follow sharedRun).metrics
    m.read .puts = 2 ∧ m.samples "put" = 2 ∧ m.failures "put" = 1 ∧
      m.read .gets = 1 ∧ m.samples "get" = 1 ∧ m.failures "get" = 1 := by
  have hended : ∀ op, ∀ p ∈ sharedPair.calls op,
      (sharedPair.follow sharedRun).isAnswered p = true := by
    intro op
    cases op <;> decide +kernel
  have hputCosts : ((sharedPair.calls .put).map (sharedPair.cost sharedRun .put)).sum = 1 := by
    decide +kernel
  have hgetCosts : ((sharedPair.calls .get).map (sharedPair.cost sharedRun .get)).sum = 1 := by
    decide +kernel
  obtain ⟨hputs, hputSamples, hputFailures, -⟩ :=
    client_metrics sharedPair_ready sharedRun .put (hended .put)
  obtain ⟨hgets, hgetSamples, hgetFailures, -⟩ :=
    client_metrics sharedPair_ready sharedRun .get (hended .get)
  rw [hputCosts] at hputFailures
  rw [hgetCosts] at hgetFailures
  exact ⟨sharedPair_ready, hended, hputs, hputSamples, hputFailures, hgets, hgetSamples,
    hgetFailures⟩

end Rings

end ReplicaRing.Scenario

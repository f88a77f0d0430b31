import Mathlib.Data.List.Count
import Mathlib.Data.List.Nodup
import Mathlib.Tactic.Common
import ReplicaRing.Membership
import ReplicaRing.Proofs.OrderedMap

/-!
# Theory of placements

A placement is the beginning of a walk around the circle, and its members can be told by counting:
a node is responsible for a position exactly when fewer than `n` nodes sit before it on the walk.

* `NodeId.steps` — how far an identity is behind a position, going clockwise;
* `Sorted.rotation_ascends` — a walk meets the entries in the order of their distance;
* `Membership.Sound` — the nodes ascend, and each is entered under its own identity;
* `Membership.before` — how many nodes a walk meets before a given one;
* `mem_placement_iff` — the members of a placement by counting;
* `placement_erase`, `handles_insert` — what the two changes of membership do to a walk.
-/

namespace ReplicaRing

/-- How many places lie between a position and an identity, going clockwise. An identity on the
position itself is the farthest of all. -/
def NodeId.steps (position : UInt64) (id : NodeId) : Nat := (id.position - position - 1).toNat

namespace NodeId

theorem steps_of_lt {p : UInt64} {id : NodeId} (h : p < id.position) :
    id.steps p = id.position.toNat - p.toNat - 1 := by
  have hid := id.position.toNat_lt
  rw [UInt64.lt_iff_toNat_lt] at h
  rw [steps, UInt64.toNat_sub, UInt64.toNat_sub, show (1 : UInt64).toNat = 1 from rfl]
  omega

theorem steps_of_not_lt {p : UInt64} {id : NodeId} (h : ¬ p < id.position) :
    id.steps p = id.position.toNat + 2 ^ 64 - p.toNat - 1 := by
  have hp := p.toNat_lt
  rw [UInt64.lt_iff_toNat_lt] at h
  rw [steps, UInt64.toNat_sub, UInt64.toNat_sub, show (1 : UInt64).toNat = 1 from rfl]
  omega

end NodeId

/-! ### Counting in ascending lists -/

/-- In a list that ascends under `f`, the first `n` elements are those with fewer than `n`
elements below them. -/
theorem mem_take_iff_countP {α : Type} {f : α → Nat} {l : List α}
    (h : l.Pairwise fun a b => f a < f b) {x : α} {n : Nat} :
    x ∈ l.take n ↔ x ∈ l ∧ l.countP (fun y => f y < f x) < n := by
  induction l generalizing n with
  | nil => simp
  | cons a l ih =>
    rw [List.pairwise_cons] at h
    cases n with
    | zero => simp
    | succ n =>
      rw [List.take_succ_cons, List.mem_cons, List.mem_cons, ih h.2, List.countP_cons]
      constructor
      · rintro (rfl | ⟨hx, hlt⟩)
        · have hzero : l.countP (fun y => f y < f x) = 0 := by
            rw [List.countP_eq_zero]
            intro y hy
            have := h.1 y hy
            simp only [decide_eq_true_eq]
            omega
          simp [hzero]
        · exact ⟨.inr hx, by split <;> omega⟩
      · rintro ⟨rfl | hx, hlt⟩
        · exact .inl rfl
        · have := h.1 x hx
          simp only [this, decide_true, if_true] at hlt
          exact .inr ⟨hx, by omega⟩

/-! ### The order of a walk -/

namespace OrderedMap

variable {α : Type} {members : OrderedMap NodeId α}

/-- A walk around the whole circle meets every entry once. -/
theorem rotation_perm (members : OrderedMap NodeId α) (position : UInt64) :
    (members.rotation position).Perm members.entries := by
  have h := List.filter_append_perm (fun e : NodeId × α => decide (position < e.1.position))
    members.entries
  simpa only [rotation, decide_not] using h

/-- A walk meets the entries in the order of their distance. -/
theorem Sorted.rotation_ascends (h : members.Sorted) (position : UInt64) :
    (members.rotation position).Pairwise fun a b =>
      a.1.steps position < b.1.steps position := by
  have hids : members.entries.Pairwise fun a b => a.1 < b.1 := List.pairwise_map.1 h
  rw [rotation, List.pairwise_append]
  refine ⟨?_, ?_, ?_⟩
  · refine (hids.filter _).imp_of_mem fun {a b} ha hb hab => ?_
    simp only [List.mem_filter, decide_eq_true_eq] at ha hb
    rw [NodeId.steps_of_lt ha.2, NodeId.steps_of_lt hb.2]
    have hpa := UInt64.lt_iff_toNat_lt.1 ha.2
    have := NodeId.lt_def.1 hab
    omega
  · refine (hids.filter _).imp_of_mem fun {a b} ha hb hab => ?_
    simp only [List.mem_filter, decide_eq_true_eq] at ha hb
    rw [NodeId.steps_of_not_lt ha.2, NodeId.steps_of_not_lt hb.2]
    have hp := position.toNat_lt
    have := NodeId.lt_def.1 hab
    omega
  · intro a ha b hb
    simp only [List.mem_filter, decide_eq_true_eq] at ha hb
    rw [NodeId.steps_of_lt ha.2, NodeId.steps_of_not_lt hb.2]
    have hpa := UInt64.lt_iff_toNat_lt.1 ha.2
    have hid := a.1.position.toNat_lt
    omega

end OrderedMap

/-! ### Placements without repetition -/

namespace Placement

theorem foldl_push {p : Placement} {hs : List Handle}
    (h : (p.members ++ hs).Pairwise fun a b => a.id ≠ b.id) :
    hs.foldl push p = ⟨p.members ++ hs⟩ := by
  induction hs generalizing p with
  | nil => simp
  | cons x hs ih =>
    have hfresh : p.contains x.id = false := by
      rw [contains, List.any_eq_false]
      intro y hy
      have := (List.pairwise_append.1 h).2.2 y hy x (List.mem_cons_self ..)
      simpa using this
    have hpush : p.push x = ⟨p.members ++ [x]⟩ := by simp [push, hfresh]
    rw [List.foldl_cons, hpush, ih (by simpa using h)]
    simp

/-- Nodes of different identities are all kept. -/
theorem ofList_members {hs : List Handle} (h : hs.Pairwise fun a b => a.id ≠ b.id) :
    (ofList hs).members = hs := by
  rw [ofList, foldl_push (by simpa using h)]
  simp

end Placement

/-! ### Memberships -/

namespace Membership

/-- The identities of the nodes ascend, and every node is entered under its own. -/
structure Sound (m : Membership) : Prop where
  sorted : m.nodes.Sorted
  named : ∀ e ∈ m.nodes.entries, e.2.id = e.1

variable {m : Membership}

theorem Sound.map_id (h : m.Sound) : m.handles.map Handle.id = m.ids := by
  rw [handles, ids, OrderedMap.values, OrderedMap.keys, List.map_map]
  exact List.map_congr_left h.named

theorem Sound.handles_ascend (h : m.Sound) : m.handles.Pairwise fun a b => a.id < b.id := by
  have hid : (m.handles.map Handle.id).Pairwise (· < ·) := h.map_id ▸ h.sorted
  exact List.pairwise_map.1 hid

theorem Sound.handles_ne (h : m.Sound) : m.handles.Pairwise fun a b => a.id ≠ b.id :=
  h.handles_ascend.imp fun {a b} hab he => by
    rw [he] at hab
    exact irrefl_of (· < ·) b.id hab

theorem Sound.handles_nodup (h : m.Sound) : m.handles.Nodup :=
  h.handles_ne.imp fun hab he => hab (congrArg Handle.id he)

/-- What the first node that has something to give gives is given by the lowest of these nodes. -/
theorem Sound.lowest_of_findSome? (h : m.Sound) {α : Type} {f : Handle → Option α} {v : α}
    (hv : m.handles.findSome? f = some v) :
    ∃ a ∈ m.handles, f a = some v ∧ ∀ b ∈ m.handles, f b ≠ none → a.id ≤ b.id := by
  obtain ⟨l, a, l', hl, ha, hbefore⟩ := List.findSome?_eq_some_iff.1 hv
  refine ⟨a, by simp [hl], ha, fun b hb hgives => ?_⟩
  have hasc := h.handles_ascend
  rw [hl, List.pairwise_append, List.pairwise_cons] at hasc
  rw [hl, List.mem_append, List.mem_cons] at hb
  rcases hb with hb | rfl | hb
  · exact absurd (hbefore b hb) hgives
  · exact NodeId.le_def.2 (Nat.le_refl _)
  · exact NodeId.le_def.2 (Nat.le_of_lt (NodeId.lt_def.1 (hasc.2.1.1 b hb)))

/-- Two nodes of one identity are the same node. -/
theorem Sound.eq_of_id (h : m.Sound) {a b : Handle} (ha : a ∈ m.handles) (hb : b ∈ m.handles)
    (hab : a.id = b.id) : a = b := by
  have hnodup : (m.handles.map Handle.id).Nodup := h.map_id ▸ h.sorted.keys_nodup
  exact List.inj_on_of_nodup_map hnodup ha hb hab

theorem mem_of_find? (h : m.Sound) {id : NodeId} {x : Handle} (hx : m.find? id = some x) :
    x ∈ m.handles ∧ x.id = id := by
  have hmem := OrderedMap.mem_of_find? hx
  exact ⟨List.mem_map.2 ⟨_, hmem, rfl⟩, h.named _ hmem⟩

/-- A node on the ring is found under its identity. -/
theorem Sound.find?_of_mem (h : m.Sound) {x : Handle} (hx : x ∈ m.handles) :
    m.find? x.id = some x := by
  obtain ⟨e, he, rfl⟩ := List.mem_map.1 hx
  rw [h.named e he]
  exact (OrderedMap.mem_entries_iff h.sorted).1 he

theorem contains_iff (h : m.Sound) {id : NodeId} :
    m.contains id = true ↔ ∃ x ∈ m.handles, x.id = id := by
  rw [contains, OrderedMap.contains_iff, ← ids, ← h.map_id, List.mem_map]

theorem size_eq : m.size = m.handles.length := by
  simp [size, handles, OrderedMap.size, OrderedMap.values]

/-! ### Walks -/

/-- All nodes in the order of a walk that starts behind a position. -/
def walk (m : Membership) (position : UInt64) : List Handle :=
  (m.nodes.rotation position).map Prod.snd

/-- How many nodes a walk meets before a given one. -/
def before (m : Membership) (position : UInt64) (h : Handle) : Nat :=
  m.handles.countP fun x => x.id.steps position < h.id.steps position

theorem walk_perm (position : UInt64) : (m.walk position).Perm m.handles :=
  (OrderedMap.rotation_perm m.nodes position).map Prod.snd

/-- A walk meets the nodes in the order of their distance. -/
theorem Sound.walk_ascends (h : m.Sound) (position : UInt64) :
    (m.walk position).Pairwise fun a b => a.id.steps position < b.id.steps position := by
  have hmem : ∀ e ∈ m.nodes.rotation position, e.2.id = e.1 := fun e he =>
    h.named e ((OrderedMap.rotation_perm m.nodes position).mem_iff.1 he)
  rw [walk, List.pairwise_map]
  refine (h.sorted.rotation_ascends position).imp_of_mem fun {a b} ha hb hab => ?_
  rwa [hmem a ha, hmem b hb]

/-! ### The members of a placement -/

theorem Sound.placement_members (h : m.Sound) (position : UInt64) (n : Nat) :
    (m.placement position n).members = (m.walk position).take n := by
  have hne : (m.walk position).Pairwise fun a b => a.id ≠ b.id :=
    (h.walk_ascends position).imp fun hab he => by rw [he] at hab; exact Nat.lt_irrefl _ hab
  have hmap : (m.nodes.clockwise position n).map Prod.snd = (m.walk position).take n :=
    List.map_take
  rw [placement, hmap]
  exact Placement.ofList_members (hne.sublist (List.take_sublist n _))

/-- **The members of a placement.** A node is responsible for a position exactly when a walk meets
fewer than `n` nodes before it. -/
theorem mem_placement_iff (h : m.Sound) {position : UInt64} {n : Nat} {x : Handle} :
    x ∈ (m.placement position n).members ↔ x ∈ m.handles ∧ m.before position x < n := by
  rw [h.placement_members, mem_take_iff_countP (h.walk_ascends position),
    (walk_perm position).mem_iff, (walk_perm position).countP_eq]
  rfl

theorem Sound.placement_subset (h : m.Sound) {position : UInt64} {n : Nat} {x : Handle}
    (hx : x ∈ (m.placement position n).members) : x ∈ m.handles :=
  ((mem_placement_iff h).1 hx).1

theorem Sound.placement_ne (h : m.Sound) (position : UInt64) (n : Nat) :
    (m.placement position n).members.Pairwise fun a b => a.id ≠ b.id := by
  rw [h.placement_members]
  refine List.Pairwise.sublist (List.take_sublist n _) ?_
  exact (h.walk_ascends position).imp fun hab he => by
    rw [he] at hab
    exact Nat.lt_irrefl _ hab

theorem Sound.placement_nodup (h : m.Sound) (position : UInt64) (n : Nat) :
    (m.placement position n).members.Nodup :=
  (h.placement_ne position n).imp fun hab he => hab (congrArg Handle.id he)

/-- A ring with enough nodes has `n` of them for every position. -/
theorem Sound.placement_length (h : m.Sound) (position : UInt64) {n : Nat} (hn : n ≤ m.size) :
    (m.placement position n).members.length = n := by
  rw [h.placement_members, List.length_take, (walk_perm position).length_eq, ← size_eq]
  omega

/-! ### Changes -/

theorem handles_erase (h : m.Sound) (id : NodeId) (version : Nat) :
    (Membership.mk (m.nodes.erase id) version).handles = m.handles.filter (·.id ≠ id) := by
  simp only [handles, OrderedMap.values, OrderedMap.erase, List.filter_map]
  congr 1
  refine List.filter_congr fun e he => ?_
  simp [h.named e he]

theorem Sound.erase (h : m.Sound) (id : NodeId) (version : Nat) :
    (Membership.mk (m.nodes.erase id) version).Sound where
  sorted := h.sorted.erase id
  named e he := h.named e (List.mem_of_mem_filter he)

theorem before_erase_le (h : m.Sound) (id : NodeId) (version : Nat) (position : UInt64)
    (x : Handle) :
    (Membership.mk (m.nodes.erase id) version).before position x ≤ m.before position x := by
  rw [before, before, handles_erase h]
  exact List.Sublist.countP_le List.filter_sublist

/-- A member of a placement stays one when another node leaves. -/
theorem placement_erase (h : m.Sound) {id : NodeId} (version : Nat) {position : UInt64} {n : Nat}
    {x : Handle} (hx : x ∈ (m.placement position n).members) (hid : x.id ≠ id) :
    x ∈ ((Membership.mk (m.nodes.erase id) version).placement position n).members := by
  rw [mem_placement_iff h] at hx
  rw [mem_placement_iff (h.erase id version), handles_erase h]
  refine ⟨List.mem_filter.2 ⟨hx.1, by simpa using hid⟩, ?_⟩
  exact Nat.lt_of_le_of_lt (before_erase_le h id version position x) hx.2

theorem handles_insert {x : Handle} (hx : m.find? x.id = none) (version : Nat) :
    (Membership.mk (m.nodes.insert x.id x) version).handles.Perm (x :: m.handles) :=
  (OrderedMap.entries_insert_perm hx x).map Prod.snd

theorem Sound.insert (h : m.Sound) {x : Handle} (hx : m.find? x.id = none) (version : Nat) :
    (Membership.mk (m.nodes.insert x.id x) version).Sound where
  sorted := h.sorted.insert x.id x
  named e he := by
    rcases List.mem_cons.1 ((OrderedMap.entries_insert_perm hx x).mem_iff.1 he) with rfl | he
    · rfl
    · exact h.named e he

end Membership

end ReplicaRing

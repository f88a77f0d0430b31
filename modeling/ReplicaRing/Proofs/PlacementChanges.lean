import Mathlib.Data.List.Sort
import ReplicaRing.Proofs.ClockwiseOrder

/-!
# Placements under changes of membership

Two walks from one position over different memberships have much in common: a node enters or leaves
a placement only where nodes have joined or left before it.

* `filter_take_comm`, `le_common_add_max` — the beginnings of two ascending lists;
* `OrderedMap.nearest` — the identities that a walk yields;
* `Sorted.rotation_eq_filter` — the walk over some of the nodes is the walk over all of them, with
  the others passed over;
* `clockwise_changes` — what two walks have in common, for any two memberships.
-/

namespace ReplicaRing

/-! ### Beginnings of ascending lists -/

section Beginnings

variable {α : Type} [DecidableEq α] {r : α → α → Prop} [Std.Asymm r] {l l' : List α} {n : Nat}

/-- What the beginnings of two ascending lists have in common comes in the same order in both. -/
theorem filter_take_comm (h : l.Pairwise r) (h' : l'.Pairwise r) :
    (l.take n).filter (· ∈ l'.take n) = (l'.take n).filter (· ∈ l.take n) := by
  have hleft : ((l.take n).filter (· ∈ l'.take n)).Pairwise r :=
    (h.sublist (List.take_sublist n l)).filter _
  have hright : ((l'.take n).filter (· ∈ l.take n)).Pairwise r :=
    (h'.sublist (List.take_sublist n l')).filter _
  refine hleft.eq_of_mem_iff hright fun x => ?_
  simp only [List.mem_filter, decide_eq_true_eq]
  exact and_comm

omit [DecidableEq α] [Std.Asymm r] in
/-- What is in the beginning of an ascending list comes before what is not. -/
theorem lt_of_take (h : l.Pairwise r) {x y : α} (hx : x ∈ l.take n) (hy : y ∈ l)
    (hy' : y ∉ l.take n) : r x y := by
  rw [← List.take_append_drop n l, List.pairwise_append] at h
  rw [← List.take_append_drop n l] at hy
  exact h.2.2 x hx y ((List.mem_append.1 hy).resolve_left hy')

omit [DecidableEq α] in
/-- Of two ascending lists, one begins with all that its beginning could share with the other. Else
an element of each beginning would be kept out of the other one by the one that takes its place. -/
theorem take_subset_or (h : l.Pairwise r) (h' : l'.Pairwise r) :
    (∀ x ∈ l.take n, x ∈ l' → x ∈ l'.take n) ∨ (∀ y ∈ l'.take n, y ∈ l → y ∈ l.take n) := by
  by_contra hboth
  push Not at hboth
  obtain ⟨⟨x, hx, hx', hxout⟩, y, hy', hy, hyout⟩ := hboth
  have hxy : r x y := lt_of_take h hx hy hyout
  have hyx : r y x := lt_of_take h' hy' hx' hxout
  exact Std.Asymm.asymm x y hxy hyx

omit [Std.Asymm r] in
/-- If a beginning shares all that it could, it lacks only what the other list lacks. -/
theorem length_take_le (hn : n ≤ l.length)
    (hsub : ∀ x ∈ l.take n, x ∈ l' → x ∈ l'.take n) :
    n ≤ ((l.take n).filter (· ∈ l'.take n)).length + (l.filter (· ∉ l')).length := by
  have hsplit := List.length_eq_countP_add_countP (· ∈ l'.take n) (l := l.take n)
  rw [List.length_take, Nat.min_eq_left hn] at hsplit
  have hmissing : (l.take n).countP (fun x => decide ¬ decide (x ∈ l'.take n) = true) ≤
      (l.take n).countP (· ∉ l') := by
    refine List.countP_mono_left fun x hx hout => ?_
    simp only [decide_eq_true_eq] at hout ⊢
    exact fun hx' => hout (hsub x hx hx')
  have hall : (l.take n).countP (· ∉ l') ≤ l.countP (· ∉ l') :=
    (List.take_sublist n l).countP_le
  rw [← List.countP_eq_length_filter, ← List.countP_eq_length_filter]
  omega

/-- Two beginnings have all in common but as many elements as one of the lists lacks. -/
theorem le_common_add_max (h : l.Pairwise r) (h' : l'.Pairwise r) (hn : n ≤ l.length)
    (hn' : n ≤ l'.length) :
    n ≤ ((l.take n).filter (· ∈ l'.take n)).length +
      max (l.filter (· ∉ l')).length (l'.filter (· ∉ l)).length := by
  rcases take_subset_or (n := n) h h' with hsub | hsub
  · have hle := length_take_le hn hsub
    omega
  · have hle := length_take_le hn' hsub
    rw [← filter_take_comm h h'] at hle
    omega

omit [DecidableEq α] in
/-- What is kept of the beginning of a list is the beginning of what is kept of the list. -/
theorem isPrefix_filter_take (p : α → Bool) (l : List α) (n : Nat) :
    (l.take n).filter p <+: (l.filter p).take n := by
  rw [List.prefix_take_iff]
  refine ⟨(List.take_prefix n l).filter p, ?_⟩
  have hfilter := List.length_filter_le p (l.take n)
  have htake := List.length_take_le n l
  omega

omit [DecidableEq α] in
/-- If at most one element is left out, one more than the beginning is enough to find what is kept
of it. -/
theorem take_filter_eq (p : α → Bool) {l : List α} (n : Nat) (hone : l.countP (! p ·) ≤ 1) :
    (l.filter p).take n = ((l.take (n + 1)).filter p).take n := by
  by_cases hlong : l.length ≤ n + 1
  · rw [List.take_of_length_le hlong]
  · have hsplit := List.length_eq_countP_add_countP p (l := l.take (n + 1))
    have hout : (l.take (n + 1)).countP (fun x => decide ¬ p x = true) ≤ l.countP (! p ·) := by
      refine Nat.le_trans (List.Sublist.countP_le (List.take_sublist _ l)) (Nat.le_of_eq ?_)
      exact List.countP_congr fun x _ => by simp
    rw [List.length_take, Nat.min_eq_left (by omega), List.countP_eq_length_filter] at hsplit
    obtain ⟨rest, hrest⟩ := (List.take_prefix (n + 1) l).filter p
    rw [← hrest, List.take_append_of_le_length (by omega)]

end Beginnings

/-! ### Two walks -/

namespace OrderedMap

variable {α : Type} {m m' : OrderedMap NodeId α} {position : UInt64} {n : Nat}

/-- The identities that a walk yields. -/
def nearest (m : OrderedMap NodeId α) (position : UInt64) (n : Nat) : List NodeId :=
  (m.clockwise position n).map Prod.fst

/-- The order in which a walk meets identities. -/
abbrev Sooner (position : UInt64) (a b : NodeId) : Prop := a.steps position < b.steps position

instance (position : UInt64) : Std.Asymm (Sooner position) :=
  ⟨fun _ _ hab hba => Nat.lt_asymm hab hba⟩

/-- The order in which a walk meets entries. -/
abbrev MetSooner (position : UInt64) (a b : NodeId × α) : Prop := Sooner position a.1 b.1

instance (position : UInt64) : Std.Asymm (MetSooner (α := α) position) :=
  ⟨fun _ _ hab hba => Nat.lt_asymm hab hba⟩

theorem nearest_eq (m : OrderedMap NodeId α) (position : UInt64) (n : Nat) :
    m.nearest position n = ((m.rotation position).map Prod.fst).take n := by
  rw [nearest, clockwise, List.map_take]

theorem ids_perm (m : OrderedMap NodeId α) (position : UInt64) :
    ((m.rotation position).map Prod.fst).Perm m.keys := (rotation_perm m position).map Prod.fst

theorem Sorted.ids_ascend (h : m.Sorted) (position : UInt64) :
    ((m.rotation position).map Prod.fst).Pairwise (Sooner position) :=
  List.pairwise_map.2 (h.rotation_ascends position)

/-- How many identities the other map lacks can be told from the walks. -/
theorem length_missing (m m' : OrderedMap NodeId α) (position : UInt64) :
    (((m.rotation position).map Prod.fst).filter
        (· ∉ (m'.rotation position).map Prod.fst)).length =
      (m.keys.filter (· ∉ m'.keys)).length := by
  simp only [(ids_perm m' position).mem_iff]
  exact ((ids_perm m position).filter _).length_eq

/-- **Some of the nodes.** A walk over them is the walk over all, with the others passed over. -/
theorem Sorted.rotation_eq_filter (h : m.Sorted) (h' : m'.Sorted)
    (hsub : ∀ k a, m'.find? k = some a → m.find? k = some a) (position : UInt64) :
    m'.rotation position = (m.rotation position).filter fun e => m'.contains e.1 := by
  have hleft : (m'.rotation position).Pairwise (MetSooner position) :=
    h'.rotation_ascends position
  have hright : ((m.rotation position).filter fun e => m'.contains e.1).Pairwise
      (MetSooner position) := (h.rotation_ascends position).filter _
  refine hleft.eq_of_mem_iff hright fun e => ?_
  obtain ⟨k, a⟩ := e
  rw [List.mem_filter, (rotation_perm m' position).mem_iff, (rotation_perm m position).mem_iff,
    mem_entries_iff h, mem_entries_iff h', contains, Option.isSome_iff_exists]
  constructor
  · intro hk
    exact ⟨hsub k a hk, a, hk⟩
  · rintro ⟨hk, b, hb⟩
    obtain rfl : b = a := Option.some.inj ((hsub k b hb).symm.trans hk)
    exact hb

/-- Removing an entry takes it out of the walk. -/
theorem rotation_erase (m : OrderedMap NodeId α) (x : NodeId) (position : UInt64) :
    (m.erase x).rotation position = (m.rotation position).filter fun e => e.1 ≠ x := by
  simp only [rotation, erase, List.filter_append, List.filter_filter, Bool.and_comm]

/-- The walk after one entry has been removed. -/
theorem Sorted.clockwise_erase (h : m.Sorted) (x : NodeId) (position : UInt64) (n : Nat) :
    (m.erase x).clockwise position n =
      ((m.clockwise position (n + 1)).filter fun e => e.1 ≠ x).take n := by
  rw [clockwise, rotation_erase, clockwise]
  refine take_filter_eq _ n ?_
  have hnodup : ((m.rotation position).map Prod.fst).Nodup :=
    (ids_perm m position).nodup_iff.2 h.keys_nodup
  have hcount := List.nodup_iff_count_le_one.1 hnodup x
  rw [List.count_eq_countP, List.countP_map] at hcount
  refine Nat.le_trans (Nat.le_of_eq (List.countP_congr fun e _ => ?_)) hcount
  simp

/-- **Placements change little.** Take two maps of nodes and the `n` nodes that a walk yields on
each of them. The identities that both walks yield come in the same order in both, and they are all
but as many as one of the maps lacks of the other. If nodes have only been removed, those of the
first walk that are left begin the second one. If nodes have only been added, the second walk yields
none but them and those of the first one. If a single node has been removed, the second walk is the
first one with one node more and without that node. -/
theorem clockwise_changes (h : m.Sorted) (h' : m'.Sorted) (position : UInt64) (hn : n ≤ m.size)
    (hn' : n ≤ m'.size) :
    (m.nearest position n).filter (· ∈ m'.nearest position n) =
      (m'.nearest position n).filter (· ∈ m.nearest position n) ∧
    n - max (m.keys.filter (· ∉ m'.keys)).length (m'.keys.filter (· ∉ m.keys)).length ≤
      ((m.nearest position n).filter (· ∈ m'.nearest position n)).length ∧
    ((∀ k a, m'.find? k = some a → m.find? k = some a) →
      (m.clockwise position n).filter (fun e => m'.contains e.1) <+: m'.clockwise position n) ∧
    ((∀ k a, m.find? k = some a → m'.find? k = some a) →
      ∀ e ∈ m'.clockwise position n, e ∈ m.clockwise position n ∨ m.contains e.1 = false) ∧
    ∀ x, m' = m.erase x → m'.clockwise position n =
      ((m.clockwise position (n + 1)).filter fun e => e.1 ≠ x).take n := by
  have hasc := h.ids_ascend position
  have hasc' := h'.ids_ascend position
  have hlength : ∀ q : OrderedMap NodeId α,
      ((q.rotation position).map Prod.fst).length = q.size := fun q => by
    rw [List.length_map, (rotation_perm q position).length_eq, size]
  refine ⟨?_, ?_, fun hsub => ?_, fun hsub e he => ?_, ?_⟩
  · rw [nearest_eq, nearest_eq]
    exact filter_take_comm hasc hasc'
  · have hle := le_common_add_max hasc hasc' (n := n) (by rwa [hlength]) (by rwa [hlength])
    rw [length_missing, length_missing, ← nearest_eq, ← nearest_eq] at hle
    omega
  · rw [clockwise, clockwise, h.rotation_eq_filter h' hsub position]
    exact isPrefix_filter_take _ _ n
  · cases hknown : m.contains e.1 with
    | false => exact .inr rfl
    | true =>
      refine .inl ?_
      rw [clockwise, h'.rotation_eq_filter h hsub position]
      refine (isPrefix_filter_take _ _ n).subset (List.mem_filter.2 ⟨he, hknown⟩)
  · rintro x rfl
    exact h.clockwise_erase x position n

/-- Four nodes in the quarters of a circle. -/
def quarters : OrderedMap NodeId Unit := ⟨[(⟨10⟩, ()), (⟨20⟩, ()), (⟨30⟩, ()), (⟨40⟩, ())]⟩

/-- The first of them is gone, and another one has come between the second and the third. -/
def shifted : OrderedMap NodeId Unit := (quarters.erase ⟨10⟩).insert ⟨25⟩ ()

theorem quarters_sorted : quarters.Sorted := by
  unfold Sorted
  decide

theorem shifted_sorted : shifted.Sorted := (quarters_sorted.erase ⟨10⟩).insert ⟨25⟩ ()

/-- One node has left and one has joined, so walks that yield three nodes have two in common. The
walk after the departure alone is the one before it with one node more and without the first one. -/
theorem clockwise_changes_quarters :
    quarters.Sorted ∧ shifted.Sorted ∧ 3 ≤ quarters.size ∧ 3 ≤ shifted.size ∧
    2 ≤ ((quarters.nearest 35 3).filter (· ∈ shifted.nearest 35 3)).length ∧
    (quarters.erase ⟨10⟩).clockwise 35 3 =
      ((quarters.clockwise 35 4).filter fun e => e.1 ≠ ⟨10⟩).take 3 := by
  obtain ⟨-, hcommon, -⟩ := clockwise_changes quarters_sorted shifted_sorted 35 (n := 3)
    (by decide) (by decide)
  obtain ⟨-, -, -, -, herased⟩ := clockwise_changes quarters_sorted
    (quarters_sorted.erase ⟨10⟩) 35 (n := 3) (by decide) (by decide)
  exact ⟨quarters_sorted, shifted_sorted, by decide, by decide, hcommon, herased _ rfl⟩

end OrderedMap

end ReplicaRing

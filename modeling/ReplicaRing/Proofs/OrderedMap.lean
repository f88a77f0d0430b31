import Mathlib.Data.List.Sort
import Mathlib.Data.String.Basic
import Mathlib.Order.Defs.Unbundled
import Mathlib.Tactic.Common
import ReplicaRing.NodeId
import ReplicaRing.OrderedMap

/-!
# Theory of ordered maps

What the entries of an ordered map look like from outside.

* `mem_keys_iff`, `mem_entries_iff` — keys and entries through look-ups;
* `Sorted.eq_of_find?` — ascending maps with the same look-ups are equal;
* `Sorted.insert`, `Sorted.erase` — both changes keep the keys ascending;
* `entries_insert_perm` — a new key adds one entry and moves no other.
-/

namespace ReplicaRing

/-- Identities with the same position are the same. -/
theorem NodeId.ext_position {a b : NodeId} (h : a.position.toNat = b.position.toNat) : a = b := by
  cases a
  cases b
  exact congrArg NodeId.mk (UInt64.toNat_inj.1 h)

/-- The positions of node identities are ordered like numbers. -/
instance : IsStrictTotalOrder NodeId (· < ·) where
  irrefl a := by simp [NodeId.lt_def]
  trans a b c := by simp only [NodeId.lt_def]; omega
  trichotomous a b hab hba := by
    rw [NodeId.lt_def] at hab hba
    exact NodeId.ext_position (by omega)

namespace OrderedMap

variable {κ α : Type} [DecidableEq κ]

/-! ### Look-ups and entries -/

theorem findIn?_eq_none_iff {k : κ} {es : List (κ × α)} :
    findIn? k es = none ↔ k ∉ es.map Prod.fst := by
  induction es with
  | nil => simp [findIn?]
  | cons e es ih =>
    by_cases h : e.1 = k
    · simp [findIn?, h]
    · have h' : k ≠ e.1 := fun hk => h hk.symm
      simp [findIn?, h, h', ih]

theorem mem_of_findIn? {k : κ} {a : α} {es : List (κ × α)} (h : findIn? k es = some a) :
    (k, a) ∈ es := by
  induction es with
  | nil => simp [findIn?] at h
  | cons e es ih =>
    by_cases hk : e.1 = k
    · rw [findIn?, if_pos hk] at h
      obtain rfl := Option.some.inj h
      exact List.mem_cons.2 (.inl (by rw [← hk]))
    · rw [findIn?, if_neg hk] at h
      exact List.mem_cons_of_mem _ (ih h)

/-- A key is listed exactly when it can be looked up. -/
theorem mem_keys_iff {m : OrderedMap κ α} {k : κ} : k ∈ m.keys ↔ m.find? k ≠ none := by
  rw [find?, Ne, findIn?_eq_none_iff, not_not, keys]

/-- A map in which nothing is found is empty. -/
theorem eq_empty {m : OrderedMap κ α} (h : ∀ k, m.find? k = none) : m = .empty := by
  have hkeys : m.keys = [] := List.eq_nil_iff_forall_not_mem.2 fun k hk => mem_keys_iff.1 hk (h k)
  exact congrArg OrderedMap.mk (List.map_eq_nil_iff.1 hkeys)

theorem mem_of_find? {m : OrderedMap κ α} {k : κ} {a : α} (h : m.find? k = some a) :
    (k, a) ∈ m.entries := mem_of_findIn? h

theorem contains_iff {m : OrderedMap κ α} {k : κ} : m.contains k = true ↔ k ∈ m.keys := by
  rw [mem_keys_iff, contains, Option.isSome_iff_ne_none]

theorem findIn?_of_mem {k : κ} {a : α} {es : List (κ × α)} (hes : (es.map Prod.fst).Nodup)
    (h : (k, a) ∈ es) : findIn? k es = some a := by
  induction es with
  | nil => simp at h
  | cons e es ih =>
    rw [List.map_cons, List.nodup_cons] at hes
    rcases List.mem_cons.1 h with rfl | h
    · simp [findIn?]
    · have hne : e.1 ≠ k := fun he => hes.1 (he ▸ List.mem_map_of_mem h)
      rw [findIn?, if_neg hne]
      exact ih hes.2 h

/-! ### Insertion -/

section Insertion

variable [LT κ] [DecidableLT κ]

theorem mem_keys_insertIn {k k' : κ} {a : α} {es : List (κ × α)}
    (h : k' ∈ (insertIn k a es).map Prod.fst) : k' = k ∨ k' ∈ es.map Prod.fst := by
  induction es with
  | nil => simpa [insertIn] using h
  | cons e es ih =>
    simp only [insertIn] at h
    split_ifs at h with he hlt
    · simp only [List.map_cons, List.mem_cons] at h ⊢
      tauto
    · simpa using h
    · simp only [List.map_cons, List.mem_cons] at h ⊢
      rcases h with h | h
      · exact .inr (.inl h)
      · rcases ih h with h | h
        · exact .inl h
        · exact .inr (.inr h)

theorem insertIn_perm {k : κ} {a : α} {es : List (κ × α)} (h : k ∉ es.map Prod.fst) :
    (insertIn k a es).Perm ((k, a) :: es) := by
  induction es with
  | nil => exact .refl _
  | cons e es ih =>
    rw [List.map_cons, List.mem_cons, not_or] at h
    simp only [insertIn]
    split_ifs with he hlt
    · exact absurd he.symm h.1
    · exact .refl _
    · exact ((ih h.2).cons e).trans (.swap _ _ _)

/-- A new key adds one entry to the others. -/
theorem entries_insert_perm {m : OrderedMap κ α} {k : κ} (h : m.find? k = none) (a : α) :
    (m.insert k a).entries.Perm ((k, a) :: m.entries) :=
  insertIn_perm (findIn?_eq_none_iff.1 h)

end Insertion

/-! ### Ascending keys -/

theorem Sorted.erase [LT κ] {m : OrderedMap κ α} (h : m.Sorted) (k : κ) : (m.erase k).Sorted := by
  have hsub : (m.erase k).keys.Sublist m.keys := List.filter_sublist.map Prod.fst
  exact h.sublist hsub

section Ascending

variable [LT κ] [IsStrictTotalOrder κ (· < ·)]

omit [DecidableEq κ] in
theorem Sorted.keys_nodup {m : OrderedMap κ α} (h : m.Sorted) : m.keys.Nodup := by
  refine h.imp fun {a b} hab hne => ?_
  subst hne
  exact irrefl_of (· < ·) a hab

/-- The entries of an ascending map are its look-ups. -/
theorem mem_entries_iff {m : OrderedMap κ α} (h : m.Sorted) {k : κ} {a : α} :
    (k, a) ∈ m.entries ↔ m.find? k = some a :=
  ⟨findIn?_of_mem h.keys_nodup, mem_of_find?⟩

/-- An ascending map is known by its look-ups. -/
theorem Sorted.eq_of_find? {m m' : OrderedMap κ α} (h : m.Sorted) (h' : m'.Sorted)
    (hfind : ∀ k, m.find? k = m'.find? k) : m = m' := by
  have hasc : m.entries.Pairwise fun e f => e.1 < f.1 := List.pairwise_map.1 h
  have hasc' : m'.entries.Pairwise fun e f => e.1 < f.1 := List.pairwise_map.1 h'
  have : Std.Asymm fun e f : κ × α => e.1 < f.1 :=
    ⟨fun e f hef hfe => irrefl_of (· < ·) e.1 (trans_of (· < ·) hef hfe)⟩
  have hentries : m.entries = m'.entries := by
    refine hasc.eq_of_mem_iff hasc' fun e => ?_
    obtain ⟨k, a⟩ := e
    rw [mem_entries_iff h, mem_entries_iff h', hfind k]
  cases m
  cases m'
  exact congrArg OrderedMap.mk hentries

variable [DecidableLT κ]

theorem sorted_insertIn (k : κ) (a : α) {es : List (κ × α)}
    (h : (es.map Prod.fst).Pairwise (· < ·)) :
    ((insertIn k a es).map Prod.fst).Pairwise (· < ·) := by
  induction es with
  | nil => simp [insertIn]
  | cons e es ih =>
    rw [List.map_cons, List.pairwise_cons] at h
    simp only [insertIn]
    split_ifs with he hlt
    · rw [List.map_cons, List.pairwise_cons]
      exact ⟨fun b hb => he ▸ h.1 b hb, h.2⟩
    · rw [List.map_cons, List.map_cons, List.pairwise_cons, List.pairwise_cons]
      refine ⟨fun b hb => ?_, h⟩
      rcases List.mem_cons.1 hb with rfl | hb
      · exact hlt
      · exact trans_of (· < ·) hlt (h.1 b hb)
    · rw [List.map_cons, List.pairwise_cons]
      refine ⟨fun b hb => ?_, ih h.2⟩
      rcases mem_keys_insertIn hb with rfl | hb
      · by_contra hge
        exact he (Std.Trichotomous.trichotomous (r := (· < ·)) _ _ hge hlt)
      · exact h.1 b hb

theorem Sorted.insert {m : OrderedMap κ α} (h : m.Sorted) (k : κ) (a : α) :
    (m.insert k a).Sorted := sorted_insertIn k a h

end Ascending

end OrderedMap

end ReplicaRing

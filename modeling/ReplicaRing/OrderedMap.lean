/-!
# Ordered maps

Finite maps kept as a list of entries in ascending key order. Stores, memberships, pinned
positions and labelled metrics are all such maps, and every listing of them is in key order.

* `OrderedMap.find?`, `insert`, `erase` — the three operations on single keys;
* `OrderedMap.Sorted` — the keys ascend strictly, which `insert` and `erase` keep;
* `find?_insert`, `find?_erase` — what a look-up sees after each change.
-/

namespace ReplicaRing

/-- A finite map from `κ` to `α`, as its entries in ascending key order. -/
structure OrderedMap (κ α : Type) where
  entries : List (κ × α) := []
  deriving DecidableEq, Repr, Inhabited

namespace OrderedMap

variable {κ α : Type}

/-- The map without entries. -/
def empty : OrderedMap κ α := ⟨[]⟩

/-- The keys, in order. -/
def keys (m : OrderedMap κ α) : List κ := m.entries.map Prod.fst

/-- The values, in the order of their keys. -/
def values (m : OrderedMap κ α) : List α := m.entries.map Prod.snd

/-- The number of entries. -/
def size (m : OrderedMap κ α) : Nat := m.entries.length

/-- Whether the map has no entry. -/
def isEmpty (m : OrderedMap κ α) : Bool := m.entries.isEmpty

section Lookup

variable [DecidableEq κ]

/-- The value stored under a key, found in a list of entries. -/
def findIn? (k : κ) : List (κ × α) → Option α
  | [] => none
  | e :: rest => if e.1 = k then some e.2 else findIn? k rest

/-- The value stored under `k`. -/
def find? (m : OrderedMap κ α) (k : κ) : Option α := findIn? k m.entries

/-- Whether `k` has an entry. -/
def contains (m : OrderedMap κ α) (k : κ) : Bool := (m.find? k).isSome

/-- The map without the entry of `k`. -/
def erase (m : OrderedMap κ α) (k : κ) : OrderedMap κ α :=
  ⟨m.entries.filter fun e => e.1 ≠ k⟩

end Lookup

section Change

variable [DecidableEq κ] [LT κ] [DecidableLT κ]

/-- Put an entry at its place in an ascending list, over an entry of the same key. -/
def insertIn (k : κ) (a : α) : List (κ × α) → List (κ × α)
  | [] => [(k, a)]
  | e :: rest =>
    if e.1 = k then (k, a) :: rest
    else if k < e.1 then (k, a) :: e :: rest
    else e :: insertIn k a rest

/-- Store `a` under `k`, over any earlier value. -/
def insert (m : OrderedMap κ α) (k : κ) (a : α) : OrderedMap κ α :=
  ⟨insertIn k a m.entries⟩

/-- Store the pairs one after the other: of two with one key, the later wins. -/
def ofList (pairs : List (κ × α)) : OrderedMap κ α :=
  pairs.foldl (fun m p => m.insert p.1 p.2) empty

end Change

/-- The keys ascend strictly, so no key occurs twice. -/
def Sorted [LT κ] (m : OrderedMap κ α) : Prop := m.keys.Pairwise (· < ·)

/-! ### Look-ups after a change -/

section Lemmas

variable [DecidableEq κ]

@[simp] theorem find?_empty (k : κ) : (empty : OrderedMap κ α).find? k = none := rfl

theorem findIn?_filter (k k' : κ) (es : List (κ × α)) :
    findIn? k' (es.filter fun e => e.1 ≠ k) = if k' = k then none else findIn? k' es := by
  induction es with
  | nil => simp [findIn?]
  | cons e rest ih =>
    by_cases h : e.1 = k
    · by_cases hk : k' = k
      · simp_all
      · have hne : e.1 ≠ k' := fun he => hk (he.symm.trans h)
        have : ¬ k = k' := fun h' => hk h'.symm
        simp_all [findIn?]
    · by_cases hk : k' = k
      · subst hk
        simp_all [findIn?]
      · simp_all [findIn?]

/-- Erasing a key hides that key and no other. -/
theorem find?_erase (m : OrderedMap κ α) (k k' : κ) :
    (m.erase k).find? k' = if k' = k then none else m.find? k' :=
  findIn?_filter k k' m.entries

variable [LT κ] [DecidableLT κ]

theorem findIn?_insertIn (k k' : κ) (a : α) (es : List (κ × α)) :
    findIn? k' (insertIn k a es) = if k' = k then some a else findIn? k' es := by
  induction es with
  | nil => by_cases h : k = k' <;> simp [insertIn, findIn?, h, eq_comm]
  | cons e rest ih =>
    by_cases h : e.1 = k
    · by_cases hk : k' = k
      · simp [insertIn, findIn?, h, hk]
      · have hne : ¬ k = k' := fun h' => hk h'.symm
        simp [insertIn, findIn?, h, hk, hne]
    · by_cases hlt : k < e.1
      · by_cases hk : k' = k
        · simp [insertIn, findIn?, h, hlt, hk]
        · have hne : ¬ k = k' := fun h' => hk h'.symm
          simp [insertIn, findIn?, h, hlt, hk, hne]
      · by_cases hk : k' = k
        · subst hk
          simp [insertIn, findIn?, h, hlt, ih]
        · simp [insertIn, findIn?, h, hlt, hk, ih]

/-- A look-up after storing sees the new value under its key and the old ones elsewhere. -/
theorem find?_insert (m : OrderedMap κ α) (k k' : κ) (a : α) :
    (m.insert k a).find? k' = if k' = k then some a else m.find? k' :=
  findIn?_insertIn k k' a m.entries

end Lemmas

end OrderedMap

end ReplicaRing

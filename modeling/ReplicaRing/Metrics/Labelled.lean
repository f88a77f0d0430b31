import ReplicaRing.Digest.Fnv1a
import ReplicaRing.OrderedMap

/-!
# Labelled measurements

Measurements of one kind that a label tells apart. They are kept by the fingerprints of their
labels, so that labels with one fingerprint share a measurement, under the first of them.

* `Labelled.find?`, `Labelled.insert` — the measurement of a label;
* `Labelled.listing` — all of them, in the order of their labels;
* `Labelled.find?_insert` — what a look-up sees after a change.
-/

namespace ReplicaRing

/-- A measurement and the label that it was first stored under. -/
structure Measurement (α : Type) where
  label : String
  value : α
  deriving Repr

/-- Measurements by the fingerprints of their labels. -/
structure Labelled (α : Type) where
  members : OrderedMap UInt64 (Measurement α) := .empty
  deriving Repr, Inhabited

namespace Labelled

variable {α : Type}

/-- What labels are told apart by. -/
def fingerprint (label : String) : UInt64 := Fnv1a.hash label.toUTF8.toList

/-- No measurements. -/
def empty : Labelled α := {}

/-- The measurement that a label shares with all labels of its fingerprint. -/
def member? (l : Labelled α) (label : String) : Option (Measurement α) :=
  l.members.find? (fingerprint label)

/-- What is measured under a label. -/
def find? (l : Labelled α) (label : String) : Option α := (l.member? label).map (·.value)

/-- Store what is measured under a label. A measurement that is there already keeps its label. -/
def insert (l : Labelled α) (label : String) (value : α) : Labelled α :=
  let shown := ((l.member? label).map (·.label)).getD label
  ⟨l.members.insert (fingerprint label) ⟨shown, value⟩⟩

/-- The measurements with their labels, in the order of these. -/
def listing (l : Labelled α) : List (String × α) :=
  (l.members.values.map fun m => (m.label, m.value)).mergeSort fun a b => a.1 ≤ b.1

@[simp] theorem find?_empty (label : String) : (empty : Labelled α).find? label = none := rfl

/-- A look-up after storing sees the new value under every label of the same fingerprint, and the
old ones elsewhere. -/
theorem find?_insert (l : Labelled α) (label other : String) (value : α) :
    (l.insert label value).find? other =
      if fingerprint other = fingerprint label then some value else l.find? other := by
  simp only [find?, member?, insert, OrderedMap.find?_insert]
  split <;> rfl

end Labelled

end ReplicaRing

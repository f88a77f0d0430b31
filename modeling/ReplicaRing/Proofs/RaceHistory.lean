import Mathlib.Tactic.Common
import ReplicaRing.Write

/-!
# Histories of a race

A sweep and a client's write of one key may get in each other's way: the sweep looks at a replica,
reads a source and copies, and the write may reach that replica in between. What matters of such a
race is a short history of one key.

* `Happening` — what is seen of a race: absences, changes and copies;
* `View` — the values under the key, and the replica that the sweep is about to fill;
* `View.Goes` — what one event does to a view;
* `Explains` — a history tells which values a race has left;
* `Explains.put_iff`, `Explains.delete_iff` — when a write lasts.
-/

namespace ReplicaRing

/-- What a change leaves under its key. -/
def Change.value : Change → Option String
  | put value => some value
  | delete => none

/-- What happens to a key while a sweep and a write of a client go on. -/
inductive Happening where
  /-- The sweep has found that a replica lacks the key. -/
  | lacking (h : Handle)
  /-- The change of the client has reached a replica. -/
  | applied (h : Handle)
  /-- A copy of the sweep has reached a replica. -/
  | copied (h : Handle) (value : String)
  deriving DecidableEq, Repr

/-- What a race is about: the values under a key, and the replica that has been found to lack it
and is about to be filled. -/
structure View where
  held : Handle → Option String
  lacks : Option Handle

/-- What one event of a race does to a view of the nodes `all`. A change that leaves `left` reaches
each replica at most once, and a copy goes to the replica that has been found to lack the key. -/
inductive View.Goes (left : Option String) (all replicas : List Handle) (past : List Happening)
    (v v' : View) : Option Happening → Prop where
  | quietly (same : ∀ x ∈ all, v'.held x = v.held x)
      (lacks : v'.lacks = v.lacks ∨ v'.lacks = none) : Goes left all replicas past v v' none
  | lacking (h : Handle) (empty : v.held h = none) (mem : h ∈ replicas)
      (same : ∀ x ∈ all, v'.held x = v.held x) (lacks : v'.lacks = some h) :
      Goes left all replicas past v v' (some (.lacking h))
  | applied (h : Handle) (mem : h ∈ replicas) (once : .applied h ∉ past)
      (change : ∀ x ∈ all, v'.held x = if x = h then left else v.held x)
      (lacks : v'.lacks = v.lacks) : Goes left all replicas past v v' (some (.applied h))
  | copied (h : Handle) (value : String) (mem : h ∈ replicas) (lacked : v.lacks = some h)
      (change : ∀ x ∈ all, v'.held x = if x = h then some value else v.held x)
      (lacks : v'.lacks = none) : Goes left all replicas past v v' (some (.copied h value))

/-- A history explains what a race has made of the values that the nodes held at its start. -/
structure Explains (left : Option String) (all replicas : List Handle)
    (start : Handle → Option String) (past : List Happening) (v : View) : Prop where
  outside : ∀ x ∈ all, x ∉ replicas → v.held x = start x
  kept : ∀ x ∈ all, .applied x ∈ past →
    (∀ u, ¬ [.applied x, .copied x u].Sublist past) → v.held x = left
  undone : ∀ x u, [.applied x, .copied x u].Sublist past → x ∈ replicas ∧ v.held x = some u
  lacks : ∀ x, v.lacks = some x → ∀ u, ¬ [.applied x, .copied x u].Sublist past
  /-- A replica that has a value is not found to lack it, so a put that has reached the replica
  about to be filled has done so after the sweep has looked. -/
  window : left ≠ none → ∀ x, v.lacks = some x →
    .lacking x ∈ past ∧ (.applied x ∈ past → [.lacking x, .applied x].Sublist past)
  overtaken : left ≠ none → ∀ x u, [.applied x, .copied x u].Sublist past →
    [.lacking x, .applied x, .copied x u].Sublist past

theorem pair_sublist_concat {α : Type} {a b c : α} {l : List α} :
    [a, b].Sublist (l ++ [c]) ↔ [a, b].Sublist l ∨ a ∈ l ∧ b = c := by
  constructor
  · intro h
    obtain ⟨l₁, l₂, hsplit, h₁, h₂⟩ := List.sublist_append_iff.1 h
    rcases List.sublist_cons_iff.1 h₂ with h₂ | ⟨r, rfl, hr⟩
    · rw [List.sublist_nil.1 h₂, List.append_nil] at hsplit
      exact .inl (hsplit ▸ h₁)
    · rw [List.sublist_nil.1 hr] at hsplit
      obtain ⟨rfl, hbc⟩ := List.append_inj' (show [a] ++ [b] = l₁ ++ [c] from hsplit) rfl
      exact .inr ⟨List.singleton_sublist.1 h₁, List.singleton_inj.1 hbc⟩
  · rintro (h | ⟨ha, rfl⟩)
    · exact h.trans (List.sublist_append_left l [c])
    · exact (List.singleton_sublist.2 ha).append (.refl [b])

namespace Explains

variable {left : Option String} {all replicas : List Handle} {start : Handle → Option String}
  {past : List Happening} {v v' : View} {h : Handle} {u : String}

theorem nil (hstart : ∀ x ∈ all, v.held x = start x) (hlacks : v.lacks = none) :
    Explains left all replicas start [] v where
  outside x hx _ := hstart x hx
  kept _ _ h := absurd h List.not_mem_nil
  undone _ _ h := absurd h (by simp)
  lacks x h := absurd (hlacks.symm.trans h) (by simp)
  window _ x h := absurd (hlacks.symm.trans h) (by simp)
  overtaken _ _ _ h := absurd h (by simp)

theorem quietly (h : Explains left all replicas start past v) (hsub : ∀ x ∈ replicas, x ∈ all)
    (same : ∀ x ∈ all, v'.held x = v.held x) (lacks : v'.lacks = v.lacks ∨ v'.lacks = none) :
    Explains left all replicas start past v' := by
  have hlacks : ∀ x, v'.lacks = some x → v.lacks = some x := by
    intro x hx
    rcases lacks with he | he
    · exact he.symm.trans hx
    · exact absurd (he.symm.trans hx) (by simp)
  exact
    { outside := fun x hx hm => (same x hx).trans (h.outside x hx hm)
      kept := fun x hx ha hno => (same x hx).trans (h.kept x hx ha hno)
      undone := fun x u hu =>
        have hx := h.undone x u hu
        ⟨hx.1, (same x (hsub x hx.1)).trans hx.2⟩
      lacks := fun x hx => h.lacks x (hlacks x hx)
      window := fun hl x hx => h.window hl x (hlacks x hx)
      overtaken := h.overtaken }

/-- A replica that is found to lack the key holds no copy, and no put has reached it. -/
theorem lacking (hex : Explains left all replicas start past v) (hsub : ∀ x ∈ replicas, x ∈ all)
    (empty : v.held h = none) (mem : h ∈ replicas) (same : ∀ x ∈ all, v'.held x = v.held x)
    (lacks : v'.lacks = some h) :
    Explains left all replicas start (past ++ [.lacking h]) v' := by
  have hpair : ∀ x u, [.applied x, .copied x u].Sublist (past ++ [.lacking h]) ↔
      [.applied x, .copied x u].Sublist past := by
    simp [pair_sublist_concat]
  have happlied : ∀ x, .applied x ∈ past ++ [.lacking h] ↔ .applied x ∈ past := by simp
  have hno : ∀ u, ¬ [.applied h, .copied h u].Sublist past := by
    intro u hu
    exact Option.some_ne_none u ((hex.undone h u hu).2.symm.trans empty)
  refine
    { outside := fun x hx hm => (same x hx).trans (hex.outside x hx hm)
      kept := fun x hx ha hn => ?_
      undone := fun x u hu => ?_
      lacks := fun x hx u => ?_
      window := fun hl x hx => ?_
      overtaken := fun hl x u hu => ?_ }
  · simp only [hpair, happlied] at ha hn
    exact (same x hx).trans (hex.kept x hx ha hn)
  · rw [hpair] at hu
    have hx := hex.undone x u hu
    exact ⟨hx.1, (same x (hsub x hx.1)).trans hx.2⟩
  · obtain rfl : h = x := Option.some.inj (lacks.symm.trans hx)
    rw [hpair]
    exact hno u
  · obtain rfl : h = x := Option.some.inj (lacks.symm.trans hx)
    refine ⟨by simp, fun ha => ?_⟩
    rw [happlied] at ha
    exact absurd ((hex.kept h (hsub h mem) ha hno).symm.trans empty) hl
  · rw [hpair] at hu
    exact (hex.overtaken hl x u hu).trans (List.sublist_append_left ..)

/-- A change that reaches a replica has not reached it before, so nothing has been undone there. -/
theorem applied (hex : Explains left all replicas start past v) (hsub : ∀ x ∈ replicas, x ∈ all)
    (mem : h ∈ replicas) (once : .applied h ∉ past)
    (change : ∀ x ∈ all, v'.held x = if x = h then left else v.held x)
    (lacks : v'.lacks = v.lacks) :
    Explains left all replicas start (past ++ [.applied h]) v' := by
  have hpair : ∀ x u, [.applied x, .copied x u].Sublist (past ++ [.applied h]) ↔
      [.applied x, .copied x u].Sublist past := by
    simp [pair_sublist_concat]
  have hne : ∀ x u, [.applied x, .copied x u].Sublist past → x ≠ h := by
    rintro x u hu rfl
    exact once (hu.subset (List.mem_cons_self ..))
  refine
    { outside := fun x hx hm => ?_
      kept := fun x hx ha hn => ?_
      undone := fun x u hu => ?_
      lacks := fun x hx u => ?_
      window := fun hl x hx => ?_
      overtaken := fun hl x u hu => ?_ }
  · rw [change x hx, if_neg (fun he : x = h => hm (he ▸ mem))]
    exact hex.outside x hx hm
  · rw [change x hx]
    split
    · rfl
    · next hxh =>
      simp only [hpair] at hn
      simp only [List.mem_append, List.mem_singleton, Happening.applied.injEq, hxh, or_false] at ha
      exact hex.kept x hx ha hn
  · rw [hpair] at hu
    have hx := hex.undone x u hu
    rw [change x (hsub x hx.1), if_neg (hne x u hu)]
    exact hx
  · rw [hpair]
    exact hex.lacks x (lacks ▸ hx) u
  · obtain ⟨hfound, hafter⟩ := hex.window hl x (lacks ▸ hx)
    refine ⟨List.mem_append_left _ hfound, fun ha => ?_⟩
    rw [pair_sublist_concat]
    rcases List.mem_append.1 ha with ha | ha
    · exact .inl (hafter ha)
    · exact .inr ⟨hfound, List.mem_singleton.1 ha⟩
  · rw [hpair] at hu
    exact (hex.overtaken hl x u hu).trans (List.sublist_append_left ..)

/-- A copy overwrites what a change has left at a replica that the change has reached meanwhile. -/
theorem copied (hex : Explains left all replicas start past v) (hsub : ∀ x ∈ replicas, x ∈ all)
    (mem : h ∈ replicas) (lacked : v.lacks = some h)
    (change : ∀ x ∈ all, v'.held x = if x = h then some u else v.held x) (lacks : v'.lacks = none) :
    Explains left all replicas start (past ++ [.copied h u]) v' := by
  have hpair : ∀ x u', [.applied x, .copied x u'].Sublist (past ++ [.copied h u]) ↔
      [.applied x, .copied x u'].Sublist past ∨ .applied x ∈ past ∧ x = h ∧ u' = u := by
    simp [pair_sublist_concat]
  have happlied : ∀ x, .applied x ∈ past ++ [.copied h u] ↔ .applied x ∈ past := by simp
  have hne : ∀ x u', [.applied x, .copied x u'].Sublist past → x ≠ h := by
    rintro x u' hu rfl
    exact hex.lacks x lacked u' hu
  refine
    { outside := fun x hx hm => ?_
      kept := fun x hx ha hn => ?_
      undone := fun x u' hu => ?_
      lacks := fun x hx => absurd (lacks.symm.trans hx) (by simp)
      window := fun _ x hx => absurd (lacks.symm.trans hx) (by simp)
      overtaken := fun hl x u' hu => ?_ }
  · rw [change x hx, if_neg (fun he : x = h => hm (he ▸ mem))]
    exact hex.outside x hx hm
  · simp only [hpair, happlied, not_or] at ha hn
    have hxh : x ≠ h := fun he => (hn u).2 ⟨ha, he, rfl⟩
    rw [change x hx, if_neg hxh]
    exact hex.kept x hx ha fun u' => (hn u').1
  · rcases (hpair x u').1 hu with hu | ⟨-, rfl, rfl⟩
    · have hx := hex.undone x u' hu
      rw [change x (hsub x hx.1), if_neg (hne x u' hu)]
      exact hx
    · exact ⟨mem, by rw [change x (hsub x mem), if_pos rfl]⟩
  · rcases (hpair x u').1 hu with hu | ⟨ha, rfl, rfl⟩
    · exact (hex.overtaken hl x u' hu).trans (List.sublist_append_left ..)
    · exact ((hex.window hl x lacked).2 ha).append (.refl [Happening.copied x u'])

/-- **One event.** Whatever happens is explained by the history once it has been written down. -/
theorem goes {e : Option Happening} (hex : Explains left all replicas start past v)
    (hsub : ∀ x ∈ replicas, x ∈ all) (hgoes : v.Goes left all replicas past v' e) :
    Explains left all replicas start (past ++ e.toList) v' := by
  cases hgoes with
  | quietly same lacks =>
    rw [Option.toList_none, List.append_nil]
    exact hex.quietly hsub same lacks
  | lacking h empty mem same lacks => exact hex.lacking hsub empty mem same lacks
  | applied h mem once change lacks => exact hex.applied hsub mem once change lacks
  | copied h value mem lacked change lacks => exact hex.copied hsub mem lacked change lacks

/-! ### When a write lasts -/

/-- A put that has reached all replicas lasts unless it has overtaken a copy of another value. -/
theorem put_iff {value : String} (hex : Explains (some value) all replicas start past v)
    (hsub : ∀ x ∈ replicas, x ∈ all) (hall : ∀ x ∈ replicas, .applied x ∈ past) :
    (∀ x ∈ replicas, v.held x = some value) ↔
      ¬ ∃ x u, u ≠ value ∧ [.lacking x, .applied x, .copied x u].Sublist past := by
  constructor
  · rintro hheld ⟨x, u, hne, hsublist⟩
    obtain ⟨hx, hu⟩ := hex.undone x u ((List.sublist_cons_self ..).trans hsublist)
    exact hne (Option.some.inj (hu.symm.trans (hheld x hx)))
  · intro hno x hx
    by_cases hcopied : ∃ u, [.applied x, .copied x u].Sublist past
    · obtain ⟨u, hu⟩ := hcopied
      have hval : u = value := by
        by_contra hne
        exact hno ⟨x, u, hne, hex.overtaken (Option.some_ne_none value) x u hu⟩
      exact hval ▸ (hex.undone x u hu).2
    · exact hex.kept x (hsub x hx) (hall x hx) (not_exists.1 hcopied)

/-- A delete that has reached all replicas lasts unless a copy has come after it. -/
theorem delete_iff (hex : Explains none all replicas start past v)
    (hsub : ∀ x ∈ replicas, x ∈ all) (hall : ∀ x ∈ replicas, .applied x ∈ past)
    (hstart : ∀ x ∈ all, x ∉ replicas → start x = none) :
    (∀ x ∈ all, v.held x = none) ↔ ¬ ∃ x u, [.applied x, .copied x u].Sublist past := by
  constructor
  · rintro hheld ⟨x, u, hu⟩
    obtain ⟨hx, hu⟩ := hex.undone x u hu
    exact Option.some_ne_none u (hu.symm.trans (hheld x (hsub x hx)))
  · intro hno x hx
    by_cases hm : x ∈ replicas
    · exact hex.kept x hx (hall x hm) fun u hu => hno ⟨x, u, hu⟩
    · exact (hex.outside x hx hm).trans (hstart x hx hm)

end Explains

end ReplicaRing

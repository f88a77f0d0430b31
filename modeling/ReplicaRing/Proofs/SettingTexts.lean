import Mathlib.Logic.Function.Basic
import ReplicaRing.Config.Document
import ReplicaRing.Proofs.BlockMappings

/-!
# Texts of settings

Written values are words, and they are read as what has been written; so are the fields of a
section.

* `numeral?_toDigits`, `number?_toString` — decimal numbers without leading zeros;
* `word?_toString`, `flag?_flagText`, `port?_portText` — the values of settings;
* `section?_fields`, `setting?_fields` — distinct fields of a section, each with its value.
-/

namespace ReplicaRing

open Yaml

/-! ### Numbers -/

namespace Setting

theorem digitBelow?_digit {c : Char} (h : c.isDigit) :
    digitBelow? 10 c = some (c.toNat - '0'.toNat) := by
  have hdigit : '0' ≤ c ∧ c ≤ '9' := by
    simpa [Char.isDigit, Char.le_def] using h
  have hlt : c.toNat - 48 < 10 := by
    have hle : c.toNat ≤ 57 := hdigit.2
    omega
  simp only [digitBelow?, hexValue?, if_pos hdigit, Option.bind_eq_bind, Option.bind_some,
    if_pos hlt]
  rfl

theorem foldlM_digits {cs : List Char} (h : ∀ c ∈ cs, c.isDigit) (acc : Nat) :
    cs.foldlM (fun acc c => return 10 * acc + (← digitBelow? 10 c)) acc =
      some (Nat.ofDigitChars 10 cs acc) := by
  induction cs generalizing acc with
  | nil => rfl
  | cons c cs ih =>
    obtain ⟨hc, hcs⟩ := List.forall_mem_cons.1 h
    rw [List.foldlM_cons, digitBelow?_digit hc, Nat.ofDigitChars_cons]
    exact ih hcs _

/-- Only zero starts with a zero. -/
theorem head_toDigits {n : Nat} (hn : 0 < n) :
    ∃ c cs, Nat.toDigits 10 n = c :: cs ∧ c ≠ '0' := by
  induction n using Nat.strongRecOn with
  | _ n ih =>
    by_cases hlt : n < 10
    · refine ⟨_, _, Nat.toDigits_of_lt_base hlt, ?_⟩
      have hall : ∀ k < 10, 0 < k → k.digitChar ≠ '0' := by decide
      exact hall n hlt hn
    · obtain ⟨c, cs, hcons, hc⟩ := ih (n / 10) (by omega) (by omega)
      refine ⟨c, cs ++ [(n % 10).digitChar], ?_, hc⟩
      rw [Nat.toDigits_of_base_le (by decide) (Nat.not_lt.1 hlt), hcons, List.cons_append]

theorem isDigit_toDigits {n : Nat} : ∀ c ∈ Nat.toDigits 10 n, c.isDigit := fun _ =>
  Nat.isDigit_of_mem_toDigits (by decide) (by decide)

theorem digits?_toDigits (n : Nat) : digits? 10 (Nat.toDigits 10 n) = some n := by
  rw [digits?, if_neg (by simp [Nat.toDigits_ne_nil]), foldlM_digits isDigit_toDigits,
    Nat.ofDigitChars_toDigits (by decide) (by decide)]

theorem numeral?_toDigits (n : Nat) : numeral? (Nat.toDigits 10 n) = some n := by
  by_cases hn : n = 0
  · subst hn
    rfl
  · have hdigits := digits?_toDigits n
    obtain ⟨c, cs, hcons, hc⟩ := head_toDigits (Nat.pos_of_ne_zero hn)
    have hzero : hasLeadingZero (c :: cs) = false := by
      rw [hasLeadingZero]
      exact fun _ _ he => hc (List.cons.inj he).1
    rw [hcons] at hdigits ⊢
    rw [numeral?, hzero, if_neg Bool.false_ne_true, hdigits]
    all_goals exact fun _ he => hc (List.cons.inj he).1

theorem number?_toString (n : Nat) : number? (toString n) = some n := by
  rw [number?, Nat.toString_eq_repr, Nat.toList_repr]
  have hplus : ∀ cs, Nat.toDigits 10 n ≠ '+' :: cs := fun cs he =>
    absurd (isDigit_toDigits '+' (he ▸ List.mem_cons_self ..)) (by decide)
  cases hcons : Nat.toDigits 10 n with
  | nil => exact absurd hcons Nat.toDigits_ne_nil
  | cons c cs =>
    have hnumeral := numeral?_toDigits n
    rw [hcons] at hnumeral hplus
    split
    · next ds he => exact absurd he (hplus ds)
    · exact hnumeral

/-- A number is no text with something else than digits. -/
theorem toString_ne {n : Nat} {s : String} (hs : s.toList.all Char.isDigit = false) :
    toString n ≠ s := by
  rintro rfl
  rw [Nat.toString_eq_repr, Nat.toList_repr] at hs
  exact ne_true_of_eq_false hs (List.all_eq_true.2 isDigit_toDigits)

/-! ### Values -/

theorem unsigned?_toString {n bound : Nat} (h : n < bound) :
    unsigned? bound (.ofValue (some (toString n))) = some n := by
  rw [Node.ofValue, Option.getD_some, unsigned?, if_pos (by rfl), number?_toString,
    Option.bind_eq_bind, Option.bind_some, if_pos h]
  rfl

theorem word?_toString (w : UInt64) : word? (.ofValue (some (toString w.toNat))) = some w := by
  rw [word?, unsigned?_toString w.toNat_lt_size, Option.map_some, UInt64.ofNat_toNat]

theorem flag?_flagText (b : Bool) : flag? (.ofValue (some (Config.flagText b))) = some b := by
  cases b <;> decide

theorem port?_portText (p : Option UInt16) :
    port? (.ofValue (some (Config.portText p))) = some p := by
  cases p with
  | none => rfl
  | some p =>
    have hempty : toString p.toNat ≠ "" := by
      rw [Nat.toString_eq_repr, Ne, ← String.toList_eq_nil_iff, Nat.toList_repr]
      exact Nat.toDigits_ne_nil
    have hne : ∀ s ∈ ["null", "Null", "NULL", "~"], (toString p.toNat == s) = false := by
      intro s hs
      refine beq_eq_false_iff_ne.2 (toString_ne ?_)
      revert s
      decide
    simp only [List.forall_mem_cons] at hne
    have hnull : isNull (toString p.toNat) = false := by
      simp only [isNull, hne, Bool.or_false]
    have htag : (none == some (standardTag "null")) = false := rfl
    show port? (.scalar .plain none (toString p.toNat)) = _
    rw [port?, hnull, Bool.and_false, if_neg Bool.false_ne_true, htag, if_neg Bool.false_ne_true]
    · show (unsigned? UInt16.size (.ofValue (some (toString p.toNat)))).map _ = _
      rw [unsigned?_toString p.toNat_lt_size, Option.map_some, UInt16.ofNat_toNat]
    · exact fun _ he => hempty he

/-! ### Words -/

theorem isWord_toString (n : Nat) : IsWord (toString n) := by
  rw [IsWord, Nat.toString_eq_repr, Nat.toList_repr]
  refine ⟨Nat.toDigits_ne_nil, fun c hc => ?_⟩
  rw [IsTame, Char.isAlphanum, isDigit_toDigits c hc, Bool.or_true, Bool.true_or]

theorem isWord_flagText (b : Bool) : IsWord (Config.flagText b) := by
  cases b <;> decide

theorem isWord_portText (p : Option UInt16) : IsWord (Config.portText p) := by
  cases p with
  | none => decide
  | some p => exact isWord_toString p.toNat

end Setting

/-! ### Fields -/

section Fields

variable {α : Type} [DecidableEq α] {name : α → String} (hname : Function.Injective name)
  (node : α → Yaml.Node)
include hname

/-- A field is looked up by its name. -/
theorem lookup_fields (fs : List α) (f : α) :
    (fs.map fun f => (name f, node f)).lookup (name f) =
      if f ∈ fs then some (node f) else none := by
  induction fs with
  | nil => rfl
  | cons g fs ih =>
    by_cases hfg : f = g
    · subst hfg
      rw [List.map_cons, List.lookup_cons_self, if_pos (List.mem_cons_self ..)]
    · have hne : (name f == name g) = false := beq_eq_false_iff_ne.2 fun he => hfg (hname he)
      rw [List.map_cons, List.lookup_cons, hne, ih]
      simp only [List.mem_cons, hfg, false_or]

/-- **A section holds distinct known fields** with their values. -/
theorem section?_fields {d : Document} {known : List String}
    (hknown : ∀ f, known.contains (name f) = true) (hnode : ∀ f, d.resolve (node f) = node f)
    {fs : List α} (hfs : fs.Nodup) :
    Config.section? d known (.ofSettings (fs.map fun f => (name f, node f))) =
      some (fs.map fun f => (name f, node f)) := by
  have hsettings : Config.settings? d known
      ((fs.map fun f => (name f, node f)).map settingEntry) =
      some (fs.map fun f => (name f, node f)) := by
    induction fs with
    | nil => rfl
    | cons f fs ih =>
      obtain ⟨hf, hfs⟩ := List.nodup_cons.1 hfs
      have hlookup := lookup_fields hname node fs f
      rw [if_neg hf] at hlookup
      have hkey : d.resolve (.scalar .plain none (name f)) = .scalar .plain none (name f) := rfl
      simp only [List.map_cons, Config.settings?, settingEntry, hkey, ih hfs, hknown, hlookup,
        hnode, Option.bind_eq_bind, Option.bind_some, if_true, Option.isSome_none,
        Bool.false_eq_true, if_false, Option.pure_def]
  rw [Yaml.Node.ofSettings]
  split
  · next hempty =>
    rw [List.isEmpty_iff] at hempty
    rw [hempty]
    rfl
  · exact hsettings

/-- **A field has its value if it is listed**, and the default otherwise. -/
theorem setting?_fields {β : Type} {read : Yaml.Node → Option β} {fs : List α} {f : α}
    {value fallback : β} (hlisted : f ∈ fs → read (node f) = some value)
    (hother : f ∉ fs → fallback = value) :
    Config.setting? (fs.map fun f => (name f, node f)) (name f) fallback read = some value := by
  rw [Config.setting?, lookup_fields hname node fs f]
  by_cases hf : f ∈ fs
  · rw [if_pos hf]
    exact hlisted hf
  · rw [if_neg hf]
    exact congrArg some (hother hf)

end Fields

end ReplicaRing

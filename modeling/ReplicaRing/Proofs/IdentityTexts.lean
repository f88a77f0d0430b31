import Mathlib.Data.List.Induction
import Mathlib.Data.List.TakeWhile
import Mathlib.Data.Nat.Digits.Defs
import Mathlib.Data.String.Basic
import ReplicaRing.NodeId.Numeral
import ReplicaRing.Proofs.OrderedMap
import ReplicaRing.Proofs.SettingTexts

/-!
# Texts of identities

An identity has two texts: the sixteen hexadecimal digits of messages, and the JSON numeral that
travels. Both are read back as the identity.

* `Hex.value_padded`, `Hex.padded_lt_padded` — digits on a fixed width, as a number and as a
  place in the dictionary;
* `NodeId.display_sorts` — names in messages sort like positions;
* `NodeId.IsNumeralText` — the grammar of JSON numerals below a circle, apart from its reader;
* `NodeId.numeral_exact` — an identity is read from the numerals below `2 ^ 64` and from no
  other text.
-/

namespace ReplicaRing

/-! ### Hexadecimal digits -/

namespace Hex

/-- The digits, in the order of what they stand for. -/
def alphabet : List Char := "0123456789abcdef".toList

theorem digit_mem_alphabet : ∀ n < 16, digit n ∈ alphabet := by decide

theorem digitValue_digit : ∀ n < 16, digitValue (digit n) = n := by decide

theorem digit_lt_digit : ∀ m < 16, ∀ n < 16, digit m < digit n ↔ m < n := by decide

theorem digit_inj {m n : Nat} (hm : m < 16) (hn : n < 16) (h : digit m = digit n) : m = n := by
  rw [← digitValue_digit m hm, h, digitValue_digit n hn]

theorem mod_lt_sixteen (n : Nat) : n % 16 < 16 := Nat.mod_lt n (by decide)

@[simp] theorem length_padded (width n : Nat) : (padded width n).length = width := by
  induction width generalizing n with
  | zero => rfl
  | succ width ih => rw [padded, List.length_append, ih, List.length_singleton]

theorem mem_alphabet_of_mem_padded {width n : Nat} {c : Char} (h : c ∈ padded width n) :
    c ∈ alphabet := by
  induction width generalizing n with
  | zero => exact absurd h List.not_mem_nil
  | succ width ih =>
    rcases List.mem_append.1 h with h | h
    · exact ih h
    · rw [List.mem_singleton.1 h]
      exact digit_mem_alphabet _ (mod_lt_sixteen n)

theorem value_concat (cs : List Char) (c : Char) :
    value (cs ++ [c]) = 16 * value cs + digitValue c := by
  simp only [value, List.foldl_append, List.foldl_cons, List.foldl_nil]

/-- Digits on a fixed width denote the number as far as they reach. -/
theorem value_padded (width n : Nat) : value (padded width n) = n % 16 ^ width := by
  induction width generalizing n with
  | zero => exact (Nat.mod_one n).symm
  | succ width ih =>
    calc value (padded (width + 1) n)
        = 16 * (n / 16 % 16 ^ width) + n % 16 := by
          rw [padded, value_concat, ih, digitValue_digit _ (mod_lt_sixteen n)]
      _ = n % 16 ^ (width + 1) := by
          rw [Nat.pow_succ, Nat.mul_comm (16 ^ width), Nat.mod_mul, Nat.add_comm]

/-- The digits from the other end: the highest one comes first. -/
theorem padded_succ (width n : Nat) :
    padded (width + 1) n = digit (n / 16 ^ width % 16) :: padded width n := by
  induction width generalizing n with
  | zero => simp [padded]
  | succ width ih =>
    rw [padded, ih, Nat.div_div_eq_div_mul, ← Nat.pow_succ', List.cons_append, padded]

/-- Of two numbers with one radix the higher digit decides, and the rest if that is the same. -/
theorem lt_by_digit {p r s a b : Nat} (hr : r < p) (hs : s < p) :
    r + p * a < s + p * b ↔ a < b ∨ a = b ∧ r < s := by
  have hover : ∀ {r s a b}, s < p → a < b → s + p * a < r + p * b := fun {r s a b} hs hlt =>
    calc s + p * a < p + p * a := Nat.add_lt_add_right hs _
      _ = p * (a + 1) := by rw [Nat.mul_succ, Nat.add_comm]
      _ ≤ p * b := Nat.mul_le_mul_left p hlt
      _ ≤ r + p * b := Nat.le_add_left ..
  rcases Nat.lt_trichotomy a b with h | rfl | h
  · exact iff_of_true (hover hr h) (.inl h)
  · simp
  · exact iff_of_false (hover hs h).not_gt (by omega)

/-- In the dictionary, texts of one width stand in the order of what they denote. -/
theorem padded_lt_padded (width m n : Nat) :
    padded width m < padded width n ↔ m % 16 ^ width < n % 16 ^ width := by
  induction width with
  | zero => simp [padded, Nat.mod_one]
  | succ width ih =>
    have hm := mod_lt_sixteen (m / 16 ^ width)
    have hn := mod_lt_sixteen (n / 16 ^ width)
    have hlow : ∀ k, k % 16 ^ width < 16 ^ width := fun k =>
      Nat.mod_lt k (Nat.pow_pos (by decide))
    have heq : digit (m / 16 ^ width % 16) = digit (n / 16 ^ width % 16) ↔
        m / 16 ^ width % 16 = n / 16 ^ width % 16 := ⟨digit_inj hm hn, congrArg digit⟩
    rw [padded_succ, padded_succ, List.cons_lt_cons_iff, digit_lt_digit _ hm _ hn, heq, ih,
      Nat.mod_pow_succ, Nat.mod_pow_succ, lt_by_digit (hlow m) (hlow n)]

end Hex

namespace NodeId

/-! ### Names in messages -/

theorem toList_display (id : NodeId) : id.display.toList = Hex.padded 16 id.position.toNat :=
  String.toList_ofList

theorem position_mod (id : NodeId) : id.position.toNat % 16 ^ 16 = id.position.toNat :=
  Nat.mod_eq_of_lt id.position.toNat_lt

theorem value_display (id : NodeId) : Hex.value id.display.toList = id.position.toNat := by
  rw [toList_display, Hex.value_padded, position_mod]

theorem lt_iff_display_lt {a b : NodeId} : a < b ↔ a.display < b.display := by
  rw [String.lt_iff_toList_lt, toList_display, toList_display, Hex.padded_lt_padded,
    position_mod, position_mod, lt_def]

theorem le_iff_display_le {a b : NodeId} : a ≤ b ↔ a.display ≤ b.display := by
  have hle : a ≤ b ↔ ¬ b < a := by
    rw [le_def, lt_def, Nat.not_lt]
  rw [hle, lt_iff_display_lt, String.not_lt]

/-- The name of an identity is sixteen lower-case digits that denote its position, names stand
in the dictionary as identities stand on the circle, and so it is one and the same to sort
identities or their names. -/
theorem display_sorts (a b : NodeId) :
    a.display.length = 16 ∧
    (∀ c ∈ a.display.toList, c ∈ "0123456789abcdef".toList) ∧
    Hex.value a.display.toList = a.position.toNat ∧
    (a < b ↔ a.display < b.display) ∧
    (a.display = b.display ↔ a = b) ∧
    ∀ ids : List NodeId,
      (ids.mergeSort (· ≤ ·)).map display = (ids.map display).mergeSort (· ≤ ·) := by
  refine ⟨?length, ?digits, value_display a, lt_iff_display_lt, ⟨?equal, congrArg display⟩, ?sort⟩
  case length => rw [display, String.length_ofList, digits, Hex.length_padded]
  case digits =>
    intro c hc
    rw [toList_display] at hc
    exact Hex.mem_alphabet_of_mem_padded hc
  case equal =>
    intro h
    apply ext_position
    rw [← value_display a, h, value_display b]
  case sort =>
    intro ids
    apply List.map_mergeSort
    intro a _ b _
    exact decide_eq_decide.2 le_iff_display_le

/-! ### Numerals -/

/-- The number that a string of decimal digits denotes. -/
def decimalValue (ds : List Char) : Nat :=
  Nat.ofDigits 10 (ds.map fun c => "0123456789".toList.idxOf c).reverse

/-- A text is the numeral `ds` between blanks: decimal digits, at least one, and a zero in
front only if it stands alone. -/
structure IsNumeralText (text : String) (ds : List Char) : Prop where
  framed : ∃ before after, text.toList = before ++ ds ++ after ∧
    (∀ c ∈ before, c ∈ [' ', '\t', '\n', '\r']) ∧ ∀ c ∈ after, c ∈ [' ', '\t', '\n', '\r']
  nonempty : ds ≠ []
  decimal : ∀ c ∈ ds, c ∈ "0123456789".toList
  lead : ds.head? = some '0' → ds = ['0']

theorem isBlank_iff {c : Char} : isBlank c ↔ c ∈ [' ', '\t', '\n', '\r'] := by
  simp [isBlank, or_assoc]

theorem isDigit_iff {c : Char} : c.isDigit ↔ c ∈ "0123456789".toList := by
  constructor
  · intro h
    have hbounds : 48 ≤ c.toNat ∧ c.toNat ≤ 57 := by
      simp only [Char.isDigit, ge_iff_le, Bool.and_eq_true, decide_eq_true_eq] at h
      exact h
    have hall : ∀ n < 58, 48 ≤ n → Char.ofNat n ∈ "0123456789".toList := by decide
    rw [← Char.ofNat_toNat c]
    exact hall c.toNat (Nat.lt_succ_of_le hbounds.2) hbounds.1
  · have hall : ∀ c ∈ "0123456789".toList, c.isDigit := by simp
    exact hall c

theorem isBlank_of_isDigit {c : Char} (h : c.isDigit) : isBlank c = false := by
  have hall : ∀ c ∈ "0123456789".toList, isBlank c = false := by simp [isBlank]
  exact hall c (isDigit_iff.1 h)

theorem decimalValue_concat (ds : List Char) (c : Char) :
    decimalValue (ds ++ [c]) = 10 * decimalValue ds + "0123456789".toList.idxOf c := by
  rw [decimalValue, List.map_append, List.reverse_append, List.map_singleton,
    List.reverse_singleton, List.singleton_append, Nat.ofDigits_cons, Nat.add_comm]
  rfl

/-- The reader's way to count gives what the digits denote. -/
theorem ofDigitChars_eq_decimalValue {ds : List Char} (h : ∀ c ∈ ds, c.isDigit) :
    Nat.ofDigitChars 10 ds 0 = decimalValue ds := by
  have hdigit : ∀ c ∈ "0123456789".toList,
      c.toNat - '0'.toNat = "0123456789".toList.idxOf c := by simp
  induction ds using List.reverseRecOn with
  | nil => rfl
  | append_singleton ds c ih =>
    obtain ⟨hds, hc⟩ := List.forall_mem_append.1 h
    rw [Nat.ofDigitChars_append, ih hds, Nat.ofDigitChars_cons, Nat.ofDigitChars_nil,
      decimalValue_concat, hdigit c (isDigit_iff.1 (hc c (List.mem_singleton_self c)))]

theorem isNumeral_iff {ds : List Char} :
    isNumeral ds ↔ ds ≠ [] ∧ (∀ c ∈ ds, c.isDigit) ∧ (ds.head? = some '0' → ds = ['0']) := by
  unfold isNumeral
  split
  · simp
  · simp
  · next c cs hzero =>
    -- `hzero` says that a zero in front does not stand alone.
    simp only [Bool.and_eq_true, bne_iff_ne, List.all_eq_true, ne_eq, reduceCtorEq,
      not_false_eq_true, true_and, List.head?_cons, Option.some.injEq, List.cons.injEq]
    constructor
    · rintro ⟨hc, hall⟩
      exact ⟨hall, fun h => absurd h hc⟩
    · rintro ⟨hall, hone⟩
      exact ⟨fun h => hzero h (hone h).2, hall⟩

/-! ### Blanks around a numeral -/

theorem dropWhile_blanks {before ds : List Char} (hbefore : ∀ c ∈ before, isBlank c)
    (hds : ∀ c ∈ ds, isBlank c = false) (hne : ds ≠ []) (rest : List Char) :
    (before ++ (ds ++ rest)).dropWhile isBlank = ds ++ rest := by
  rw [List.dropWhile_append_of_pos hbefore]
  cases ds with
  | nil => exact absurd rfl hne
  | cons c cs =>
    rw [List.cons_append, List.dropWhile_cons_of_neg]
    rw [hds c List.mem_cons_self]
    exact Bool.false_ne_true

theorem stripBlanks_framed {before ds after : List Char} (hbefore : ∀ c ∈ before, isBlank c)
    (hds : ∀ c ∈ ds, isBlank c = false) (hne : ds ≠ []) (hafter : ∀ c ∈ after, isBlank c) :
    stripBlanks (before ++ ds ++ after) = ds := by
  have hback : (ds ++ after).reverse = after.reverse ++ (ds.reverse ++ []) := by
    rw [List.reverse_append, List.append_nil]
  rw [stripBlanks, List.append_assoc, dropWhile_blanks hbefore hds hne, hback,
    dropWhile_blanks (fun c hc => hafter c (List.mem_reverse.1 hc))
      (fun c hc => hds c (List.mem_reverse.1 hc)) (List.reverse_ne_nil_iff.2 hne),
    List.append_nil, List.reverse_reverse]

/-- Only blanks are stripped. -/
theorem exists_stripBlanks (cs : List Char) :
    ∃ before after, cs = before ++ stripBlanks cs ++ after ∧
      (∀ c ∈ before, isBlank c) ∧ ∀ c ∈ after, isBlank c := by
  let body := (cs.dropWhile isBlank).reverse
  have hbody : stripBlanks cs ++ (body.takeWhile isBlank).reverse = cs.dropWhile isBlank := by
    rw [stripBlanks, ← List.reverse_append, List.takeWhile_append_dropWhile, List.reverse_reverse]
  refine ⟨cs.takeWhile isBlank, (body.takeWhile isBlank).reverse, ?_,
    fun c hc => List.mem_takeWhile_imp hc,
    fun c hc => List.mem_takeWhile_imp (List.mem_reverse.1 hc)⟩
  rw [List.append_assoc, hbody, List.takeWhile_append_dropWhile]

theorem isNumeralText_iff {text : String} {ds : List Char} :
    IsNumeralText text ds ↔ stripBlanks text.toList = ds ∧ isNumeral ds := by
  simp only [isNumeral_iff, isDigit_iff]
  constructor
  · rintro ⟨⟨before, after, htext, hbefore, hafter⟩, hne, hdecimal, hlead⟩
    refine ⟨?_, hne, hdecimal, hlead⟩
    rw [htext]
    exact stripBlanks_framed (fun c hc => isBlank_iff.2 (hbefore c hc))
      (fun c hc => isBlank_of_isDigit (isDigit_iff.2 (hdecimal c hc))) hne
      (fun c hc => isBlank_iff.2 (hafter c hc))
  · rintro ⟨rfl, hne, hdecimal, hlead⟩
    obtain ⟨before, after, htext, hbefore, hafter⟩ := exists_stripBlanks text.toList
    exact ⟨⟨before, after, htext, fun c hc => isBlank_iff.1 (hbefore c hc),
      fun c hc => isBlank_iff.1 (hafter c hc)⟩, hne, hdecimal, hlead⟩

/-! ### Reading a numeral -/

theorem ofNumeral?_eq_some {text : String} {id : NodeId} :
    ofNumeral? text = some id ↔
      ∃ ds, IsNumeralText text ds ∧ decimalValue ds = id.position.toNat := by
  simp only [isNumeralText_iff]
  constructor
  · intro h
    simp only [ofNumeral?, Option.ite_none_right_eq_some, Bool.and_eq_true,
      decide_eq_true_eq, Option.some.injEq] at h
    obtain ⟨⟨hnumeral, hlt⟩, rfl⟩ := h
    refine ⟨_, ⟨rfl, hnumeral⟩, ?_⟩
    rw [UInt64.toNat_ofNat_of_lt' hlt,
      ofDigitChars_eq_decimalValue (isNumeral_iff.1 hnumeral).2.1]
  · rintro ⟨ds, ⟨hstrip, hnumeral⟩, hvalue⟩
    simp only [ofNumeral?, hstrip, hnumeral,
      ofDigitChars_eq_decimalValue (isNumeral_iff.1 hnumeral).2.1, hvalue]
    rw [if_pos (by simpa using id.position.toNat_lt), UInt64.ofNat_toNat]

theorem isNumeralText_numeral (id : NodeId) :
    IsNumeralText id.numeral (Nat.toDigits 10 id.position.toNat) := by
  refine ⟨⟨[], [], ?_, by simp, by simp⟩, Nat.toDigits_ne_nil,
    fun c hc => isDigit_iff.1 (Setting.isDigit_toDigits c hc), ?_⟩
  · rw [numeral, Nat.toString_eq_repr, Nat.toList_repr, List.nil_append, List.append_nil]
  · intro hlead
    rcases Nat.eq_zero_or_pos id.position.toNat with hzero | hpos
    · rw [hzero]
      rfl
    · obtain ⟨c, cs, hcons, hc⟩ := Setting.head_toDigits hpos
      rw [hcons] at hlead
      exact absurd (Option.some.inj hlead) hc

/-- An identity is read back from its own numeral, and a text is read exactly if it is the
numeral of a number below `2 ^ 64` between blanks, which is then the position. -/
theorem numeral_exact :
    (∀ id : NodeId, ofNumeral? id.numeral = some id) ∧
    ∀ text : String,
      ((ofNumeral? text).isSome ↔ ∃ ds, IsNumeralText text ds ∧ decimalValue ds < 2 ^ 64) ∧
      ∀ id, ofNumeral? text = some id ↔
        ∃ ds, IsNumeralText text ds ∧ decimalValue ds = id.position.toNat := by
  refine ⟨fun id => ?own, fun text => ⟨?accepted, fun id => ofNumeral?_eq_some⟩⟩
  case own =>
    refine ofNumeral?_eq_some.2 ⟨_, isNumeralText_numeral id, ?_⟩
    rw [← ofDigitChars_eq_decimalValue Setting.isDigit_toDigits,
      Nat.ofDigitChars_toDigits (by decide) (by decide)]
  case accepted =>
    rw [Option.isSome_iff_exists]
    constructor
    · rintro ⟨id, hid⟩
      obtain ⟨ds, htext, hvalue⟩ := ofNumeral?_eq_some.1 hid
      exact ⟨ds, htext, hvalue ▸ id.position.toNat_lt⟩
    · rintro ⟨ds, htext, hlt⟩
      exact ⟨⟨UInt64.ofNat (decimalValue ds)⟩, ofNumeral?_eq_some.2
        ⟨ds, htext, (UInt64.toNat_ofNat_of_lt' hlt).symm⟩⟩

example : ofNumeral? "18446744073709551615" = some highest := by decide +kernel

example : ofNumeral? "18446744073709551616" = none := by decide +kernel

end NodeId

end ReplicaRing

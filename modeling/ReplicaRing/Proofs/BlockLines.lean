import Mathlib.Algebra.Ring.Nat
import Mathlib.Data.List.InsertIdx
import ReplicaRing.Yaml.Token

/-!
# Block mappings written line by line

The tokens of a text in which every line is a key with a plain value or without one. Lines that are
indented deeper belong to the key above them.

* `IsTame` — the characters of keys and values;
* `Line`, `linesText` — lines and the text that they make up;
* `readPlain_word`, `skipBlanks_break` — how a word and the way to the next line are read;
* `Blocks`, `Line.scan` — the open blocks with the tokens so far, and what a line adds to them;
* `run_line`, `run_lines`, `tokens?_lines` — one line, all lines, and the tokens of the text.
-/

namespace ReplicaRing.Yaml

/-! ### Characters -/

/-- Letters, digits and underscores, which mean nothing but themselves. -/
def IsTame (c : Char) : Prop := (c.isAlphanum || c == '_') = true

instance (c : Char) : Decidable (IsTame c) := inferInstanceAs (Decidable (_ = true))

theorem IsTame.lt {c : Char} (h : IsTame c) : c.toNat < 128 := by
  unfold IsTame Char.isAlphanum Char.isAlpha Char.isUpper Char.isLower Char.isDigit at h
  simp only [Bool.or_eq_true, Bool.and_eq_true, decide_eq_true_eq, beq_iff_eq] at h
  rcases h with ((⟨-, h⟩ | ⟨-, h⟩) | ⟨-, h⟩) | rfl
  · exact Nat.lt_of_le_of_lt h (by decide)
  · exact Nat.lt_of_le_of_lt h (by decide)
  · exact Nat.lt_of_le_of_lt h (by decide)
  · decide

/-- What is true of all small characters by inspection is true of tame ones. -/
theorem IsTame.elim {P : Char → Prop} (hall : ∀ n < 128, IsTame (Char.ofNat n) → P (Char.ofNat n))
    {c : Char} (h : IsTame c) : P c := by
  have hc : Char.ofNat c.toNat = c := Char.ofNat_toNat c
  exact hc ▸ hall c.toNat h.lt (hc.symm ▸ h)

/-- A tame character is visible, it is no indicator, and it takes one byte. -/
structure Visible (c : Char) : Prop where
  printable : isPrintable c = true
  noBreak : isBreak c = false
  noBlank : isBlank c = false
  noComment : c ≠ '#'
  noMark : c ≠ '\uFEFF'
  noColon : c ≠ ':'
  noReturn : c ≠ '\r'
  width : c.utf8Size = 1

theorem IsTame.visible {c : Char} (h : IsTame c) : Visible c := by
  have hall : isPrintable c = true ∧ isBreak c = false ∧ isBlank c = false ∧ c ≠ '#' ∧
      c ≠ '\uFEFF' ∧ c ≠ ':' ∧ c ≠ '\r' ∧ c.utf8Size = 1 :=
    h.elim (P := fun c => isPrintable c = true ∧ isBreak c = false ∧ isBlank c = false ∧ c ≠ '#' ∧
      c ≠ '\uFEFF' ∧ c ≠ ':' ∧ c ≠ '\r' ∧ c.utf8Size = 1) (by decide)
  obtain ⟨h₁, h₂, h₃, h₄, h₅, h₆, h₇, h₈⟩ := hall
  exact ⟨h₁, h₂, h₃, h₄, h₅, h₆, h₇, h₈⟩

/-- A line that starts with a tame character is no document marker. -/
theorem documentMarkerAhead_tame {c : Char} (h : IsTame c) (cs : List Char) :
    documentMarkerAhead (c :: cs) = false := by
  have hne : c ≠ '-' ∧ c ≠ '.' := h.elim (P := fun c => c ≠ '-' ∧ c ≠ '.') (by decide)
  rw [documentMarkerAhead]
  · exact fun _ he => hne.1 (List.cons.inj he).1
  · exact fun _ he => hne.2 (List.cons.inj he).1

/-- A tame character starts a plain scalar. -/
theorem Scanner.token_tame (s : Scanner) {c : Char} (h : IsTame c) (cs : List Char) :
    s.token c cs = s.plainScalar := by
  have hplain : isGap c = false ∧ indicators.contains c = false :=
    h.elim (P := fun c => isGap c = false ∧ indicators.contains c = false) (by decide)
  have hne : ∀ d ∈ indicators, (c == d) = false := by
    intro d hd
    rw [beq_eq_false_iff_ne]
    rintro rfl
    exact absurd (List.contains_iff_mem.2 hd) (by rw [hplain.2]; exact Bool.false_ne_true)
  simp only [indicators, List.forall_mem_cons] at hne
  simp only [token, hne, documentMarkerAhead_tame h, plainStarts, hplain.1, hplain.2,
    Bool.and_false, Bool.false_and, Bool.not_false, Bool.true_and, Bool.false_eq_true, if_false,
    Bool.or_false, if_true]

/-- A word: some tame characters. -/
def IsWord (w : String) : Prop := w.toList ≠ [] ∧ ∀ c ∈ w.toList, IsTame c

instance (w : String) : Decidable (IsWord w) :=
  decidable_of_iff (w.toList ≠ [] ∧ w.toList.all (fun c => decide (IsTame c)) = true) (by
    rw [IsWord, List.all_eq_true]
    simp only [decide_eq_true_eq])

theorem IsWord.cons {w : String} (h : IsWord w) :
    ∃ c cs, w.toList = c :: cs ∧ IsTame c := by
  obtain ⟨c, cs, hcons⟩ := List.exists_cons_of_ne_nil h.1
  exact ⟨c, cs, hcons, h.2 c (hcons ▸ List.mem_cons_self ..)⟩

@[simp]
theorem Mark.forward_forward (m : Mark) (a b : Nat) :
    (m.forward a).forward b = m.forward (a + b) := by
  simp only [Mark.forward, Nat.add_assoc]

theorem Visible.over {c : Char} (h : Visible c) (m : Mark) : m.over c = m.forward 1 := by
  rw [Mark.over, h.width, Mark.forward]

/-! ### Words -/

section Words

variable {indent : Nat} {acc cs : List Char} {m : Mark}

/-- A plain scalar goes on over a word. -/
theorem readPlain_word {w : List Char} (hw : ∀ c ∈ w, IsTame c) :
    readPlain false indent acc Gap.none m (w ++ cs) =
      readPlain false indent (w.reverse ++ acc) Gap.none (m.forward w.length) cs := by
  induction w generalizing acc m with
  | nil => rfl
  | cons c w ih =>
    obtain ⟨hc, hw⟩ := List.forall_mem_cons.1 hw
    have hv := hc.visible
    have hmisplaced : colonMisplaced false (c :: (w ++ cs)) = false := by
      rw [colonMisplaced]
      exact fun d ds he => hv.noColon (List.cons.inj he).1
    have hends : plainEnds false (c :: (w ++ cs)) = false := by
      rw [plainEnds, beq_eq_false_iff_ne.2 hv.noColon]
      rfl
    rw [List.cons_append, readPlain, if_neg (by simp [hv.noBreak]), if_neg (by simp [hv.noBlank]),
      if_neg (by simp [Gap.none, Gap.isEmpty]), if_neg (by simp [hmisplaced]),
      if_neg (by simp [hends]), hv.over, ih hw]
    · simp [Gap.none, Gap.fold, Nat.add_comm]
    · exact fun ds he _ => hv.noReturn he

/-- A key ends before its colon. -/
theorem readPlain_colon (hgap : gapAhead cs = true) :
    readPlain false indent acc Gap.none m (':' :: cs) =
      some (plainDone acc Gap.none m (':' :: cs)) := by
  have hmisplaced : colonMisplaced false (':' :: cs) = false := by
    cases cs <;> rfl
  have hends : plainEnds false (':' :: cs) = true := by
    simp [plainEnds, hgap]
  rw [readPlain, if_neg (by decide), if_neg (by decide), if_neg (by simp [Gap.none, Gap.isEmpty]),
    if_neg (by simp [hmisplaced]), if_pos hends]
  exact fun ds he _ => absurd he (by decide)

/-- Over a line break and blanks a plain scalar goes on without text. -/
theorem readPlain_indentation {later : List Char} (n : Nat) :
    readPlain false indent acc (.lines (some '\n') later) m (List.replicate n ' ' ++ cs) =
      readPlain false indent acc (.lines (some '\n') later) (m.forward n) cs := by
  induction n generalizing m with
  | zero => rfl
  | succ n ih =>
    rw [List.replicate_succ, List.cons_append, readPlain, if_neg (by decide), if_pos (by decide),
      if_neg (by simp), Gap.addBlank, show m.over ' ' = m.forward 1 from rfl, ih,
      Mark.forward_forward, Nat.add_comm 1 n]
    exact fun ds he _ => absurd he (by decide)

/-- A value ends before a line that is not indented deeper. -/
theorem readPlain_dedent {later : List Char}
    (hcs : ∀ c ds, cs = c :: ds → IsTame c ∧ m.column < indent) :
    readPlain false indent acc (.lines (some '\n') later) m cs =
      some (plainDone acc (.lines (some '\n') later) m cs) := by
  cases cs with
  | nil => rfl
  | cons c ds =>
    obtain ⟨hc, hcolumn⟩ := hcs c ds rfl
    have hv := hc.visible
    rw [readPlain, if_neg (by simp [hv.noBreak]), if_neg (by simp [hv.noBlank]),
      if_pos (by simp [Gap.isEmpty, hcolumn])]
    exact fun ds he _ => hv.noReturn he

/-- The way to the next token goes over blanks. -/
theorem skipBlanks_indentation (allowed : Bool) (n : Nat) :
    skipBlanks false allowed false m (List.replicate n ' ' ++ cs) =
      skipBlanks false allowed false (m.forward n) cs := by
  induction n generalizing m with
  | zero => rfl
  | succ n ih =>
    rw [List.replicate_succ, List.cons_append, skipBlanks, if_neg (by decide), if_neg (by decide),
      if_pos (by simp), ih, Mark.forward_forward, Nat.add_comm 1 n]
    exact fun ds he _ => absurd he (by decide)

/-- A new line may start a key. -/
theorem skipBlanks_break (allowed : Bool) :
    skipBlanks false allowed false m ('\n' :: cs) =
      skipBlanks false true false (m.newLine 1) cs := by
  rw [skipBlanks, if_pos (by decide), Bool.not_false, Bool.or_true]
  · rfl
  · exact fun ds he _ => absurd he (by decide)

/-- The way to the next token ends where something visible stands. -/
theorem skipBlanks_visible (allowed : Bool)
    (hcs : ∀ c ds, cs = c :: ds → IsTame c ∨ c = ':') :
    skipBlanks false allowed false m cs = (allowed, m, cs) := by
  cases cs with
  | nil => rfl
  | cons c ds =>
    have hplain : isBreak c = false ∧ c ≠ ' ' ∧ c ≠ '\t' ∧ c ≠ '#' ∧ c ≠ '\uFEFF' ∧ c ≠ '\r' := by
      rcases hcs c ds rfl with hc | rfl
      · exact hc.elim (P := fun c => isBreak c = false ∧ c ≠ ' ' ∧ c ≠ '\t' ∧ c ≠ '#' ∧
          c ≠ '\uFEFF' ∧ c ≠ '\r') (by decide)
      · decide
    obtain ⟨hbreak, hspace, htab, hcomment, hmark, hreturn⟩ := hplain
    rw [skipBlanks, if_neg (by simp [hbreak]), if_neg (by simp), if_neg (by simp [hspace, htab]),
      if_neg (by simp [hcomment]), if_neg (by simp [hmark])]
    exact fun ds he _ => hreturn he

end Words

/-! ### Lines -/

/-- A line: a key at a column, with a plain value or without one. -/
structure Line where
  column : Nat
  key : String
  value : Option String
  deriving DecidableEq, Repr

/-- The column at which lines start. -/
def firstColumn : List Line → Nat
  | [] => 0
  | l :: _ => l.column

/-- What stands behind the colon of a line. -/
def Line.valueText (l : Line) : List Char := l.value.elim [] fun v => ' ' :: v.toList

mutual

/-- The text of lines. -/
def linesText : List Line → List Char
  | [] => []
  | l :: ls => List.replicate l.column ' ' ++ contentText (l :: ls)

/-- The text of lines without the indentation of the first one. -/
def contentText : List Line → List Char
  | [] => []
  | l :: ls => l.key.toList ++ ':' :: (l.valueText ++ '\n' :: linesText ls)

end

theorem linesText_eq (ls : List Line) :
    linesText ls = List.replicate (firstColumn ls) ' ' ++ contentText ls := by
  cases ls <;> simp [linesText, contentText, firstColumn]

/-- Keys and values are words, and keys are not too long. -/
structure Line.Plain (l : Line) : Prop where
  key : IsWord l.key
  short : l.key.length ≤ 1024
  value : ∀ v, l.value = some v → IsWord v

/-- Plain lines, of which none is indented deeper than the one above if that has a value. -/
inductive Fits : List Line → Prop
  | nil : Fits []
  | cons {l : Line} {ls : List Line} (plain : l.Plain)
    (next : l.value ≠ none → firstColumn ls ≤ l.column) (rest : Fits ls) : Fits (l :: ls)

/-- The tokens of a line. -/
def Line.tokens (l : Line) : Array Token :=
  #[.key, .scalar .plain l.key, .value] ++ (l.value.map (Token.scalar .plain)).toArray

/-- The open blocks with the tokens so far. -/
structure Blocks where
  indent : Nat := 0
  indents : List Nat := []
  tokens : Array Token := #[]

namespace Blocks

/-- Close the blocks that are indented deeper than `level` (one more than a column). -/
def close (level : Nat) (b : Blocks) : Blocks :=
  let (indent, indents, tokens) := Scanner.closeBlocks level b.indent b.indents b.tokens
  ⟨indent, indents, tokens⟩

/-- No block is indented deeper than `level`. -/
def Settled (level : Nat) (b : Blocks) : Prop := b.indents = [] ∨ b.indent ≤ level

/-- Open a block at a column if it is deeper than all that are open. -/
def openAt (column : Nat) (b : Blocks) : Blocks :=
  if column + 1 ≤ b.indent then b
  else ⟨column + 1, b.indent :: b.indents, b.tokens.push .blockMappingStart⟩

/-- Append tokens. -/
def append (ts : Array Token) (b : Blocks) : Blocks := { b with tokens := b.tokens ++ ts }

theorem close_cons (level indent outer : Nat) (indents : List Nat) (tokens : Array Token) :
    close level ⟨indent, outer :: indents, tokens⟩ =
      if level < indent then close level ⟨outer, indents, tokens.push .blockEnd⟩
      else ⟨indent, outer :: indents, tokens⟩ := by
  simp only [close, Scanner.closeBlocks]
  split <;> rfl

theorem close_settled (level : Nat) (b : Blocks) : (b.close level).Settled level := by
  obtain ⟨indent, indents, tokens⟩ := b
  induction indents generalizing indent tokens with
  | nil => exact .inl rfl
  | cons outer indents ih =>
    rw [close_cons]
    split
    · exact ih outer (tokens.push .blockEnd)
    · next h => exact .inr (Nat.not_lt.1 h)

theorem close_of_settled {level : Nat} {b : Blocks} (h : b.Settled level) :
    b.close level = b := by
  obtain ⟨indent, indents, tokens⟩ := b
  cases indents with
  | nil => rfl
  | cons outer indents =>
    have hle : indent ≤ level := h.resolve_left (List.cons_ne_nil _ _)
    rw [close_cons, if_neg (Nat.not_lt.2 hle)]

theorem Settled.mono {level level' : Nat} {b : Blocks} (h : b.Settled level)
    (hle : level ≤ level') : b.Settled level' := h.imp_right fun h => Nat.le_trans h hle

/-- What is closed on the way is closed in the end. -/
theorem close_close {level level' : Nat} (hle : level ≤ level') (b : Blocks) :
    (b.close level').close level = b.close level := by
  obtain ⟨indent, indents, tokens⟩ := b
  induction indents generalizing indent tokens with
  | nil => rfl
  | cons outer indents ih =>
    rw [close_cons level']
    by_cases hdeep : level' < indent
    · rw [if_pos hdeep, ih, close_cons level, if_pos (Nat.lt_of_le_of_lt hle hdeep)]
    · rw [if_neg hdeep]

theorem append_append (b : Blocks) (ts us : Array Token) :
    (b.append ts).append us = b.append (ts ++ us) := by
  rw [append, append, append, Array.append_assoc]

/-- After a block has been opened at a column, none is deeper, and the innermost is there or
deeper. -/
theorem openAt_settled {column : Nat} {b : Blocks} (h : b.Settled (column + 1)) :
    (b.openAt column).Settled (column + 1) ∧ column + 1 ≤ (b.openAt column).indent := by
  rw [openAt]
  split
  · next hle => exact ⟨h, hle⟩
  · exact ⟨.inr (Nat.le_refl _), Nat.le_refl _⟩

end Blocks

/-- What a line adds to the tokens: the blocks that end before it, the block that starts with it,
and its own tokens. -/
def Line.scan (b : Blocks) (l : Line) : Blocks :=
  ((b.close (l.column + 1)).openAt l.column).append l.tokens

/-! ### Reading a line -/

/-- Tokens that come before others go between those before and those behind. -/
theorem insert_append {α : Type} (t u : Array α) (x : α) :
    (t ++ u).insertIdxIfInBounds t.size x = t ++ (#[x] ++ u) := by
  have hle : t.size ≤ (t ++ u).size := by
    rw [Array.size_append]
    omega
  have hlist : ∀ l r : List α, (l ++ r).insertIdx l.length x = l ++ x :: r := by
    intro l r
    induction l with
    | nil => rfl
    | cons y l ih => rw [List.cons_append, List.length_cons, List.insertIdx_succ_cons, ih]; rfl
  rw [Array.insertIdxIfInBounds, dif_pos hle]
  apply Array.ext'
  rw [Array.toList_insertIdx, Array.toList_append, ← Array.length_toList, hlist]
  simp

/-- A scanner outside of brackets, between two lines or behind the colon of one. -/
def Blocks.scanner (b : Blocks) (rest : List Char) (m : Mark) (allowed : Bool) : Scanner where
  rest := rest
  mark := m
  tokens := b.tokens
  indent := b.indent
  indents := b.indents
  keyAllowed := allowed

namespace Scanner

variable {b : Blocks} {rest rest' cs : List Char} {m m' : Mark} {allowed allowed' : Bool}

/-- On the way to a token the blocks that end there are closed. -/
theorem approach_scanner
    (hskip : skipBlanks false allowed false m rest = (allowed', m', rest')) :
    (b.scanner rest m allowed).approach =
      some ((b.close (m'.column + 1)).scanner rest' m' allowed') := by
  have hflow : (b.scanner rest m allowed).inFlow = false := rfl
  rw [approach, hflow]
  simp only [Blocks.scanner, hskip]
  rfl

/-- A key is read, and its place is kept. -/
theorem plainScalar_key {key : String} (hkey : IsWord key) (hgap : gapAhead cs = true) :
    (b.scanner (key.toList ++ ':' :: cs) m true).plainScalar =
      some { (b.append #[.scalar .plain key]).scanner (':' :: cs) (m.forward key.length) false with
        spot := some ⟨b.tokens.size, m, b.indent == m.column + 1⟩ } := by
  have hread : readPlain false b.indent [] Gap.none m (key.toList ++ ':' :: cs) =
      some (plainDone key.toList.reverse Gap.none (m.forward key.length) (':' :: cs)) := by
    rw [readPlain_word hkey.2, List.append_nil, readPlain_colon hgap, String.length_toList]
  simp only [plainScalar, noteSpot, dropSpot, Blocks.scanner, inFlow, allowKey]
  simp only [if_true, Option.bind_eq_bind, Option.bind_some, Option.pure_def, List.isEmpty_nil,
    Bool.not_true, hread]
  simp [plainDone, take, emit, Gap.none, Gap.hasBreak, Blocks.append]

/-- The colon of a key is near enough. -/
theorem approach_key {n : Nat} (hn : n ≤ 1024) (required : Bool) (place : Nat)
    (hb : b.Settled (m.column + n + 1)) :
    let s := { b.scanner (':' :: cs) (m.forward n) false with spot := some ⟨place, m, required⟩ }
    s.approach = some s := by
  have hskip : skipBlanks false false false (m.forward n) (':' :: cs) =
      (false, m.forward n, ':' :: cs) :=
    skipBlanks_visible false fun c ds he => .inr (List.cons.inj he).1.symm
  have hstale : KeySpot.isStale (m.forward n) ⟨place, m, required⟩ = false := by
    rw [KeySpot.isStale, Bool.or_eq_false_iff, decide_eq_false_iff_not, decide_eq_false_iff_not]
    simp only [Mark.forward]
    omega
  have hclose := Blocks.close_of_settled hb
  have hblocks : closeBlocks (m.column + n + 1) b.indent b.indents b.tokens =
      (b.indent, b.indents, b.tokens) :=
    Prod.ext (congrArg Blocks.indent hclose)
      (Prod.ext (congrArg Blocks.indents hclose) (congrArg Blocks.tokens hclose))
  simp only [approach, Blocks.scanner, inFlow, List.isEmpty_nil, Bool.not_true, hskip, refreshSpots,
    refresh, hstale, Bool.false_eq_true, if_false, Option.bind_eq_bind, Option.bind_some,
    Option.pure_def, List.mapM_nil, unrollTo]
  simp only [show (m.forward n).column + 1 = m.column + n + 1 from rfl, hblocks]

/-- The colon opens a block where its key is deeper than all that are open. -/
theorem colon_key {key : String} {n : Nat} (required : Bool) :
    let s := { (b.append #[.scalar .plain key]).scanner (':' :: cs) (m.forward n) false with
      spot := some ⟨b.tokens.size, m, required⟩ }
    s.colon = some (((b.openAt m.column).append #[.key, .scalar .plain key, .value]).scanner cs
      (m.forward (n + 1)) false) := by
  have hkey : (b.tokens ++ #[Token.scalar .plain key]).insertIdxIfInBounds b.tokens.size .key =
      b.tokens ++ #[Token.key, .scalar .plain key] := insert_append ..
  have hblock : (b.tokens ++ #[Token.key, .scalar .plain key]).insertIdxIfInBounds b.tokens.size
      .blockMappingStart = b.tokens ++ #[Token.blockMappingStart, .key, .scalar .plain key] :=
    insert_append ..
  simp only [colon, Blocks.scanner, Blocks.append, hkey, openBlock, inFlow, List.isEmpty_nil,
    Bool.not_true, Bool.false_or, Blocks.openAt]
  by_cases hdeep : m.column + 1 ≤ b.indent
  · simp [hdeep, allowKey, forward, emit, Mark.forward_forward]
  · simp [hdeep, allowKey, forward, emit, Mark.forward_forward, hblock]

/-- A value is read to the start of the next line. -/
theorem plainScalar_value {v : String} (hv : IsWord v) {ls : List Line}
    (hls : ∀ c ds, contentText ls = c :: ds → IsTame c) (hdedent : firstColumn ls < b.indent) :
    (b.scanner (v.toList ++ '\n' :: linesText ls) m false).plainScalar =
      some ((b.append #[.scalar .plain v]).scanner (contentText ls)
        (((m.forward v.length).newLine 1).forward (firstColumn ls)) true) := by
  have hread : readPlain false b.indent [] Gap.none m (v.toList ++ '\n' :: linesText ls) =
      some (plainDone v.toList.reverse (.lines (some '\n') [])
        (((m.forward v.length).newLine 1).forward (firstColumn ls)) (contentText ls)) := by
    rw [readPlain_word hv.2, List.append_nil, String.length_toList, readPlain, if_pos (by decide)]
    · rw [linesText_eq]
      show readPlain false b.indent v.toList.reverse (.lines (some '\n') []) _ _ = _
      rw [readPlain_indentation, readPlain_dedent]
      · rfl
      · exact fun c ds he => ⟨hls c ds he, by simpa [Mark.newLine, Mark.forward] using hdedent⟩
    · exact fun ds he _ => absurd he (by decide)
  simp only [plainScalar, noteSpot, Blocks.scanner, inFlow, allowKey, Bool.false_eq_true, if_false,
    Option.bind_eq_bind, Option.bind_some, Option.pure_def, List.isEmpty_nil, Bool.not_true, hread]
  simp [plainDone, take, emit, Gap.hasBreak, Blocks.append]

/-- A colon before a gap belongs to a key. -/
theorem token_colon (s : Scanner) (hgap : gapAhead cs = true) : s.token ':' cs = s.colon := by
  have hmarker : documentMarkerAhead (':' :: cs) = false := by
    rw [documentMarkerAhead] <;> exact fun _ he => absurd (List.cons.inj he).1 (by decide)
  simp only [token, hmarker, hgap]
  simp

/-- One token is read. -/
theorem run_token {s s' s'' : Scanner} {c : Char} (happroach : s.approach = some s')
    (hrest : s'.rest = c :: cs) (htoken : s'.token c cs = some s'') (fuel : Nat) :
    run (fuel + 1) s = run fuel s'' := by
  simp only [run, happroach, Option.bind_eq_bind, Option.bind_some, hrest, htoken]

/-- A key and its colon are read, and deeper blocks end before it. -/
theorem run_key {key : String} (hkey : IsWord key) (hshort : key.length ≤ 1024)
    (hgap : gapAhead cs = true)
    (hskip : skipBlanks false allowed false m rest = (true, m', key.toList ++ ':' :: cs))
    (fuel : Nat) :
    run (fuel + 2) (b.scanner rest m allowed) = run fuel
      ((((b.close (m'.column + 1)).openAt m'.column).append
        #[.key, .scalar .plain key, .value]).scanner cs (m'.forward (key.length + 1)) false) := by
  obtain ⟨k, ks, hchars, hk⟩ := hkey.cons
  let closed := b.close (m'.column + 1)
  have hrest : key.toList ++ ':' :: cs = k :: (ks ++ ':' :: cs) := by
    rw [hchars, List.cons_append]
  have hword : run (fuel + 2) (b.scanner rest m allowed) = run (fuel + 1)
      { (closed.append #[.scalar .plain key]).scanner (':' :: cs) (m'.forward key.length) false with
        spot := some ⟨closed.tokens.size, m', closed.indent == m'.column + 1⟩ } := by
    refine run_token (approach_scanner hskip) hrest ?_ (fuel + 1)
    rw [token_tame _ hk]
    exact plainScalar_key hkey hgap
  have hsettled : (closed.append #[.scalar .plain key]).Settled (m'.column + key.length + 1) :=
    Blocks.Settled.mono (b.close_settled (m'.column + 1)) (by omega)
  rw [hword]
  refine run_token (approach_key hshort _ _ hsettled) rfl ?_ fuel
  rw [token_colon _ hgap]
  exact colon_key _

/-- A value is read to the start of the next line. -/
theorem run_value {v : String} (hv : IsWord v) {ls : List Line}
    (hls : ∀ c ds, contentText ls = c :: ds → IsTame c) (hb : b.Settled (m.column + 2))
    (hdedent : firstColumn ls < b.indent) (fuel : Nat) :
    run (fuel + 1) (b.scanner (' ' :: (v.toList ++ '\n' :: linesText ls)) m false) = run fuel
      ((b.append #[.scalar .plain v]).scanner (contentText ls)
        ((((m.forward 1).forward v.length).newLine 1).forward (firstColumn ls)) true) := by
  obtain ⟨u, us, hchars, hu⟩ := hv.cons
  have hrest : v.toList ++ '\n' :: linesText ls = u :: (us ++ '\n' :: linesText ls) := by
    rw [hchars, List.cons_append]
  have hblank : skipBlanks false false false m (' ' :: (v.toList ++ '\n' :: linesText ls)) =
      (false, m.forward 1, v.toList ++ '\n' :: linesText ls) := by
    have hvisible := skipBlanks_visible (m := m.forward 1) false fun c ds he =>
      .inl ((List.cons.inj (hrest.symm.trans he)).1 ▸ hu)
    rw [← hvisible]
    exact skipBlanks_indentation false 1
  have happroach := approach_scanner (b := b) hblank
  rw [show (m.forward 1).column + 1 = m.column + 2 from rfl,
    Blocks.close_of_settled hb] at happroach
  refine run_token happroach hrest ?_ fuel
  rw [token_tame _ hu]
  exact plainScalar_value hv hls hdedent

end Scanner

/-! ### Reading lines -/

/-- The tokens that are read one at a time: a key, its colon and its value. -/
def Line.steps (l : Line) : Nat := 2 + l.value.toList.length

theorem Fits.visible {ls : List Line} (h : Fits ls) :
    ∀ c ds, contentText ls = c :: ds → IsTame c := by
  intro c ds he
  cases h with
  | nil =>
    rw [contentText] at he
    exact nomatch he
  | @cons l ls plain next rest =>
    obtain ⟨k, ks, hkey, hk⟩ := plain.key.cons
    rw [contentText, hkey, List.cons_append] at he
    exact (List.cons.inj he).1 ▸ hk

/-- **One line.** It adds what it should, and the next line is to follow. -/
theorem Scanner.run_line {l : Line} {ls : List Line} (hfits : Fits (l :: ls)) {b : Blocks}
    {rest : List Char} {m m' : Mark} {allowed : Bool} (fuel : Nat)
    (hskip : skipBlanks false allowed false m rest = (true, m', contentText (l :: ls)))
    (hcolumn : m'.column = l.column) :
    ∃ rest' m₁ m₂ allowed', m₂.column = firstColumn ls ∧
      skipBlanks false allowed' false m₁ rest' = (true, m₂, contentText ls) ∧
      run (fuel + l.steps) (b.scanner rest m allowed) =
        run fuel ((l.scan b).scanner rest' m₁ allowed') := by
  cases hfits with
  | @cons l ls plain next hls =>
    have hgap : gapAhead (l.valueText ++ '\n' :: linesText ls) = true := by
      cases hvalue : l.value <;> simp [Line.valueText, hvalue, gapAhead, isGap, isBlank, isBreak]
    rw [contentText] at hskip
    let opened := ((b.close (l.column + 1)).openAt l.column).append
      #[.key, .scalar .plain l.key, .value]
    obtain ⟨hopened, hdeep⟩ := Blocks.openAt_settled (b.close_settled (l.column + 1))
    let behind := m'.forward (l.key.length + 1)
    have hkey : ∀ n, run (n + 2) (b.scanner rest m allowed) =
        run n (opened.scanner (l.valueText ++ '\n' :: linesText ls) behind false) := by
      intro n
      rw [run_key plain.key plain.short hgap hskip, hcolumn]
    have hvisible : ∀ m, skipBlanks false true false m (contentText ls) =
        (true, m, contentText ls) := fun m =>
      skipBlanks_visible true fun c ds he => .inl (hls.visible c ds he)
    cases hvalue : l.value with
    | none =>
      have hscan : l.scan b = opened := by
        simp [Line.scan, Line.tokens, hvalue, opened]
      have htext : l.valueText = [] := by
        rw [Line.valueText, hvalue, Option.elim_none]
      rw [htext, List.nil_append] at hkey
      refine ⟨'\n' :: linesText ls, behind, (behind.newLine 1).forward (firstColumn ls), false,
        Nat.zero_add _, ?_, ?_⟩
      · rw [skipBlanks_break, linesText_eq, skipBlanks_indentation, hvisible]
      · rw [show fuel + l.steps = fuel + 2 by simp [Line.steps, hvalue], hkey, hscan]
    | some v =>
      have hscan : l.scan b = opened.append #[.scalar .plain v] := by
        rw [Blocks.append_append]
        simp [Line.scan, Line.tokens, hvalue]
      have htext : l.valueText ++ '\n' :: linesText ls =
          ' ' :: (v.toList ++ '\n' :: linesText ls) := by
        rw [Line.valueText, hvalue, Option.elim_some, List.cons_append]
      have hdedent : firstColumn ls < opened.indent :=
        Nat.lt_of_le_of_lt (next (by simp [hvalue])) hdeep
      have hsettled : opened.Settled (behind.column + 2) := by
        refine Blocks.Settled.mono hopened ?_
        show l.column + 1 ≤ m'.column + (l.key.length + 1) + 2
        omega
      rw [htext] at hkey
      let nextLine := (((behind.forward 1).forward v.length).newLine 1).forward (firstColumn ls)
      refine ⟨contentText ls, nextLine, nextLine, true, Nat.zero_add _, hvisible nextLine, ?_⟩
      rw [show fuel + l.steps = fuel + 1 + 2 by simp [Line.steps, hvalue], hkey,
        run_value (plain.value v hvalue) hls.visible hsettled hdedent, hscan]

/-- Nothing is left to read: all blocks are closed. -/
theorem Scanner.run_end {b : Blocks} {rest : List Char} {m m' : Mark} {allowed : Bool} (fuel : Nat)
    (hskip : skipBlanks false allowed false m rest = (true, m', [])) :
    (run (fuel + 1) (b.scanner rest m allowed)).map (·.tokens) = some (b.close 0).tokens := by
  have happroach := approach_scanner (b := b) hskip
  have hclosed : ((b.close (m'.column + 1)).close 0).tokens = (b.close 0).tokens :=
    congrArg Blocks.tokens (Blocks.close_close (Nat.zero_le _) b)
  rw [← hclosed]
  simp only [run, happroach, Option.bind_eq_bind, Option.bind_some]
  rfl

/-- The steps to read lines. -/
def lineSteps (ls : List Line) : Nat := (ls.map Line.steps).sum

/-- **All lines.** They add what each one adds, and the blocks are closed in the end. -/
theorem Scanner.run_lines {ls : List Line} (hfits : Fits ls) {b : Blocks} {rest : List Char}
    {m m' : Mark} {allowed : Bool} (fuel : Nat)
    (hskip : skipBlanks false allowed false m rest = (true, m', contentText ls))
    (hcolumn : m'.column = firstColumn ls) :
    (run (fuel + 1 + lineSteps ls) (b.scanner rest m allowed)).map (·.tokens) =
      some ((ls.foldl Line.scan b).close 0).tokens := by
  induction ls generalizing b rest m m' allowed with
  | nil =>
    rw [contentText] at hskip
    exact run_end fuel hskip
  | cons l ls ih =>
    obtain ⟨rest', m₁, m₂, allowed', hcolumn₂, hskip₂, hrun⟩ :=
      run_line hfits (fuel + 1 + lineSteps ls) hskip hcolumn
    have hsteps : fuel + 1 + lineSteps (l :: ls) = fuel + 1 + lineSteps ls + l.steps := by
      simp only [lineSteps, List.map_cons, List.sum_cons]
      omega
    rw [hsteps, hrun, List.foldl_cons]
    cases hfits with
    | cons plain next rest => exact ih rest hskip₂ hcolumn₂

theorem Fits.printable {ls : List Line} (h : Fits ls) :
    (linesText ls).all isPrintable = true := by
  have hword : ∀ {w : String}, IsWord w → w.toList.all isPrintable = true := fun hw =>
    List.all_eq_true.2 fun c hc => (hw.2 c hc).visible.printable
  induction h with
  | nil => rw [linesText]; rfl
  | @cons l ls plain next rest ih =>
    have hvalue : l.valueText.all isPrintable = true := by
      rw [Line.valueText]
      cases hvalue : l.value with
      | none => rfl
      | some v => simpa using ⟨by decide, List.all_eq_true.1 (hword (plain.value v hvalue))⟩
    rw [linesText, contentText, List.all_append, List.all_append, hword plain.key, List.all_cons,
      List.all_append, hvalue, List.all_cons, ih]
    simp only [List.all_replicate, Bool.true_and, Bool.and_true]
    split
    · rfl
    · decide

/-- Each token takes a character. -/
theorem Fits.steps_le {ls : List Line} (h : Fits ls) : lineSteps ls ≤ (linesText ls).length := by
  have hword : ∀ {w : String}, IsWord w → 1 ≤ w.toList.length := fun hw =>
    List.length_pos_iff.2 hw.1
  induction h with
  | nil => exact Nat.zero_le _
  | @cons l ls plain next rest ih =>
    have hkey := hword plain.key
    have hvalue : l.value.toList.length ≤ l.valueText.length := by
      rw [Line.valueText]
      cases l.value <;> simp
    simp only [lineSteps, List.map_cons, List.sum_cons, Line.steps, linesText, contentText,
      List.length_append, List.length_cons] at ih ⊢
    omega

/-- **The tokens of lines** are those that the lines add one after the other. -/
theorem tokens?_lines {ls : List Line} (h : Fits ls) :
    tokens? (String.ofList (linesText ls)) =
      some ((ls.foldl Line.scan {}).close 0).tokens.toList := by
  obtain ⟨fuel, hfuel⟩ := Nat.exists_eq_add_of_le h.steps_le
  have hskip : skipBlanks false true false {} (linesText ls) =
      (true, Mark.forward {} (firstColumn ls), contentText ls) := by
    rw [linesText_eq, skipBlanks_indentation,
      skipBlanks_visible true fun c ds he => .inl (h.visible c ds he)]
  have hrun := Scanner.run_lines h (b := {}) fuel hskip (Nat.zero_add _)
  have hsteps : (linesText ls).length + 1 = fuel + 1 + lineSteps ls := by omega
  simp only [tokens?, String.toList_ofList, h.printable, if_true, hsteps]
  rw [← Option.map_some, ← hrun, Option.map_map]
  rfl

end ReplicaRing.Yaml

import ReplicaRing.Proofs.BlockLines
import ReplicaRing.Yaml.Document

/-!
# Documents in block style

The document of a text in which the entries of a mapping stand one below the other, those of an
inner mapping indented by two.

* `Entries` — entries with their lines, their tokens and the nodes that they stand for;
* `Entries.scans` — lines add the tokens of their entries;
* `readBlockPairs_tokens` — these tokens are read as the entries;
* `Stream.ofText?_text` — the document of a text in block style.
-/

namespace ReplicaRing.Yaml

/-- The entries of a mapping: a key with a plain value or without one, or a key with entries of
its own, and the entries that follow. -/
inductive Entries where
  | nil
  | setting (key : String) (value : Option String) (rest : Entries)
  | inner (key : String) (es rest : Entries)
  deriving Repr

/-- The node of a plain value or of an omitted one. -/
def Node.ofValue (value : Option String) : Node := .scalar .plain none (value.getD "")

/-- A setting as an entry of a mapping. -/
def settingEntry (s : String × Node) : Node × Node := (.scalar .plain none s.1, s.2)

/-- The node of a mapping in block style, whose keys are plain; one without entries is omitted. -/
def Node.ofSettings (settings : List (String × Node)) : Node :=
  if settings.isEmpty then .omitted
  else .mapping (settings.map settingEntry)

theorem resolve_ofSettings (d : Document) (settings : List (String × Node)) :
    d.resolve (.ofSettings settings) = .ofSettings settings := by
  rw [Node.ofSettings]
  split <;> rfl

/-- The tokens of a mapping in block style; one without entries has none. -/
def blockTokens (ts : List Token) : List Token :=
  if ts.isEmpty then [] else .blockMappingStart :: (ts ++ [.blockEnd])

/-- The tokens of a key. -/
def keyTokens (key : String) : List Token := [.key, .scalar .plain key, .value]

namespace Entries

/-- The lines of entries at a column. -/
def lines (column : Nat) : Entries → List Line
  | nil => []
  | setting key value rest => ⟨column, key, value⟩ :: rest.lines column
  | inner key es rest => ⟨column, key, none⟩ :: (es.lines (column + 2) ++ rest.lines column)

/-- The text of entries. -/
def text (es : Entries) : String := String.ofList (linesText (es.lines 0))

/-- The tokens of entries. -/
def tokens : Entries → List Token
  | nil => []
  | setting key value rest => keyTokens key ++ (value.toList.map (.scalar .plain) ++ rest.tokens)
  | inner key es rest => keyTokens key ++ (blockTokens es.tokens ++ rest.tokens)

/-- The keys of entries with the nodes of their values. -/
def settings : Entries → List (String × Node)
  | nil => []
  | setting key value rest => (key, .ofValue value) :: rest.settings
  | inner key es rest => (key, .ofSettings es.settings) :: rest.settings

/-- Keys and values are words, and keys are not too long. -/
def Plain : Entries → Prop
  | nil => True
  | setting key value rest => (Line.mk 0 key value).Plain ∧ rest.Plain
  | inner key es rest => (Line.mk 0 key none).Plain ∧ es.Plain ∧ rest.Plain

/-! ### Tokens -/

theorem firstColumn_lines (es : Entries) {column : Nat} {ls : List Line}
    (hls : firstColumn ls ≤ column) : firstColumn (es.lines column ++ ls) ≤ column := by
  cases es with
  | nil => exact hls
  | setting key value rest => exact Nat.le_refl _
  | inner key es rest => exact Nat.le_refl _

theorem Plain.fits {es : Entries} (h : es.Plain) {column : Nat} {ls : List Line} (hls : Fits ls)
    (hnext : firstColumn ls ≤ column) : Fits (es.lines column ++ ls) := by
  induction es generalizing column ls with
  | nil => exact hls
  | setting key value rest ih =>
    refine .cons ⟨h.1.key, h.1.short, h.1.value⟩ (fun _ => ?_) (ih h.2 hls hnext)
    exact rest.firstColumn_lines hnext
  | inner key es rest ihes ih =>
    rw [lines, List.cons_append, List.append_assoc]
    refine .cons ⟨h.1.key, h.1.short, h.1.value⟩ (fun hne => absurd rfl hne) ?_
    have hrest : firstColumn (rest.lines column ++ ls) ≤ column := rest.firstColumn_lines hnext
    exact ihes h.2.1 (ih h.2.2 hls hnext) (by omega)

/-- The lines of entries add their tokens to a block at their column. -/
def Scans (es : Entries) : Prop :=
  ∀ (column : Nat) (b c : Blocks), b.close (column + 1) = c → c.indent = column + 1 →
    ((es.lines column).foldl Line.scan b).close (column + 1) = c.append es.tokens.toArray

/-- A line inside of an open block adds its own tokens. -/
theorem scan_inside {b c : Blocks} {l : Line} (hb : b.close (l.column + 1) = c)
    (hc : c.indent = l.column + 1) : l.scan b = c.append l.tokens := by
  rw [Line.scan, hb, Blocks.openAt, if_pos (Nat.le_of_eq hc.symm)]

/-- A line that is indented deeper than the open block starts one. -/
theorem scan_open {b : Blocks} {l : Line} (hb : b.indent ≤ l.column) :
    l.scan b =
      l.scan ⟨l.column + 1, b.indent :: b.indents, b.tokens.push .blockMappingStart⟩ := by
  have hstays : b.close (l.column + 1) = b :=
    Blocks.close_of_settled (.inr (Nat.le_succ_of_le hb))
  have hopened : ∀ c : Blocks, c.indent = l.column + 1 → c.close (l.column + 1) = c := fun c hc =>
    Blocks.close_of_settled (.inr (Nat.le_of_eq hc))
  rw [Line.scan, hstays, Blocks.openAt, if_neg (by omega), scan_inside (hopened _ rfl) rfl]

theorem tokens_ne_nil {es : Entries} (h : es ≠ nil) : es.tokens ≠ [] := by
  cases es with
  | nil => exact absurd rfl h
  | setting key value rest => exact List.cons_ne_nil _ _
  | inner key es rest => exact List.cons_ne_nil _ _

theorem blockTokens_of_ne {es : Entries} (h : es ≠ nil) :
    blockTokens es.tokens = .blockMappingStart :: (es.tokens ++ [.blockEnd]) := by
  rw [blockTokens, if_neg (by rw [List.isEmpty_iff]; exact tokens_ne_nil h)]

theorem ofSettings_of_ne {es : Entries} (h : es ≠ nil) :
    Node.ofSettings es.settings =
      .mapping (es.settings.map settingEntry) := by
  cases es with
  | nil => exact absurd rfl h
  | setting key value rest => rfl
  | inner key es rest => rfl

theorem lines_eq_cons {es : Entries} (h : es ≠ nil) (column : Nat) :
    ∃ l ls, es.lines column = l :: ls ∧ l.column = column := by
  cases es with
  | nil => exact absurd rfl h
  | setting key value rest => exact ⟨_, _, rfl, rfl⟩
  | inner key es rest => exact ⟨_, _, rfl, rfl⟩

/-- The lines of entries that are indented deeper than the open block add a block. -/
theorem Scans.block {es : Entries} (h : es.Scans) {column level : Nat} {b : Blocks}
    (hlevel : b.indent ≤ level) (hcolumn : level ≤ column) :
    ((es.lines column).foldl Line.scan b).close level =
      b.append (blockTokens es.tokens).toArray := by
  have hb : b.close level = b := Blocks.close_of_settled (.inr hlevel)
  by_cases hes : es = nil
  · subst hes
    show b.close level = b.append #[]
    rw [hb, Blocks.append, Array.append_empty]
  let c : Blocks := ⟨column + 1, b.indent :: b.indents, b.tokens.push .blockMappingStart⟩
  have hopen : (es.lines column).foldl Line.scan b = (es.lines column).foldl Line.scan c := by
    obtain ⟨l, ls, hlines, rfl⟩ := lines_eq_cons hes column
    rw [hlines, List.foldl_cons, List.foldl_cons, scan_open (Nat.le_trans hlevel hcolumn)]
  have hc : c.close (column + 1) = c := Blocks.close_of_settled (.inr (Nat.le_refl _))
  have hends : ∀ us : Array Token, Blocks.close level ⟨b.indent, b.indents, us⟩ =
      ⟨b.indent, b.indents, us⟩ := fun us => Blocks.close_of_settled (.inr hlevel)
  rw [hopen, ← Blocks.close_close (Nat.le_succ_of_le hcolumn), h column c c hc rfl]
  show Blocks.close level ⟨column + 1, b.indent :: b.indents, c.tokens ++ es.tokens.toArray⟩ = _
  rw [Blocks.close_cons, if_pos (Nat.lt_succ_of_le hcolumn), hends, blockTokens_of_ne hes]
  simp [Blocks.append, c]

/-- **Lines add the tokens of their entries.** -/
theorem scans (es : Entries) : es.Scans := by
  intro column b c hb hc
  induction es generalizing column b c with
  | nil =>
    show b.close (column + 1) = c.append #[]
    rw [hb, Blocks.append, Array.append_empty]
  | setting key value rest ih =>
    let c' := c.append (Line.tokens ⟨column, key, value⟩)
    have hc' : c'.close (column + 1) = c' :=
      Blocks.close_of_settled (.inr (Nat.le_of_eq hc))
    rw [lines, List.foldl_cons, scan_inside hb hc, ih column c' c' hc' hc,
      Blocks.append_append]
    cases value <;> simp [tokens, Line.tokens, keyTokens]
  | inner key es rest ihes ih =>
    let c' := c.append (Line.tokens ⟨column, key, none⟩)
    have hblock : ((es.lines (column + 2)).foldl Line.scan c').close (column + 1) =
        c'.append (blockTokens es.tokens).toArray :=
      Scans.block ihes (Nat.le_of_eq hc) (by omega)
    rw [lines, List.foldl_cons, List.foldl_append, scan_inside hb hc, ih column _ _ hblock hc,
      Blocks.append_append, Blocks.append_append]
    simp [tokens, Line.tokens, keyTokens]

/-- The tokens of a text in block style. -/
theorem Plain.tokens? {es : Entries} (h : es.Plain) :
    tokens? es.text = some (blockTokens es.tokens) := by
  have hfits : Fits (es.lines 0) := by
    rw [← List.append_nil (es.lines 0)]
    exact h.fits .nil (Nat.le_refl _)
  have hblock := es.scans.block (b := {}) (Nat.le_refl 0) (Nat.le_refl 0)
  rw [text, tokens?_lines hfits, hblock]
  simp [Blocks.append]

end Entries

/-! ### Nodes -/

section Nodes

variable {handles : Handles} {anchors : Anchors} {ts : List Token}

/-- A plain scalar is a node. -/
theorem readNode_scalar (block bare : Bool) (fuel : Nat) (style : Style) (text : String) :
    readNode block bare (fuel + 2) ⟨.scalar style text :: ts, handles, anchors⟩ =
      some (.scalar style none text, ⟨ts, handles, anchors⟩) := by
  simp [readNode, readProperties, readContent, Reading.bind, Reading.record, Reading.skip]

/-- A block mapping is a node. -/
theorem readNode_mapping (bare : Bool) {fuel : Nat} {entries : List (Node × Node)} {r : Reading}
    (hentries : readBlockPairs fuel ⟨ts, handles, anchors⟩ = some (entries, r)) :
    readNode true bare (fuel + 2) ⟨.blockMappingStart :: ts, handles, anchors⟩ =
      some (.mapping entries, r) := by
  simp [readNode, readProperties, readContent, Reading.bind, Reading.skip, Reading.record, hentries]

/-- A pair is read with those behind it. -/
theorem readBlockPairs_key {fuel : Nat} {key : String} {n : Node} {us : List Token}
    {entries : List (Node × Node)} {r : Reading}
    (hvalue : readBlockValue (fuel + 2) ⟨.value :: us, handles, anchors⟩ =
      some (n, ⟨ts, handles, anchors⟩))
    (hrest : readBlockPairs (fuel + 2) ⟨ts, handles, anchors⟩ = some (entries, r)) :
    readBlockPairs (fuel + 3) ⟨keyTokens key ++ us, handles, anchors⟩ =
      some ((.scalar .plain none key, n) :: entries, r) := by
  have hkey : endsBlockPair (Token.scalar .plain key :: .value :: us).head? = false := rfl
  rw [readBlockPairs]
  simp only [keyTokens, List.cons_append, List.nil_append, Reading.skip, List.tail_cons, hkey,
    Bool.false_eq_true, if_false, readNode_scalar, Option.bind_eq_bind, Option.bind_some, hvalue,
    hrest, Option.pure_def]

/-- Behind a value the next key stands, or the mapping ends. -/
theorem endsBlockPair_tokens (es : Entries) :
    endsBlockPair (es.tokens ++ .blockEnd :: ts).head? = true := by
  cases es <;> rfl

/-- A plain value is read, or that there is none. -/
theorem readBlockValue_setting (value : Option String) (fuel : Nat)
    (hts : endsBlockPair ts.head? = true) :
    readBlockValue (fuel + 3)
        ⟨.value :: (value.toList.map (.scalar .plain) ++ ts), handles, anchors⟩ =
      some (.ofValue value, ⟨ts, handles, anchors⟩) := by
  cases value with
  | none =>
    rw [readBlockValue]
    simp [hts, Reading.skip, Node.omitted, Node.ofValue]
  | some v =>
    rw [readBlockValue]
    simp [endsBlockPair, readNode_scalar, Reading.skip, Node.ofValue]

/-- A mapping is read as a value, or that there is none. -/
theorem readBlockValue_inner {es : Entries} {fuel : Nat} (hts : endsBlockPair ts.head? = true)
    (hes : es ≠ .nil → readBlockPairs fuel
        ⟨es.tokens ++ .blockEnd :: ts, handles, anchors⟩ =
      some (es.settings.map settingEntry,
        ⟨ts, handles, anchors⟩)) :
    readBlockValue (fuel + 3) ⟨.value :: (blockTokens es.tokens ++ ts), handles, anchors⟩ =
      some (.ofSettings es.settings, ⟨ts, handles, anchors⟩) := by
  rw [readBlockValue]
  by_cases hempty : es = .nil
  · subst hempty
    simp [Entries.tokens, Entries.settings, blockTokens, Node.ofSettings, hts, Reading.skip]
  have hnode := readNode_mapping true (hes hempty)
  simp only [Entries.blockTokens_of_ne hempty, Entries.ofSettings_of_ne hempty, List.cons_append,
    List.append_assoc, List.nil_append, List.head?_cons, endsBlockPair, Reading.skip,
    List.tail_cons, Bool.false_eq_true, if_false, hnode]

/-- **The tokens of entries are read as the entries.** -/
theorem readBlockPairs_tokens (es : Entries) {fuel : Nat} (hfuel : es.tokens.length + 1 ≤ fuel) :
    readBlockPairs fuel ⟨es.tokens ++ .blockEnd :: ts, handles, anchors⟩ =
      some (es.settings.map settingEntry,
        ⟨ts, handles, anchors⟩) := by
  induction es generalizing fuel ts with
  | nil =>
    obtain ⟨fuel, rfl⟩ := Nat.exists_eq_add_of_le' hfuel
    rfl
  | setting key value rest ih =>
    simp only [Entries.tokens, keyTokens, List.length_append, List.length_cons,
      List.length_nil] at hfuel
    obtain ⟨fuel, rfl⟩ := Nat.exists_eq_add_of_le' (show 4 ≤ fuel by omega)
    have hrest : readBlockPairs (fuel + 3) ⟨rest.tokens ++ .blockEnd :: ts, handles, anchors⟩ =
        some (_, ⟨ts, handles, anchors⟩) := ih (by omega)
    rw [Entries.tokens, List.append_assoc, List.append_assoc]
    refine readBlockPairs_key ?_ hrest
    exact readBlockValue_setting value fuel (endsBlockPair_tokens rest)
  | inner key es rest ihes ih =>
    simp only [Entries.tokens, keyTokens, List.length_append, List.length_cons,
      List.length_nil] at hfuel
    obtain ⟨fuel, rfl⟩ := Nat.exists_eq_add_of_le' (show 4 ≤ fuel by omega)
    have hrest : readBlockPairs (fuel + 3) ⟨rest.tokens ++ .blockEnd :: ts, handles, anchors⟩ =
        some (_, ⟨ts, handles, anchors⟩) := ih (by omega)
    rw [Entries.tokens, List.append_assoc, List.append_assoc]
    refine readBlockPairs_key (readBlockValue_inner (endsBlockPair_tokens rest) fun hne => ?_) hrest
    rw [Entries.blockTokens_of_ne hne, List.length_cons, List.length_append,
      List.length_singleton] at hfuel
    exact ihes (by omega)

end Nodes

/-- What a text in block style holds: a mapping, or nothing at all without entries. -/
def Entries.stream : Entries → Stream
  | nil => .empty
  | es => .single ⟨.ofSettings es.settings, {}⟩

theorem Entries.stream_of_ne {es : Entries} (h : es ≠ nil) :
    es.stream = .single ⟨.ofSettings es.settings, {}⟩ := by
  rw [stream]
  exact h

theorem readFirst_blockTokens {es : Entries} (hne : es ≠ .nil) :
    readFirst (blockTokens es.tokens) = some (⟨.ofSettings es.settings, {}⟩, []) := by
  have hlength : es.tokens.length + 1 ≤ 4 * (blockTokens es.tokens).length + 6 := by
    rw [Entries.blockTokens_of_ne hne, List.length_cons, List.length_append]
    omega
  have hpairs : readBlockPairs (4 * (blockTokens es.tokens).length + 6)
      ⟨es.tokens ++ [.blockEnd], standardHandles, {}⟩ = some (_, ⟨[], standardHandles, {}⟩) :=
    readBlockPairs_tokens es hlength
  have hroot := readNode_mapping false hpairs
  rw [← Entries.blockTokens_of_ne hne, ← Entries.ofSettings_of_ne hne] at hroot
  have hstart : ∀ t us, blockTokens es.tokens = t :: us → t = .blockMappingStart := by
    intro t us he
    rw [Entries.blockTokens_of_ne hne] at he
    exact (List.cons.inj he).1.symm
  rw [readFirst, readDocument]
  · simp [hroot]
  · exact fun _ us he => nomatch hstart _ us he
  · exact fun us he => nomatch hstart _ us he

/-- **The document of a text in block style.** -/
theorem Stream.ofText?_text {es : Entries} (h : es.Plain) :
    Stream.ofText? es.text = some es.stream := by
  rw [Stream.ofText?, h.tokens?, Option.bind_eq_bind, Option.bind_some]
  by_cases hempty : es = .nil
  · subst hempty
    rfl
  have hfirst := readFirst_blockTokens hempty
  rw [Entries.stream_of_ne hempty]
  rw [Entries.blockTokens_of_ne hempty] at hfirst ⊢
  simp [hfirst]

end ReplicaRing.Yaml

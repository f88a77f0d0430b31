import ReplicaRing.Proofs.SettingTexts

/-!
# Written configurations

A configuration document lists some settings, its sections in any order and the fields of a
section in any order. It is loaded as the defaults with the listed settings in their place, unless
these are out of range together.

* `Field`, `Layout` — the settings, and which of them a document lists in which order;
* `Config.write` — the document of a layout, of which `Config.render` is a case;
* `Config.only` — the defaults with some settings of a configuration;
* `Config.ofText_write` — what a written document is loaded as.
-/

namespace ReplicaRing

open Yaml

/-! ### Settings -/

/-- The fields of the ring section. -/
inductive RingField where
  | replicaCount
  | ringSize
  | writeQuorum
  | readQuorum
  | opTimeoutMs
  deriving DecidableEq, Repr

namespace RingField

def all : List RingField := [replicaCount, ringSize, writeQuorum, readQuorum, opTimeoutMs]

def name : RingField → String
  | replicaCount => "replica_count"
  | ringSize => "ring_size"
  | writeQuorum => "write_quorum"
  | readQuorum => "read_quorum"
  | opTimeoutMs => "op_timeout_ms"

def get (s : RingSection) : RingField → UInt64
  | replicaCount => s.replicaCount
  | ringSize => s.ringSize
  | writeQuorum => s.writeQuorum
  | readQuorum => s.readQuorum
  | opTimeoutMs => s.opTimeoutMs

def text (s : RingSection) (f : RingField) : String := toString (f.get s).toNat

theorem name_injective : Function.Injective name := by
  intro f g h
  cases f <;> cases g <;> first | rfl | exact absurd h (by decide)

theorem name_word (f : RingField) : IsWord f.name ∧ f.name.length ≤ 1024 := by
  cases f <;> decide

end RingField

/-- The fields of the repair section. -/
inductive RepairField where
  | enabled
  | intervalSecs
  deriving DecidableEq, Repr

namespace RepairField

def all : List RepairField := [enabled, intervalSecs]

def name : RepairField → String
  | enabled => "enabled"
  | intervalSecs => "interval_secs"

def text (s : RepairSection) : RepairField → String
  | enabled => Config.flagText s.enabled
  | intervalSecs => toString s.intervalSecs.toNat

theorem name_injective : Function.Injective name := by
  intro f g h
  cases f <;> cases g <;> first | rfl | exact absurd h (by decide)

theorem name_word (f : RepairField) : IsWord f.name ∧ f.name.length ≤ 1024 := by
  cases f <;> decide

end RepairField

/-- The settings of a configuration. -/
inductive Field where
  | ring (f : RingField)
  | repair (f : RepairField)
  | metricsPort
  deriving DecidableEq, Repr

/-- What stands at the top of a document: a section, or the setting that belongs to none. -/
inductive Part where
  | ring
  | repair
  | metricsPort
  deriving DecidableEq, Repr

def Part.name : Part → String
  | ring => "ring"
  | repair => "repair"
  | metricsPort => "metrics_port"

theorem Part.name_injective : Function.Injective Part.name := by
  intro p q h
  cases p <;> cases q <;> first | rfl | exact absurd h (by decide)

/-- The order in which a document lists parts and the fields of its sections, each at most once.
A section may be listed without fields. -/
structure Layout where
  parts : List Part
  ring : List RingField
  repair : List RepairField
  parts_nodup : parts.Nodup
  ring_nodup : ring.Nodup
  repair_nodup : repair.Nodup

namespace Layout

/-- Whether a setting is listed. -/
def lists (l : Layout) : Field → Bool
  | .ring f => Part.ring ∈ l.parts && f ∈ l.ring
  | .repair f => Part.repair ∈ l.parts && f ∈ l.repair
  | .metricsPort => Part.metricsPort ∈ l.parts

/-- Some of the settings in their usual order, without sections that have none of them. -/
def standard (F : Field → Bool) : Layout where
  parts := [Part.ring, .repair, .metricsPort].filter fun
    | .ring => RingField.all.any fun f => F (.ring f)
    | .repair => RepairField.all.any fun f => F (.repair f)
    | .metricsPort => F .metricsPort
  ring := RingField.all.filter fun f => F (.ring f)
  repair := RepairField.all.filter fun f => F (.repair f)
  parts_nodup := .filter _ (by decide)
  ring_nodup := .filter _ (by decide)
  repair_nodup := .filter _ (by decide)

/-- Any settings can be listed. -/
theorem lists_standard (F : Field → Bool) : (standard F).lists = F := by
  funext f
  cases f with
  | ring f =>
    have hall : f ∈ RingField.all := by cases f <;> decide
    cases hF : F (.ring f) with
    | false => simp [lists, standard, hF]
    | true =>
      have hany : RingField.all.any (fun f => F (.ring f)) = true :=
        List.any_eq_true.2 ⟨f, hall, hF⟩
      simp only [lists, standard, List.mem_filter, hany, hall, hF]
      rfl
  | repair f =>
    have hall : f ∈ RepairField.all := by cases f <;> decide
    cases hF : F (.repair f) with
    | false => simp [lists, standard, hF]
    | true =>
      have hany : RepairField.all.any (fun f => F (.repair f)) = true :=
        List.any_eq_true.2 ⟨f, hall, hF⟩
      simp only [lists, standard, List.mem_filter, hany, hall, hF]
      rfl
  | metricsPort => simp [lists, standard]

end Layout

/-! ### Writing -/

namespace Config

/-- A section: its name, and its fields on indented lines. -/
def writeSection {α : Type} (title : String) (name text : α → String) (fs : List α) : String :=
  title ++ ":\n" ++ String.join (fs.map fun f => settingLine "  " (name f) (text f))

/-- The lines of a part. -/
def writePart (c : Config) (l : Layout) : Part → String
  | .ring => writeSection "ring" RingField.name (RingField.text c.ring) l.ring
  | .repair => writeSection "repair" RepairField.name (RepairField.text c.repair) l.repair
  | .metricsPort => settingLine "" "metrics_port" (portText c.metricsPort)

/-- The document that lists the settings of a configuration as a layout says. -/
def write (c : Config) (l : Layout) : String := String.join (l.parts.map (c.writePart l))

/-- The configuration that a setting is taken from: `c` for those in `F`, the standard one for
others. -/
def source (c : Config) (F : Field → Bool) (f : Field) : Config := if F f then c else {}

/-- The standard configuration, with the settings in `F` as in `c`. -/
def only (c : Config) (F : Field → Bool) : Config where
  ring := {
    replicaCount := (c.source F (.ring .replicaCount)).ring.replicaCount
    ringSize := (c.source F (.ring .ringSize)).ring.ringSize
    writeQuorum := (c.source F (.ring .writeQuorum)).ring.writeQuorum
    readQuorum := (c.source F (.ring .readQuorum)).ring.readQuorum
    opTimeoutMs := (c.source F (.ring .opTimeoutMs)).ring.opTimeoutMs }
  repair := {
    enabled := (c.source F (.repair .enabled)).repair.enabled
    intervalSecs := (c.source F (.repair .intervalSecs)).repair.intervalSecs }
  metricsPort := (c.source F .metricsPort).metricsPort

/-- The usual written form lists all settings. -/
theorem render_eq_write (c : Config) : c.render = c.write (.standard fun _ => true) := by
  have hring : "ring:\n" = "ring" ++ ":\n" := rfl
  have hrepair : "repair:\n" = "repair" ++ ":\n" := rfl
  show c.render = String.join
    [writeSection "ring" RingField.name (RingField.text c.ring) RingField.all,
      writeSection "repair" RepairField.name (RepairField.text c.repair) RepairField.all,
      settingLine "" "metrics_port" (portText c.metricsPort)]
  -- The equation that `simp` would derive for `render` takes long.
  delta render
  simp only [writeSection, RingField.all, RepairField.all, List.map_cons, List.map_nil,
    String.join_cons, String.join_nil, String.append_empty, String.append_assoc, hring, hrepair]
  rfl

example : ({ repair := { enabled := false } } : Config).write (.standard (· == .repair .enabled)) =
    "repair:\n  enabled: false\n" := by decide

@[simp]
theorem only_all (c : Config) : c.only (fun _ => true) = c := rfl

/-! ### The entries of a document -/

/-- Fields with their texts, one below the other. -/
def fieldEntries {α : Type} (name text : α → String) : List α → Entries
  | [] => .nil
  | f :: fs => .setting (name f) (some (text f)) (fieldEntries name text fs)

/-- The entries of parts. -/
def partEntries (c : Config) (l : Layout) : List Part → Entries
  | [] => .nil
  | .ring :: ps =>
    .inner "ring" (fieldEntries RingField.name (RingField.text c.ring) l.ring) (partEntries c l ps)
  | .repair :: ps =>
    .inner "repair" (fieldEntries RepairField.name (RepairField.text c.repair) l.repair)
      (partEntries c l ps)
  | .metricsPort :: ps =>
    .setting "metrics_port" (some (portText c.metricsPort)) (partEntries c l ps)

/-- A line with a value is a setting. -/
theorem linesText_setting (column : Nat) (key value : String) (ls : List Line) :
    linesText (⟨column, key, some value⟩ :: ls) =
      (settingLine (String.ofList (List.replicate column ' ')) key value).toList ++
        linesText ls := by
  simp [linesText, contentText, Line.valueText, settingLine]

theorem linesText_fields {α : Type} (name text : α → String) (column : Nat) (fs : List α)
    (ls : List Line) :
    linesText ((fieldEntries name text fs).lines column ++ ls) =
      (String.join (fs.map fun f =>
        settingLine (String.ofList (List.replicate column ' ')) (name f) (text f))).toList ++
        linesText ls := by
  induction fs with
  | nil => rfl
  | cons f fs ih =>
    rw [fieldEntries, Entries.lines, List.cons_append, linesText_setting, ih, List.map_cons,
      String.join_cons, String.toList_append, List.append_assoc]

theorem linesText_section {α : Type} (title : String) (name text : α → String) (fs : List α)
    (es : Entries) :
    linesText ((Entries.inner title (fieldEntries name text fs) es).lines 0) =
      (writeSection title name text fs).toList ++ linesText (es.lines 0) := by
  rw [Entries.lines, linesText, contentText, linesText_fields, writeSection]
  simp [Line.valueText, show String.ofList [' ', ' '] = "  " from rfl]

theorem linesText_parts (c : Config) (l : Layout) (ps : List Part) :
    linesText ((c.partEntries l ps).lines 0) =
      (String.join (ps.map (c.writePart l))).toList := by
  induction ps with
  | nil => simp [partEntries, Entries.lines, linesText]
  | cons p ps ih =>
    rw [List.map_cons, String.join_cons, String.toList_append, ← ih]
    cases p with
    | ring => exact linesText_section "ring" _ _ _ _
    | repair => exact linesText_section "repair" _ _ _ _
    | metricsPort => exact linesText_setting 0 "metrics_port" _ _

theorem settings_fields {α : Type} (name text : α → String) (fs : List α) :
    (fieldEntries name text fs).settings =
      fs.map fun f => (name f, Yaml.Node.ofValue (some (text f))) := by
  induction fs with
  | nil => rfl
  | cons f fs ih => rw [fieldEntries, Entries.settings, ih, List.map_cons]

/-- The node of a part. -/
def partNode (c : Config) (l : Layout) : Part → Yaml.Node
  | .ring => .ofSettings (l.ring.map fun f => (f.name, .ofValue (some (f.text c.ring))))
  | .repair => .ofSettings (l.repair.map fun f => (f.name, .ofValue (some (f.text c.repair))))
  | .metricsPort => .ofValue (some (portText c.metricsPort))

theorem settings_parts (c : Config) (l : Layout) (ps : List Part) :
    (c.partEntries l ps).settings = ps.map fun p => (p.name, c.partNode l p) := by
  induction ps with
  | nil => rfl
  | cons p ps ih =>
    cases p <;>
      simp [partEntries, Entries.settings, settings_fields, partNode, ih, Part.name]

/-- A line with a known key and a word is plain. -/
theorem plain_line {key value : String} (hkey : IsWord key ∧ key.length ≤ 1024)
    (hvalue : IsWord value) : (Line.mk 0 key (some value)).Plain where
  key := hkey.1
  short := hkey.2
  value _ he := Option.some.inj he ▸ hvalue

theorem plain_fields {α : Type} {name text : α → String}
    (hname : ∀ f, IsWord (name f) ∧ (name f).length ≤ 1024) (htext : ∀ f, IsWord (text f))
    (fs : List α) : (fieldEntries name text fs).Plain := by
  induction fs with
  | nil => trivial
  | cons f fs ih => exact ⟨plain_line (hname f) (htext f), ih⟩

theorem plain_parts (c : Config) (l : Layout) (ps : List Part) : (c.partEntries l ps).Plain := by
  induction ps with
  | nil => trivial
  | cons p ps ih =>
    cases p with
    | ring =>
      refine ⟨⟨by decide, by decide, nofun⟩, plain_fields RingField.name_word (fun f => ?_) _, ih⟩
      exact Setting.isWord_toString _
    | repair =>
      refine ⟨⟨by decide, by decide, nofun⟩, plain_fields RepairField.name_word (fun f => ?_) _, ih⟩
      cases f with
      | enabled => exact Setting.isWord_flagText _
      | intervalSecs => exact Setting.isWord_toString _
    | metricsPort => exact ⟨plain_line (by decide) (Setting.isWord_portText _), ih⟩

/-- The document of a layout is that of its entries. -/
theorem write_eq_text (c : Config) (l : Layout) : c.write l = (c.partEntries l l.parts).text := by
  rw [Entries.text, linesText_parts, String.ofList_toList, write]

/-! ### Loading -/

section Loading

variable {c : Config} {l : Layout} {d : Document}

/-- A setting is read from where it is taken. -/
theorem setting?_source {α β : Type} [DecidableEq α] {name : α → String}
    (hname : Function.Injective name) {node : α → Yaml.Node} {fs : List α} {a : α}
    {F : Field → Bool} {f : Field} (hF : F f = decide (a ∈ fs)) {read : Yaml.Node → Option β}
    (get : Config → β) (hread : read (node a) = some (get c)) :
    setting? (fs.map fun a => (name a, node a)) (name a) (get {}) read =
      some (get (c.source F f)) := by
  refine setting?_fields hname node (fun ha => ?_) (fun ha => ?_)
  · rw [source, if_pos (by simp [hF, ha])]
    exact hread
  · rw [source, if_neg (by simp [hF, ha])]

/-- The values of a written ring section. -/
theorem exists_ringValues (hpart : Part.ring ∈ l.parts) :
    ∃ values, section? d
        ["replica_count", "ring_size", "write_quorum", "read_quorum", "op_timeout_ms"]
        (c.partNode l .ring) = some values ∧
      ∀ f : RingField, setting? values f.name (f.get {}) Setting.word? =
        some (f.get (c.source l.lists (.ring f)).ring) := by
  have hlists : ∀ f, l.lists (.ring f) = decide (f ∈ l.ring) := by
    simp [Layout.lists, hpart]
  refine ⟨_, section?_fields RingField.name_injective _ ?_ (fun _ => rfl) l.ring_nodup, fun f => ?_⟩
  · intro f
    cases f <;> decide
  · exact setting?_source RingField.name_injective (hlists f) (fun c => f.get c.ring)
      (Setting.word?_toString _)

/-- A written ring section is read with the listed fields. -/
theorem ringSection?_partNode (hpart : Part.ring ∈ l.parts) :
    ringSection? d (c.partNode l .ring) = some (c.only l.lists).ring := by
  obtain ⟨values, hsection, hsetting⟩ := exists_ringValues (c := c) (d := d) hpart
  have h₁ := hsetting .replicaCount
  have h₂ := hsetting .ringSize
  have h₃ := hsetting .writeQuorum
  have h₄ := hsetting .readQuorum
  have h₅ := hsetting .opTimeoutMs
  simp only [RingField.name, RingField.get] at h₁ h₂ h₃ h₄ h₅
  simp only [ringSection?, hsection, Option.bind_eq_bind, Option.bind_some, h₁, h₂, h₃, h₄, h₅]
  rfl

/-- The values of a written repair section. -/
theorem exists_repairValues (hpart : Part.repair ∈ l.parts) :
    ∃ values, section? d ["enabled", "interval_secs"] (c.partNode l .repair) = some values ∧
      setting? values "enabled" true Setting.flag? =
        some (c.source l.lists (.repair .enabled)).repair.enabled ∧
      setting? values "interval_secs" 5 Setting.word? =
        some (c.source l.lists (.repair .intervalSecs)).repair.intervalSecs := by
  have hlists : ∀ f, l.lists (.repair f) = decide (f ∈ l.repair) := by
    simp [Layout.lists, hpart]
  refine ⟨_, section?_fields RepairField.name_injective _ ?_ (fun _ => rfl) l.repair_nodup, ?_, ?_⟩
  · intro f
    cases f <;> decide
  · exact setting?_source RepairField.name_injective (hlists .enabled)
      (fun c => c.repair.enabled) (Setting.flag?_flagText _)
  · exact setting?_source RepairField.name_injective (hlists .intervalSecs)
      (fun c => c.repair.intervalSecs) (Setting.word?_toString _)

/-- A written repair section is read with the listed fields. -/
theorem repairSection?_partNode (hpart : Part.repair ∈ l.parts) :
    repairSection? d (c.partNode l .repair) = some (c.only l.lists).repair := by
  obtain ⟨values, hsection, henabled, hinterval⟩ := exists_repairValues (c := c) (d := d) hpart
  simp only [repairSection?, hsection, Option.bind_eq_bind, Option.bind_some, henabled, hinterval]
  rfl

/-- The node of a part is no reference. -/
theorem resolve_partNode (p : Part) : d.resolve (c.partNode l p) = c.partNode l p := by
  cases p with
  | ring => exact resolve_ofSettings d _
  | repair => exact resolve_ofSettings d _
  | metricsPort => rfl

/-- The values at the top of a written document. -/
theorem exists_partValues (c : Config) (l : Layout) (d : Document) :
    ∃ values, section? d ["ring", "repair", "metrics_port"]
        (.ofSettings (l.parts.map fun p => (p.name, c.partNode l p))) = some values ∧
      setting? values "ring" {} (ringSection? d) = some (c.only l.lists).ring ∧
      setting? values "repair" {} (repairSection? d) = some (c.only l.lists).repair ∧
      setting? values "metrics_port" none Setting.port? =
        some (c.only l.lists).metricsPort := by
  refine ⟨_, section?_fields Part.name_injective _ ?_ resolve_partNode l.parts_nodup, ?_, ?_, ?_⟩
  · intro p
    cases p <;> decide
  · refine setting?_fields (f := .ring) Part.name_injective _ ringSection?_partNode fun hp => ?_
    simp [only, source, Layout.lists, hp]
  · refine setting?_fields (f := .repair) Part.name_injective _ repairSection?_partNode
      fun hp => ?_
    simp [only, source, Layout.lists, hp]
  · have hread : Setting.port? (c.partNode l .metricsPort) = some c.metricsPort :=
      Setting.port?_portText _
    exact setting?_source (a := .metricsPort) Part.name_injective rfl (fun c => c.metricsPort) hread

/-- A document of parts is read with the listed settings. -/
theorem ofStream?_parts (c : Config) (l : Layout) :
    ofStream? (.single ⟨.ofSettings (l.parts.map fun p => (p.name, c.partNode l p)), {}⟩) =
      some (c.only l.lists) := by
  let root := Yaml.Node.ofSettings (l.parts.map fun p => (p.name, c.partNode l p))
  obtain ⟨values, hsection, hring, hrepair, hport⟩ := c.exists_partValues l ⟨root, {}⟩
  show ((section? ⟨root, {}⟩ _ (Document.resolve ⟨root, {}⟩ root)).bind _) = _
  rw [resolve_ofSettings, hsection]
  simp only [Option.bind_eq_bind, Option.bind_some, root, hring, hrepair, hport]
  rfl

/-- Without entries all settings have their defaults. -/
theorem ofStream?_stream (es : Entries) :
    ofStream? es.stream = ofStream? (.single ⟨.ofSettings es.settings, {}⟩) := by
  cases es <;> rfl

/-- **A written document is loaded with the settings that it lists.** -/
theorem ofText_write (c : Config) (l : Layout) :
    ofText (c.write l) = (c.only l.lists).validate := by
  rw [ofText, write_eq_text, Stream.ofText?_text (c.plain_parts l l.parts), Option.bind_some,
    ofStream?_stream, settings_parts, ofStream?_parts]

end Loading

/-- **What is written is loaded again.** The usual written form of a configuration, and every
document that lists some of its settings in any order, the others being at their defaults; unless
what comes out is out of range. There is such a document for any choice of settings. -/
theorem loads_what_is_written (c : Config) :
    ofText c.render = c.validate ∧
      (∀ l : Layout, ofText (c.write l) = (c.only l.lists).validate) ∧
      ∀ F : Field → Bool, ∃ l : Layout, l.lists = F := by
  refine ⟨?_, c.ofText_write, fun F => ⟨.standard F, Layout.lists_standard F⟩⟩
  rw [render_eq_write, ofText_write, Layout.lists_standard, only_all]

end Config

end ReplicaRing

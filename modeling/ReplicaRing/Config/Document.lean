import ReplicaRing.Config
import ReplicaRing.Yaml.Document

/-!
# Configuration documents

A configuration is written as a block mapping with one line for each setting and section. It is
read from any YAML document of that shape: settings that are left out keep their defaults, unknown
ones are skipped, and a known one must not be repeated.

* `Config.render` — the written form;
* `Config.ofStream?` — the settings of a document;
* `Config.ofText`, `Config.ofFile` — a valid configuration from a text or from a file's bytes.
-/

namespace ReplicaRing

/-! ### Values of settings -/

namespace Setting

open Yaml

/-- The value of a digit below `base`. -/
def digitBelow? (base : Nat) (c : Char) : Option Nat := do
  let d ← hexValue? c
  if d < base then return d else none

/-- The number that a non-empty string of digits denotes. -/
def digits? (base : Nat) (cs : List Char) : Option Nat :=
  if cs.isEmpty then none
  else cs.foldlM (fun acc c => return base * acc + (← digitBelow? base c)) 0

/-- Whether a digit string starts with a superfluous zero. -/
def hasLeadingZero : List Char → Bool
  | '0' :: c :: cs => (c :: cs).all Char.isDigit
  | _ => false

/-- The numeral behind an optional plus sign: decimal without leading zeros, or hexadecimal,
octal or binary behind its mark. -/
def numeral? : List Char → Option Nat
  | '0' :: 'x' :: cs => digits? 16 cs
  | '0' :: 'o' :: cs => digits? 8 cs
  | '0' :: 'b' :: cs => digits? 2 cs
  | cs => if hasLeadingZero cs then none else digits? 10 cs

/-- The number that a scalar's text denotes. -/
def number? (text : String) : Option Nat :=
  match text.toList with
  | '+' :: cs => numeral? cs
  | cs => numeral? cs

/-- The full name of a standard tag. -/
def standardTag (name : String) : List UInt8 := utf8Bytes ("tag:yaml.org,2002:" ++ name)

/-- Whether a scalar is read for its value: it is plain, or it is literal with the tag that names
the kind of value. -/
def isValue (kind : String) (style : Style) (tag : Option (List UInt8)) : Bool :=
  style == .plain || (style == .literal && tag == some (standardTag kind))

/-- An unsigned number below `bound`. -/
def unsigned? (bound : Nat) : Yaml.Node → Option Nat
  | .scalar style tag text => do
    if isValue "int" style tag then
      let n ← number? text
      if n < bound then return n else none
    else none
  | _ => none

/-- A 64-bit number. -/
def word? (n : Yaml.Node) : Option UInt64 := (unsigned? UInt64.size n).map UInt64.ofNat

/-- A truth value. -/
def flag? : Yaml.Node → Option Bool
  | .scalar style tag text =>
    if isValue "bool" style tag then
      if text == "true" || text == "True" || text == "TRUE" then some true
      else if text == "false" || text == "False" || text == "FALSE" then some false
      else none
    else none
  | _ => none

/-- The texts that stand for no value. -/
def isNull (text : String) : Bool :=
  text == "null" || text == "Null" || text == "NULL" || text == "~"

/-- A port number, or none for an omitted or null one. -/
def port? : Yaml.Node → Option (Option UInt16)
  | .scalar .plain none "" => some none
  | .scalar .plain tag text =>
    if tag == none && isNull text then some none
    else if tag == some (standardTag "null") then (if isNull text then some none else none)
    else (unsigned? UInt16.size (.scalar .plain tag text)).map fun n => some (UInt16.ofNat n)
  | n => (unsigned? UInt16.size n).map fun n => some (UInt16.ofNat n)

end Setting

/-! ### Reading -/

namespace Config

open Yaml

/-- The values of the known settings of a mapping. Every key has to be a scalar. -/
def settings? (d : Document) (known : List String) :
    List (Yaml.Node × Yaml.Node) → Option (List (String × Yaml.Node))
  | [] => some []
  | (k, v) :: entries => do
    match d.resolve k with
    | .scalar _ _ name => do
      let rest ← settings? d known entries
      if known.contains name then
        if (rest.lookup name).isSome then none else return (name, d.resolve v) :: rest
      else return rest
    | _ => none

/-- The known settings of a section; an omitted section has none. -/
def section? (d : Document) (known : List String) : Yaml.Node → Option (List (String × Yaml.Node))
  | .mapping entries => settings? d known entries
  | .scalar .plain _ "" => some []
  | _ => none

/-- The value of a setting, or its default if it is left out. -/
def setting? {α : Type} (values : List (String × Yaml.Node)) (name : String) (fallback : α)
    (read : Yaml.Node → Option α) : Option α :=
  match values.lookup name with
  | some n => read n
  | none => some fallback

/-- The ring section. -/
def ringSection? (d : Document) (n : Yaml.Node) : Option RingSection := do
  let values ← section? d
    ["replica_count", "ring_size", "write_quorum", "read_quorum", "op_timeout_ms"] n
  let standard : RingSection := {}
  return {
    replicaCount := ← setting? values "replica_count" standard.replicaCount Setting.word?
    ringSize := ← setting? values "ring_size" standard.ringSize Setting.word?
    writeQuorum := ← setting? values "write_quorum" standard.writeQuorum Setting.word?
    readQuorum := ← setting? values "read_quorum" standard.readQuorum Setting.word?
    opTimeoutMs := ← setting? values "op_timeout_ms" standard.opTimeoutMs Setting.word? }

/-- The repair section. -/
def repairSection? (d : Document) (n : Yaml.Node) : Option RepairSection := do
  let values ← section? d ["enabled", "interval_secs"] n
  let standard : RepairSection := {}
  return {
    enabled := ← setting? values "enabled" standard.enabled Setting.flag?
    intervalSecs := ← setting? values "interval_secs" standard.intervalSecs Setting.word? }

/-- The configuration of a document; without a document all settings have their defaults. -/
def ofStream? : Stream → Option Config
  | .empty => some {}
  | .single d => do
    let values ← section? d ["ring", "repair", "metrics_port"] (d.resolve d.root)
    return {
      ring := ← setting? values "ring" {} (ringSection? d)
      repair := ← setting? values "repair" {} (repairSection? d)
      metricsPort := ← setting? values "metrics_port" none Setting.port? }

/-- The valid configuration of a text. -/
def ofText (text : String) : Except ConfigError Config :=
  match (Stream.ofText? text).bind ofStream? with
  | some c => c.validate
  | none => .error .malformed

/-- The valid configuration of a file's bytes, if there is such a file. -/
def ofFile : Option ByteArray → Except ConfigError Config
  | none => .error .unreadable
  | some bytes =>
    match String.fromUTF8? bytes with
    | some text => ofText text
    | none => .error .unreadable

/-! ### Writing -/

/-- A setting on a line of its own. -/
def settingLine (indent name value : String) : String := indent ++ name ++ ": " ++ value ++ "\n"

/-- The written form of a truth value. -/
def flagText (b : Bool) : String := if b then "true" else "false"

/-- The written form of a port number. -/
def portText : Option UInt16 → String
  | some p => toString p.toNat
  | none => "null"

/-- The written form of a configuration: every setting, in a fixed order. -/
def render (c : Config) : String :=
  "ring:\n" ++
    settingLine "  " "replica_count" (toString c.ring.replicaCount.toNat) ++
    settingLine "  " "ring_size" (toString c.ring.ringSize.toNat) ++
    settingLine "  " "write_quorum" (toString c.ring.writeQuorum.toNat) ++
    settingLine "  " "read_quorum" (toString c.ring.readQuorum.toNat) ++
    settingLine "  " "op_timeout_ms" (toString c.ring.opTimeoutMs.toNat) ++
    "repair:\n" ++
    settingLine "  " "enabled" (flagText c.repair.enabled) ++
    settingLine "  " "interval_secs" (toString c.repair.intervalSecs.toNat) ++
    settingLine "" "metrics_port" (portText c.metricsPort)

end Config

end ReplicaRing

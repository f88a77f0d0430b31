import ReplicaRing.Config.Document
import ReplicaRing.Host

/-!
# The host program

Its only argument is the path of a configuration file. Without a usable file all settings have
their defaults.
-/

namespace ReplicaRing.Host

/-- The bytes of a file, or what the system says about it. -/
def read (path : String) : IO (Except String ByteArray) :=
  try return .ok (← IO.FS.readBinFile path) catch e => return .error (toString e)

/-- The configuration of a file, or the defaults with a warning. -/
def configuration (path : String) : IO Config := do
  let bytes ← read path
  match Config.ofFile bytes.toOption with
  | .ok c => return c
  | .error e =>
    let cause := match bytes with
      | .ok _ => "no configuration document"
      | .error cause => cause
    IO.println s!"WARN failed to load config from {path}: {e.message cause}, using defaults"
    return {}

end ReplicaRing.Host

/-- Run a host and print what it reports. -/
def main (args : List String) : IO UInt32 := do
  let config ← ReplicaRing.Host.configuration (args.headD "config.yaml")
  match ReplicaRing.Host.run config with
  | .ok lines =>
    for line in lines do IO.println line
    return 0
  | .error e =>
    IO.eprintln s!"Error: {e.debug}"
    return 1

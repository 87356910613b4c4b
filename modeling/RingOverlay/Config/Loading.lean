import RingOverlay.Config.Environment
import RingOverlay.Config.Sections
import RingOverlay.Config.Shape
import RingOverlay.Text.Utf8
import RingOverlay.Toml.Document
/-!
Loading a configuration: the environment counts before the file, and the file before the defaults. A
missing file can be written with the defaults.
-/

set_option autoImplicit false
set_option relaxedAutoImplicit false

namespace RingOverlay

inductive ConfigError where
  | readFailed
  | parseFailed
  | writeFailed
  deriving DecidableEq, Repr

inductive ConfigFile where
  | absent
  | directory
  | content (bytes : Bytes)
  deriving DecidableEq, Repr

namespace OverlayConfig

def ofText? (s : String) : Option OverlayConfig := do
  let v ← Toml.parse? s
  ((OverlayConfig.shape true).read v).toOption

def ofFile : ConfigFile → Except ConfigError OverlayConfig
  | .absent => .ok {}
  | .directory => .error .readFailed
  | .content bytes =>
    match Utf8.decode? bytes with
    | none => .error .readFailed
    | some s =>
      match ofText? s with
      | some c => .ok c
      | none => .error .parseFailed

def load (file : ConfigFile) (env : Environment) : Except ConfigError OverlayConfig :=
  (ofFile file).map (·.override env)

/-- The file after the defaults are written where it is missing. This fails if the directory that
should hold it cannot exist. -/
def writeIfMissing (file : ConfigFile) (blocked : Bool) : Except ConfigError ConfigFile :=
  match file with
  | .absent =>
    if blocked then .error .writeFailed
    else .ok (.content (Utf8.encode (text ({} : OverlayConfig)).toList))
  | file => .ok file

end OverlayConfig

end RingOverlay

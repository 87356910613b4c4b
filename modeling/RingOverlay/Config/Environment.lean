import RingOverlay.Config.Basic
import RingOverlay.Text.Blank
/-!
What the environment says about the configuration: where its file is, and which fields it overrides. A
variable that should hold a number and does not is passed over.
-/

set_option autoImplicit false
set_option relaxedAutoImplicit false

namespace RingOverlay

abbrev Environment := List (String × String)

def splitCommas : List Char → List (List Char)
  | [] => [[]]
  | c :: cs =>
    match splitCommas cs with
    | piece :: rest => if c = ',' then [] :: piece :: rest else (c :: piece) :: rest
    | [] => [[c]]

/-- The pieces of a text between commas that hold more than white space, without white space at their
ends. -/
def splitList (s : String) : List String :=
  (((splitCommas s.toList).map Text.trim).filter (!·.isEmpty)).map String.ofList

/-- The number below a bound that a text writes in decimal digits, perhaps after a plus sign. -/
def readBounded (bound : Nat) (s : String) : Option Nat :=
  let ds := match s.toList with
    | '+' :: ds => ds
    | ds => ds
  let n := ds.foldl (fun n c => 10 * n + (c.toNat - '0'.toNat)) 0
  if !ds.isEmpty && ds.all Char.isDigit && n < bound then some n else none

namespace OverlayConfig

def applyVariable (c : OverlayConfig) (name value : String) : OverlayConfig :=
  match name with
  | "RINGMESH_NODE__REALM" => { c with node := { c.node with realm := value } }
  | "RINGMESH_NODE__ADDRESS_SEED" => { c with node := { c.node with addressSeed := value } }
  | "RINGMESH_NETWORK__LOCAL_TAS" =>
    { c with network := { c.network with localTransports := splitList value } }
  | "RINGMESH_NETWORK__REMOTE_TAS" =>
    { c with network := { c.network with remoteTransports := splitList value } }
  | "RINGMESH_DISCOVERY__ENABLED" =>
    { c with discovery := { c.discovery with enabled := value == "true" || value == "1" } }
  | "RINGMESH_DISCOVERY__INTERFACE" => { c with discovery := { c.discovery with interface := value } }
  | "RINGMESH_DISCOVERY__PORT" =>
    match readBounded UInt16.size value with
    | some port => { c with discovery := { c.discovery with port } }
    | none => c
  | "RINGMESH_LEAF__DESIRED" =>
    match readBounded UInt64.size value with
    | some desired => { c with leaf := { c.leaf with desired } }
    | none => c
  | _ => c

def overrideNames : List String :=
  ["RINGMESH_NODE__REALM", "RINGMESH_NODE__ADDRESS_SEED", "RINGMESH_NETWORK__LOCAL_TAS",
   "RINGMESH_NETWORK__REMOTE_TAS", "RINGMESH_DISCOVERY__ENABLED", "RINGMESH_DISCOVERY__INTERFACE",
   "RINGMESH_DISCOVERY__PORT", "RINGMESH_LEAF__DESIRED"]

/-- The configuration with all fields replaced that the environment overrides. -/
def override (c : OverlayConfig) (env : Environment) : OverlayConfig :=
  overrideNames.foldl (fun c name =>
    match env.lookup name with
    | some value => c.applyVariable name value
    | none => c) c

end OverlayConfig

/-- Appends to a path; a separator comes between unless the path is empty or ends with one. -/
def joinPath (path child : String) : String :=
  if path.isEmpty then child else if path.endsWith "/" then path ++ child else path ++ "/" ++ child

def settingsDirectory (env : Environment) : String :=
  match env.lookup "XDG_CONFIG_HOME" with
  | some dir => dir
  | none => joinPath ((env.lookup "HOME").getD "/tmp") ".config"

def configPath (env : Environment) : String :=
  match env.lookup "RINGMESH_CONFIG" with
  | some path => path
  | none => joinPath (joinPath (settingsDirectory env) "ringmesh") "config.toml"

end RingOverlay

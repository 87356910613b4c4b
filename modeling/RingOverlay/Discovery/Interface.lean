/-!
Network interfaces by name, for discovery on the local segment.
-/

set_option autoImplicit false
set_option relaxedAutoImplicit false

namespace RingOverlay

inductive InterfaceError where
  /-- The name holds a character that no interface name can hold. -/
  | nullByte
  | notFound (name : String)
  deriving DecidableEq, Repr

def InterfaceError.message : InterfaceError → String
  | .nullByte => "interface name contains null byte"
  | .notFound name => s!"interface '{name}' not found"

abbrev Interfaces := List (String × Nat)

namespace Interfaces

def index (interfaces : Interfaces) (name : String) : Except InterfaceError Nat :=
  if name.toList.contains '\x00' then .error .nullByte
  else match interfaces.lookup name with
    | some i => .ok i
    | none => .error (.notFound name)

/-- The interface that a configuration names; index zero leaves the choice to the machine. -/
def configured (interfaces : Interfaces) (name : String) : Except InterfaceError Nat :=
  if name.isEmpty then .ok 0 else interfaces.index name

end Interfaces

end RingOverlay

import RingOverlay.Connection.Basic
/-!
A closer that records every edge it is asked to close, with the reason, and closes none. Positions
for scripts are counted in steps of two around the last two bytes of an address.
-/

set_option autoImplicit false
set_option relaxedAutoImplicit false

namespace RingOverlay.Scripted

structure Closer where
  closed : List (EdgeId × String)
  deriving DecidableEq, Repr

namespace Closer

def fresh : Closer := ⟨[]⟩

def close (c : Closer) (e : EdgeId) (reason : String) : Closer := ⟨c.closed ++ [(e, reason)]⟩

end Closer

/-- The position of a 16-bit number: twice the number, with a wrap, in the last two bytes. -/
def ringAt (n : UInt16) : RingAddress := RingAddress.floor (BitVec.ofNat 160 (n <<< 1).toNat)

end RingOverlay.Scripted

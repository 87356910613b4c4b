import RingOverlay.Link.Request
/-!
A linker whose attempts end only when a script says so, in the order in which they were started.
-/

set_option autoImplicit false
set_option relaxedAutoImplicit false

namespace RingOverlay.Scripted

inductive LinkWait where
  | pending
  | answered (outcome : Except LinkError Unit)
  | gone
  deriving Repr

/-- Every request seen, in order; how each one stands; and the attempts still open. -/
structure Linker where
  calls : List LinkRequest
  waits : List LinkWait
  openAttempts : List Nat

namespace Linker

def fresh : Linker := ⟨[], [], []⟩

def link (l : Linker) (r : LinkRequest) : Linker :=
  ⟨l.calls ++ [r], l.waits ++ [.pending], l.openAttempts ++ [l.calls.length]⟩

def wait (l : Linker) (call : Nat) : LinkWait := l.waits[call]?.getD .gone

/-- Ends the oldest open attempt; tells whether someone waits for it. -/
def completeNext (l : Linker) (outcome : Except LinkError Unit) : Bool × Linker :=
  match l.openAttempts with
  | [] => (false, l)
  | call :: rest =>
    match l.wait call with
    | .pending => (true, { l with waits := l.waits.set call (.answered outcome), openAttempts := rest })
    | _ => (false, { l with openAttempts := rest })

/-- Looks at an attempt; an answer is given once. -/
def poll (l : Linker) (call : Nat) : LinkWait × Linker :=
  match l.wait call with
  | .answered outcome => (.answered outcome, { l with waits := l.waits.set call .gone })
  | w => (w, l)

def forget (l : Linker) (call : Nat) : Bool × Linker :=
  match l.wait call with
  | .gone => (false, l)
  | _ => (true, { l with waits := l.waits.set call .gone })

/-- The attempts as they stand once the linker itself is gone: those still open end with a closed
edge. -/
def retire (l : Linker) : Linker :=
  { l with
    openAttempts := []
    waits := l.waits.map fun
      | .pending => .answered (.error .edgeClosed)
      | w => w }

end Linker

end RingOverlay.Scripted

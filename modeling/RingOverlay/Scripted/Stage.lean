import RingOverlay.Connection.Edges
import RingOverlay.Scripted.Caller
import RingOverlay.Scripted.Closer
import RingOverlay.Scripted.Linker
/-!
The collaborators of one script. Linkers and call transports can be replaced in the course of it; what
was started on an earlier one can still be looked at, by its number in the script.
-/

set_option autoImplicit false
set_option relaxedAutoImplicit false

namespace RingOverlay.Scripted

structure Series (α : Type) where
  past : List α
  current : α
  items : List (Nat × Nat)

namespace Series

variable {α : Type}

def start (a : α) : Series α := ⟨[], a, []⟩

/-- Starts an item on the current member, under a number there. -/
def begin (s : Series α) (number : Nat) (current : α) : Series α :=
  { s with current, items := s.items ++ [(s.past.length, number)] }

def replace (s : Series α) (retire : α → α) (next : α) : Series α :=
  { s with past := s.past ++ [retire s.current], current := next }

/-- Does something with a member for one of its items; an unknown item gives a default answer. -/
def onItem {β : Type} (s : Series α) (item : Nat) (default : β) (f : Nat → α → β × α) : β × Series α :=
  match s.items[item]? with
  | none => (default, s)
  | some (member, number) =>
    match s.past[member]? with
    | some a =>
      let (b, a) := f number a
      (b, { s with past := s.past.set member a })
    | none =>
      let (b, current) := f number s.current
      (b, { s with current })

def onCurrent {β : Type} (s : Series α) (f : α → β × α) : β × Series α :=
  let (b, current) := f s.current
  (b, { s with current })

end Series

structure Stage where
  edges : List RecordingEdge
  closer : Closer
  linkers : Series Linker
  callers : Series Caller

namespace Stage

def empty : Stage := ⟨[], .fresh, .start .fresh, .start .fresh⟩

def addEdge (s : Stage) : Stage := { s with edges := s.edges ++ [.fresh] }

def setEdge (s : Stage) (e : EdgeId) (x : RecordingEdge) : Stage := { s with edges := s.edges.set e x }

/-- Starts a link attempt; tells how many the current linker has seen. -/
def link (s : Stage) (r : LinkRequest) : Nat × Stage :=
  let l := s.linkers.current
  (l.calls.length + 1, { s with linkers := s.linkers.begin l.calls.length (l.link r) })

/-- Makes a call; tells how many the current transport has seen. -/
def invoke (s : Stage) (i : Invocation) : Nat × Stage :=
  let c := s.callers.current
  (c.calls.length + 1, { s with callers := s.callers.begin c.calls.length (c.invoke i) })

def onLinker {β : Type} (s : Stage) (f : Linker → β × Linker) : β × Stage :=
  let (b, linkers) := s.linkers.onCurrent f
  (b, { s with linkers })

def onCaller {β : Type} (s : Stage) (f : Caller → β × Caller) : β × Stage :=
  let (b, callers) := s.callers.onCurrent f
  (b, { s with callers })

def onLink {β : Type} (s : Stage) (item : Nat) (default : β) (f : Nat → Linker → β × Linker) : β × Stage :=
  let (b, linkers) := s.linkers.onItem item default f
  (b, { s with linkers })

def onCall {β : Type} (s : Stage) (item : Nat) (default : β) (f : Nat → Caller → β × Caller) : β × Stage :=
  let (b, callers) := s.callers.onItem item default f
  (b, { s with callers })

def replaceLinker (s : Stage) : Stage := { s with linkers := s.linkers.replace (·.retire) .fresh }

def replaceCaller (s : Stage) : Stage := { s with callers := s.callers.replace (·.retire) .fresh }

end Stage

end RingOverlay.Scripted

import RingOverlay.Link.Request
import RingOverlay.Table.Basic
/-!
At most one link worker runs for a peer and a main type. Requests that come while one is running wait
behind it and are served one after another as workers finish; once a link is up, the waiting requests
are dropped together. A request that expects no particular peer is not kept apart from others.
-/

set_option autoImplicit false
set_option relaxedAutoImplicit false

namespace RingOverlay

structure AttemptKey where
  target : RingAddress
  type : MainType
  deriving DecidableEq, Repr

def ConnectionTable.hasKey (t : ConnectionTable) (k : AttemptKey) : Bool := t.contains k.type k.target

inductive LinkOutcome where
  | started
  | queued (pending : Nat)
  | alreadyConnected
  | rejected (reason : LinkError)
  deriving DecidableEq, Repr

structure LinkWork where
  key : Option AttemptKey
  request : LinkRequest
  deriving DecidableEq, Repr

structure LinkAttempts where
  running : List (AttemptKey × List LinkRequest)
  deriving DecidableEq, Repr

namespace LinkAttempts

def empty : LinkAttempts := ⟨[]⟩

/-- The requests that wait for a key, if a worker is running for it. -/
def queue? (a : LinkAttempts) (k : AttemptKey) : Option (List LinkRequest) := a.running.lookup k

def isActive (a : LinkAttempts) (k : AttemptKey) : Bool := (a.queue? k).isSome

def pending (a : LinkAttempts) (k : AttemptKey) : Nat := ((a.queue? k).getD []).length

def size (a : LinkAttempts) : Nat := a.running.length

def erase (a : LinkAttempts) (k : AttemptKey) : LinkAttempts := ⟨a.running.filter (·.1 != k)⟩

def put (a : LinkAttempts) (k : AttemptKey) (queue : List LinkRequest) : LinkAttempts :=
  ⟨(k, queue) :: (a.erase k).running⟩

def submitKeyed (a : LinkAttempts) (table : ConnectionTable) (k : AttemptKey) (r : LinkRequest) :
    LinkOutcome × LinkAttempts × Option LinkWork :=
  if table.hasKey k then (.alreadyConnected, a, none)
  else match a.queue? k with
    | some queue => (.queued (queue.length + 1), a.put k (queue ++ [r]), none)
    | none => (.started, a.put k [], some ⟨some k, r⟩)

def submit (a : LinkAttempts) (here : RingAddress) (table : ConnectionTable) (r : LinkRequest) :
    LinkOutcome × LinkAttempts × Option LinkWork :=
  match r.target with
  | none => (.started, a, some ⟨none, r⟩)
  | some target =>
    if target = here then (.rejected .connectToSelf, a, none)
    else a.submitKeyed table ⟨target, r.mainType⟩ r

/-- Takes note that the worker for a key has finished; the next waiting request may follow. -/
def finish (a : LinkAttempts) (table : ConnectionTable) (k : AttemptKey) :
    LinkAttempts × Option LinkWork :=
  match a.queue? k with
  | none => (a, none)
  | some queue =>
    if table.hasKey k then (a.erase k, none)
    else match queue with
      | [] => (a.erase k, none)
      | r :: rest => (a.put k rest, some ⟨some k, r⟩)

end LinkAttempts

end RingOverlay

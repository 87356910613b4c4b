import RingOverlay.Link.Attempts
import RingOverlay.Table.History
/-!
Link setup as a system of steps: requests come in, workers end in any order, and the table changes
meanwhile. A step reports what it answered, which worker ended and which one was started.
-/

set_option autoImplicit false
set_option relaxedAutoImplicit false

namespace RingOverlay

/-- The key of a request that expects a particular peer. -/
def LinkRequest.key? (r : LinkRequest) : Option AttemptKey :=
  r.target.map fun target => ⟨target, r.mainType⟩

structure LinkSetup where
  here : RingAddress
  table : ConnectionTable
  attempts : LinkAttempts
  workers : List LinkWork
  deriving DecidableEq, Repr

inductive SetupStep where
  | request (r : LinkRequest)
  | complete (index : Nat) (result : Except LinkError Unit)
  | change (call : TableCall)

/-- What a step shows: the answer to a request, the worker that ended and the one that was started,
which is handed its request at once. -/
structure SetupReport where
  answer : Option LinkOutcome
  ended : Option LinkWork
  started : Option LinkWork
  deriving DecidableEq, Repr

namespace LinkSetup

/-- A setup that has seen nothing yet, on the table without links. -/
def fresh (here : RingAddress) : LinkSetup := ⟨here, .empty, .empty, []⟩

def waiting (s : LinkSetup) (k : AttemptKey) : List LinkRequest := (s.attempts.queue? k).getD []

/-- The number of workers under way for a key. -/
def busy (s : LinkSetup) (k : AttemptKey) : Nat := s.workers.countP (·.key = some k)

def launch (s : LinkSetup) (work : Option LinkWork) : LinkSetup :=
  { s with workers := s.workers ++ work.toList }

def request (s : LinkSetup) (r : LinkRequest) : LinkSetup × SetupReport :=
  let (outcome, attempts, work) := s.attempts.submit s.here s.table r
  ({ s with attempts }.launch work, ⟨some outcome, none, work⟩)

/-- Lets the worker at an index end. How it ended makes no difference. -/
def complete (s : LinkSetup) (index : Nat) : LinkSetup × SetupReport :=
  match s.workers[index]? with
  | none => (s, ⟨none, none, none⟩)
  | some w =>
    let s := { s with workers := s.workers.eraseIdx index }
    match w.key with
    | none => (s, ⟨none, some w, none⟩)
    | some k =>
      let (attempts, work) := s.attempts.finish s.table k
      ({ s with attempts }.launch work, ⟨none, some w, work⟩)

def step (s : LinkSetup) : SetupStep → LinkSetup × SetupReport
  | .request r => s.request r
  | .complete index _ => s.complete index
  | .change call => ({ s with table := s.table.apply call }, ⟨none, none, none⟩)

def run (s : LinkSetup) (steps : List SetupStep) : LinkSetup :=
  steps.foldl (fun s x => (s.step x).1) s

end LinkSetup

structure SetupRecord where
  before : LinkSetup
  step : SetupStep
  report : SetupReport
  after : LinkSetup

def LinkSetup.history (s : LinkSetup) : List SetupStep → List SetupRecord
  | [] => []
  | x :: xs => ⟨s, x, (s.step x).2, (s.step x).1⟩ :: history (s.step x).1 xs

end RingOverlay

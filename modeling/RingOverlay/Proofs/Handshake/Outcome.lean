import RingOverlay.Handshake.Session
/-!
What comes out of a handshake. Whatever its owner answers and in whatever order replies and polls
follow each other, a handshake hands in one report. The report tells whether it was given up at its
start, and otherwise which replies were usable and what ended the stream.
-/

set_option autoImplicit false
set_option relaxedAutoImplicit false

namespace RingOverlay

variable {σ : Type}

def StreamStep.event? : StreamStep → Option RpcEvent
  | .arrive e => some e
  | .poll => none

def StreamStep.isArrival (e : StreamStep) : Bool := e.event?.isSome

def arrivals (steps : List StreamStep) : List RpcEvent := steps.filterMap StreamStep.event?

def usableReplies (here : RingAddress) (steps : List StreamStep) : List ConnectRequest :=
  bufferedReplies here (arrivals steps)

/-- The state of an owner that declines all of several replies; none if it accepts one of them. -/
def declineAll (owner : ConnectRequest → σ → Bool × σ) : List ConnectRequest → σ → Option σ
  | [], s => some s
  | r :: rs, s => if (owner r s).1 then none else declineAll owner rs (owner r s).2

/-- Steps without a close event, whose usable replies the owner all declines, going from one state to
another. -/
structure Undecided (here : RingAddress) (owner : ConnectRequest → σ → Bool × σ)
    (steps : List StreamStep) (s t : σ) : Prop where
  unclosed : ∀ reason, RpcEvent.closed reason ∉ arrivals steps
  declined : declineAll owner (usableReplies here steps) s = some t

section Courses

variable {here : RingAddress} {owner : ConnectRequest → σ → Bool × σ}

private theorem usableReplies_append (steps late : List StreamStep) :
    usableReplies here (steps ++ late) = usableReplies here steps ++ usableReplies here late := by
  simp [usableReplies, bufferedReplies, arrivals]

@[simp]
private theorem arrivals_arrive (events : List RpcEvent) : arrivals (events.map .arrive) = events := by
  induction events with
  | nil => rfl
  | cons e events ih => simpa [arrivals, StreamStep.event?] using ih

@[simp]
private theorem usableReplies_arrive (events : List RpcEvent) :
    usableReplies here (events.map .arrive) = bufferedReplies here events := by
  simp [usableReplies]

private theorem declineAll_append (rs rest : List ConnectRequest) (s : σ) :
    declineAll owner (rs ++ rest) s = (declineAll owner rs s).bind (declineAll owner rest) := by
  induction rs generalizing s with
  | nil => rfl
  | cons r rs ih =>
    simp only [List.cons_append, declineAll]
    split
    · rfl
    · exact ih _

private theorem Undecided.append {early late : List StreamStep} {s t u : σ}
    (first : Undecided here owner early s t) (second : Undecided here owner late t u) :
    Undecided here owner (early ++ late) s u := by
  refine ⟨fun reason => ?_, ?_⟩
  · have split : arrivals (early ++ late) = arrivals early ++ arrivals late := by simp [arrivals]
    rw [split, List.mem_append, not_or]
    exact ⟨first.unclosed reason, second.unclosed reason⟩
  · rw [usableReplies_append, declineAll_append, first.declined]
    exact second.declined

@[simp]
private theorem takeWhile_isArrival_arrive (events : List RpcEvent) :
    (events.map StreamStep.arrive).takeWhile StreamStep.isArrival = events.map .arrive := by
  induction events with
  | nil => rfl
  | cons e events ih => exact congrArg (StreamStep.arrive e :: ·) ih

end Courses

namespace Session

variable {here : RingAddress} {abort : Bool} {owner : ConnectRequest → σ → Bool × σ}

/-- A session whose handshake is over, with a further report. -/
private def finished (x : Session σ) (owner : σ) (shown : List ConnectRequest) (r : HandshakeReport) :
    Session σ :=
  ⟨none, owner, x.calls, x.shown ++ shown, x.reports ++ [r]⟩

private def rested (x : Session σ) (h : Handshake) (owner : σ) (shown : List ConnectRequest) :
    Session σ :=
  ⟨some { h with exchange := h.exchange.record shown, inbox := [] }, owner, x.calls,
    x.shown ++ shown, x.reports⟩

@[simp]
private theorem owner_stop (x : Session σ) (stop : StreamStop) : (x.stop stop).owner = x.owner := by
  cases stop <;> rfl

@[simp]
private theorem finished_stop (x : Session σ) (stop : StreamStop) (t : σ) (shown : List ConnectRequest)
    (r : HandshakeReport) : (x.stop stop).finished t shown r = x.finished t shown r := by
  cases stop <;> rfl

end Session

end RingOverlay

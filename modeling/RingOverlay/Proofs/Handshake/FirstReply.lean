import RingOverlay.Handshake.Session
/-!
The first usable reply on a stream. An owner that is content with any reply acts on this one alone, and
the handshake is over with it; until it comes, the handshake listens on or ends without it.
-/

set_option autoImplicit false
set_option relaxedAutoImplicit false

namespace RingOverlay

/-- The first usable reply on a stream, unless the stream is closed before. -/
def firstReply? (here : RingAddress) : List RpcEvent → Option ConnectRequest
  | .result v :: events => (usableReply here v).or (firstReply? here events)
  | .closed _ :: _ | [] => none

theorem firstReply?_append {here : RingAddress} {events : List RpcEvent} {r : ConnectRequest}
    (first : firstReply? here events = some r) (more : List RpcEvent) :
    firstReply? here (events ++ more) = some r := by
  induction events with
  | nil => cases first
  | cons e events ih =>
    cases e with
    | closed reason => cases first
    | result v =>
      rw [List.cons_append, firstReply?]
      rw [firstReply?] at first
      cases usable : usableReply here v with
      | none =>
        rw [usable] at first
        exact ih first
      | some reply =>
        rw [usable] at first
        exact first

theorem away_of_firstReply? {here : RingAddress} {events : List RpcEvent} {r : ConnectRequest}
    (first : firstReply? here events = some r) : r.target.address ≠ here := by
  induction events with
  | nil => cases first
  | cons e events ih =>
    cases e with
    | closed reason => cases first
    | result v =>
      rw [firstReply?] at first
      rcases Option.or_eq_some_iff.mp first with usable | ⟨-, later⟩
      · unfold usableReply at usable
        split at usable
        · split at usable
          · cases usable
          · rename_i away
            cases usable
            exact away
        · cases usable
      · exact ih later

section Listening

variable {σ : Type} {here : RingAddress} {owner : ConnectRequest → σ → Bool × σ}

theorem Exchange.listen_first (content : ∀ r s, (owner r s).1 = true) (events : List RpcEvent)
    (x : Exchange) (s : σ) :
    (x.listen here (Session.noting owner) events (s, [])).2.2.2 = (firstReply? here events).toList := by
  induction events with
  | nil => rfl
  | cons e events ih =>
    cases e with
    | closed reason => rfl
    | result v =>
      cases usable : usableReply here v with
      | none => simpa [Exchange.listen, firstReply?, usable] using ih
      | some r => simp [Exchange.listen, firstReply?, usable, Session.noting, content]

theorem Exchange.listen_on (content : ∀ r s, (owner r s).1 = true) {events : List RpcEvent}
    {x : Exchange} {s : σ} (on : (x.listen here owner events s).1 = none) (more : List RpcEvent) :
    firstReply? here (events ++ more) = firstReply? here more := by
  induction events with
  | nil => rfl
  | cons e events ih =>
    cases e with
    | closed reason => cases on
    | result v =>
      cases usable : usableReply here v with
      | none =>
        simp only [Exchange.listen, usable] at on
        rw [List.cons_append, firstReply?, usable, Option.none_or]
        exact ih on
      | some r => simp [Exchange.listen, usable, content] at on

theorem Exchange.listen_content (content : ∀ r s, (owner r s).1 = true) {events : List RpcEvent}
    {r : ConnectRequest} (first : firstReply? here events = some r) (x : Exchange) (s : σ) :
    ∃ y, x.listen here owner events s = (some .satisfied, y, (owner r s).2) := by
  induction events with
  | nil => cases first
  | cons e events ih =>
    cases e with
    | closed reason => cases first
    | result v =>
      rw [firstReply?] at first
      cases usable : usableReply here v with
      | none =>
        rw [usable] at first
        simpa only [Exchange.listen, usable] using ih first
      | some reply =>
        rw [usable] at first
        cases first
        simp only [Exchange.listen, usable, content, if_true]
        exact ⟨_, rfl⟩

namespace Handshake

theorem turn_first (content : ∀ r s, (owner r s).1 = true) {h : Handshake} (calling : h.calling = true)
    {r : ConnectRequest} (first : firstReply? here h.inbox = some r) (abort : Bool) (s : σ) :
    ∃ report, h.turn here abort owner s = (.done report, (owner r s).2) := by
  obtain ⟨y, listened⟩ := Exchange.listen_content content first h.exchange s
  rw [turn, if_pos calling, listened]
  exact ⟨_, rfl⟩

theorem turn_shown (content : ∀ r s, (owner r s).1 = true) (h : Handshake) (abort : Bool) (s : σ) :
    (h.turn here abort (Session.noting owner) (s, [])).2.2 =
      if h.calling then (firstReply? here h.inbox).toList else [] := by
  unfold turn
  split
  · exact Exchange.listen_first content h.inbox h.exchange s
  · split <;> rfl

theorem turn_rest_on (content : ∀ r s, (owner r s).1 = true) {h k : Handshake} {abort : Bool} {s : σ}
    (rests : (h.turn here abort owner s).1 = .rest k) (more : List RpcEvent) :
    k.inbox = [] ∧ firstReply? here (h.inbox ++ more) = firstReply? here more := by
  unfold turn at rests
  split at rests
  · simp only at rests
    split at rests
    · cases rests
    · rename_i on
      cases rests
      exact ⟨rfl, Exchange.listen_on content (Option.or_eq_none_iff.mp (by simpa using on)).1 more⟩
  · split at rests <;> cases rests

end Handshake

end Listening

end RingOverlay

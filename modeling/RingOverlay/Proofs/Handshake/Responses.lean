import RingOverlay.Proofs.Handshake.FirstReply
/-!
What a handshake keeps of the replies to it, and what its owner does on the way. Only usable replies
are kept, so none of them names the node itself. Without a usable reply the owner is not asked.
-/

set_option autoImplicit false
set_option relaxedAutoImplicit false

namespace RingOverlay

variable {σ : Type} {here : RingAddress} {owner : ConnectRequest → σ → Bool × σ} {r : ConnectRequest}

theorem away_of_usableReply {v : Value} (usable : usableReply here v = some r) :
    r.target.address ≠ here := by
  have first : firstReply? here [.result v] = some r := by rw [firstReply?, usable, Option.some_or]
  exact away_of_firstReply? first

namespace Exchange

theorem away_of_mem_listen {events : List RpcEvent} {x : Exchange} {s : σ}
    (member : r ∈ (x.listen here owner events s).2.1.responses) :
    r ∈ x.responses ∨ r.target.address ≠ here := by
  induction events generalizing x s with
  | nil => exact Or.inl member
  | cons e events ih =>
    cases e with
    | closed reason => exact Or.inl member
    | result v =>
      cases usable : usableReply here v with
      | none =>
        simp only [listen, usable] at member
        exact ih member
      | some reply =>
        have away := away_of_usableReply usable
        simp only [listen, usable] at member
        split at member
        · -- The owner is satisfied: what waits behind the reply is kept unseen.
          rcases List.mem_append.mp member with old | new
          · exact Or.inl old
          · right
            rcases List.mem_cons.mp new with rfl | waiting
            · exact away
            · obtain ⟨event, -, kept⟩ := List.mem_filterMap.mp waiting
              cases event with
              | closed reason => cases kept
              | result v => exact away_of_usableReply kept
        · rcases ih member with kept | apart
          · rcases List.mem_append.mp kept with old | new
            · exact Or.inl old
            · exact Or.inr (List.mem_singleton.mp new ▸ away)
          · exact Or.inr apart

theorem listen_of_none {events : List RpcEvent} (unusable : firstReply? here events = none)
    (x : Exchange) (s : σ) : (x.listen here owner events s).2.2 = s := by
  induction events with
  | nil => rfl
  | cons e events ih =>
    cases e with
    | closed reason => rfl
    | result v =>
      obtain ⟨usable, later⟩ := Option.or_eq_none_iff.mp unusable
      simp only [listen, usable]
      exact ih later

theorem exists_record_listen (events : List RpcEvent) (x : Exchange) (s : σ) :
    ∃ rs, (x.listen here owner events s).2.1 = x.record rs := by
  have nothing : x = x.record [] := by rw [record, List.append_nil]
  induction events generalizing x s with
  | nil => exact ⟨[], nothing⟩
  | cons e events ih =>
    cases e with
    | closed reason => exact ⟨[], nothing⟩
    | result v =>
      simp only [listen]
      split
      · exact ih x s nothing
      · rename_i reply _
        split
        · exact ⟨_, rfl⟩
        · obtain ⟨rs, later⟩ := ih (x.record [reply]) (owner reply s).2 (by simp [record])
          refine ⟨reply :: rs, later.trans ?_⟩
          simp [record]

theorem responses_conclude (x : Exchange) (e : StreamEnd) : (x.conclude e).responses = x.responses := by
  unfold conclude
  split
  · rename_i empty
    exact (List.isEmpty_iff.mp empty).symm
  · rfl

end Exchange

/-- The replies that a handshake has kept when it has been polled. -/
def HandshakeTurn.responses : HandshakeTurn → List ConnectRequest
  | .call h | .rest h => h.exchange.responses
  | .done r => r.responses

def HandshakeTurn.target : HandshakeTurn → RpcTarget
  | .call h | .rest h => h.exchange.target
  | .done r => r.target

def HandshakeTurn.request : HandshakeTurn → ConnectRequest
  | .call h | .rest h => h.exchange.request
  | .done r => r.request

namespace Handshake

private theorem turn_asks (h : Handshake) (abort : Bool) (s : σ) :
    (h.turn here abort owner s).1.target = h.exchange.target ∧
      (h.turn here abort owner s).1.request = h.exchange.request := by
  unfold turn
  split
  · obtain ⟨rs, recorded⟩ := Exchange.exists_record_listen h.inbox h.exchange s
    simp only
    split
    · rename_i e _
      have reported : (((h.exchange.listen here owner h.inbox s).2.1.conclude e).target,
          ((h.exchange.listen here owner h.inbox s).2.1.conclude e).request) =
            (h.exchange.target, h.exchange.request) := by
        rw [recorded, Exchange.conclude]
        split <;> rfl
      exact Prod.mk.inj reported
    · simp only [HandshakeTurn.target, HandshakeTurn.request, recorded]
      exact ⟨rfl, rfl⟩
  · split <;> exact ⟨rfl, rfl⟩

theorem target_turn (h : Handshake) (abort : Bool) (s : σ) :
    (h.turn here abort owner s).1.target = h.exchange.target :=
  (h.turn_asks abort s).1

theorem request_turn (h : Handshake) (abort : Bool) (s : σ) :
    (h.turn here abort owner s).1.request = h.exchange.request :=
  (h.turn_asks abort s).2

theorem away_of_mem_turn {h : Handshake} {abort : Bool} {s : σ}
    (member : r ∈ (h.turn here abort owner s).1.responses) :
    r ∈ h.exchange.responses ∨ r.target.address ≠ here := by
  unfold turn at member
  split at member
  · simp only at member
    split at member
    · rw [HandshakeTurn.responses, Exchange.responses_conclude] at member
      exact Exchange.away_of_mem_listen member
    · exact Exchange.away_of_mem_listen member
  · split at member <;> exact Or.inl member

theorem turn_state (content : ∀ r s, (owner r s).1 = true) (h : Handshake) (abort : Bool) (s : σ) :
    (h.turn here abort owner s).2 =
      if h.calling then (firstReply? here h.inbox).elim s fun r => (owner r s).2 else s := by
  by_cases calling : h.calling = true
  · rw [if_pos calling]
    cases first : firstReply? here h.inbox with
    | none =>
      rw [turn, if_pos calling]
      exact Exchange.listen_of_none first h.exchange s
    | some reply =>
      obtain ⟨report, turned⟩ := turn_first content calling first abort s
      rw [turned]
      rfl
  · rw [if_neg calling, turn, if_neg calling]
    split <;> rfl

end Handshake

end RingOverlay

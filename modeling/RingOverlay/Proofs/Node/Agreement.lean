import RingOverlay.Proofs.Handshake.FirstReply
import RingOverlay.Proofs.Node.Answering
/-!
What both sides of a handshake make of it. The requester is described in the request and the responder
in the reply, type and token travel there and back, and so each side links with the other under the
same type and token.
-/

set_option autoImplicit false
set_option relaxedAutoImplicit false

namespace RingOverlay

/-- Whether an owner of handshakes links with whoever replies. -/
def HandshakeOwner.links : HandshakeOwner → Bool
  | .unstructured | .managed | .outside .link => true
  | .outside .collect | .outside .first => false

namespace Node

/-- The connect request of a node, with a token of its owner's choice if there is one. -/
def requestWith (n : Node) (type : String) (token : Option String) : ConnectRequest :=
  token.elim (n.connectRequest type) (n.connectRequest type).withToken

/-- The request to link with a node at the first of its own endpoints. -/
def invitation (n : Node) (type token : String) : LinkRequest :=
  ⟨some n.here, n.localTransports.take n.config.handshake.maxTransports, type, token⟩

section

variable {n : Node} {owner : HandshakeOwner} {reply : ConnectRequest}

theorem requestWith_eq (n : Node) (type : String) (token : Option String) :
    n.requestWith type token = ⟨type, n.info, [], token.getD n.here.text⟩ := by
  cases token <;> rfl

theorem handleReply_links (links : owner.links = true) :
    handleReply owner reply n = (true, (n.linkTo reply).2) := by
  cases owner with
  | unstructured | managed => rfl
  | outside policy =>
    cases policy with
    | link => rfl
    | collect | first => cases links

theorem handleReply_content (links : owner.links = true) (reply : ConnectRequest) (n : Node) :
    (handleReply owner reply n).1 = true := by
  rw [handleReply_links links]

end

/-- Let a node send a connect request of any type, with the default token or another one, to a node
elsewhere. The responder asks to link with the requester at the endpoints that the request names, the
requester asks to link with the responder at the endpoints that the reply names, whatever has happened
to it meanwhile, and both do so with the type and the token of the request. -/
theorem handshake_agreement (a b later : Node) (same : later.here = a.here) (apart : a.here ≠ b.here)
    (type : String) (token : Option String) :
    ∃ reply : ConnectRequest,
      b.answerConnect (a.requestWith type token).toValue =
        (.ok reply.toValue, (b.submit (a.invitation type (token.getD a.here.text))).2) ∧
      usableReply later.here reply.toValue = some reply ∧
      later.linkTo reply = later.submit (b.invitation type (token.getD a.here.text)) ∧
      (∀ owner : HandshakeOwner, owner.links = true → ∀ (x : Exchange) (rest : List RpcEvent),
        (x.listen later.here (handleReply owner) (.result reply.toValue :: rest) later).2.2 =
          (later.submit (b.invitation type (token.getD a.here.text))).2) ∧
      (a.invitation type (token.getD a.here.text)).key? = some ⟨a.here, .ofTypeString type⟩ ∧
      (b.invitation type (token.getD a.here.text)).key? = some ⟨b.here, .ofTypeString type⟩ := by
  have decoded := (a.requestWith type token).ofValue_toValue
  rw [requestWith_eq] at decoded ⊢
  have answered := answerConnect_other (n := b) decoded apart
  generalize near : b.neighborsFor a.info.address = neighbors at answered
  have usable : usableReply later.here
      (ConnectRequest.mk type b.info neighbors (token.getD a.here.text)).toValue =
        some ⟨type, b.info, neighbors, token.getD a.here.text⟩ := by
    have other : ¬ b.info.address = later.here := fun own => apart (same.symm.trans own.symm)
    rw [usableReply, ConnectRequest.ofValue_toValue]
    simp only [if_neg other]
  refine ⟨⟨type, b.info, neighbors, token.getD a.here.text⟩, answered, usable, rfl, ?_, rfl, rfl⟩
  intro owner links x rest
  have first : firstReply? later.here (.result (ConnectRequest.toValue
      ⟨type, b.info, neighbors, token.getD a.here.text⟩) :: rest) =
        some ⟨type, b.info, neighbors, token.getD a.here.text⟩ := by
    rw [firstReply?, usable, Option.some_or]
  obtain ⟨y, listened⟩ := Exchange.listen_content (handleReply_content links) first x later
  rw [listened, handleReply_links links]
  rfl

/-- A node with more endpoints than it tells of. -/
def seeker : Node :=
  create (.floor 80)
    { network := { localTransports := ["udp://10.0.0.1:7400", "udp://10.0.0.2:7400"] },
      handshake := { maxTransports := 1 } } .empty false

theorem handshake_agreement_seeker :
    ∃ reply : ConnectRequest,
      hub.answerConnect (seeker.requestWith "structured.near" (some "t-9")).toValue =
        (.ok reply.toValue, (hub.submit
          ⟨some (.floor 80), [⟨"udp://10.0.0.1:7400"⟩], "structured.near", "t-9"⟩).2) ∧
      (seeker.run.linkTo reply).2.actions =
        [.link 1 ⟨some (.floor 200), [], "structured.near", "t-9"⟩] := by
  have apart : seeker.here ≠ hub.here := by decide +kernel
  obtain ⟨reply, answered, -, linked, -⟩ :=
    handshake_agreement seeker hub seeker.run rfl apart "structured.near" (some "t-9")
  have asked : seeker.invitation "structured.near" "t-9" =
      ⟨some (.floor 80), [⟨"udp://10.0.0.1:7400"⟩], "structured.near", "t-9"⟩ := by decide +kernel
  have actions : (seeker.run.submit (hub.invitation "structured.near" "t-9")).2.actions =
      [.link 1 ⟨some (.floor 200), [], "structured.near", "t-9"⟩] := by rfl
  refine ⟨reply, answered.trans ?_, ?_⟩
  · rw [Option.getD_some, asked]
  · rw [linked, Option.getD_some, actions]

end Node

end RingOverlay

import RingOverlay.Node.Moves
import RingOverlay.Proofs.Link.Attempts
import RingOverlay.Proofs.Message.RoundTrip
import RingOverlay.Proofs.Table.Nearest
/-!
Answers to connect calls. A call fails if it cannot be read or comes from the node's own position, and
then nothing has happened. Every other call makes the node link back once, and the reply names the
structured peers around the requester.
-/

set_option autoImplicit false
set_option relaxedAutoImplicit false

namespace RingOverlay.Node

section

variable {n : Node} {r : ConnectRequest}

theorem submit_kept (n : Node) (r : LinkRequest) :
    (n.submit r).2.table = n.table ∧ (n.submit r).2.info = n.info ∧
      ∀ a, (n.submit r).2.neighborsFor a = n.neighborsFor a := by
  simp only [submit]
  split <;> exact ⟨rfl, rfl, fun _ => rfl⟩

theorem submit_taken {r : LinkRequest} (away : r.target ≠ some n.here) (e : LinkError) :
    (n.submit r).1 ≠ .rejected e := by
  have outcome : (n.submit r).1 = (n.attempts.submit n.here n.table r).1 := rfl
  rw [outcome]
  rcases n.attempts.submit_cases n.here n.table r with ⟨-, submitted⟩ | ⟨k, key, cases⟩
  · rw [submitted]
    nofun
  · rcases cases with ⟨own, -⟩ | ⟨-, -, submitted⟩ | ⟨-, -, q, -, submitted⟩ | ⟨-, -, -, submitted⟩
    · obtain ⟨target, named, rfl⟩ := Option.map_eq_some_iff.mp key
      exact absurd (named.trans (congrArg some own)) away
    all_goals
      rw [submitted]
      nofun

theorem answerRequest_self (own : r.target.address = n.here) :
    n.answerRequest r = (.error (.rejected LinkError.connectToSelf.message), n) := by
  rw [answerRequest, if_pos own]

theorem answerRequest_other (away : r.target.address ≠ n.here) :
    n.answerRequest r =
      (.ok ⟨r.connectionType, n.info, n.neighborsFor r.target.address, r.token⟩,
        (n.submit (.ofMessage r)).2) := by
  have taken := submit_taken (n := n) (r := .ofMessage r) fun same => away (Option.some.inj same)
  obtain ⟨-, info, near⟩ := n.submit_kept (.ofMessage r)
  rw [answerRequest, if_neg away, linkTo]
  generalize n.submit (.ofMessage r) = submitted at taken info near ⊢
  obtain ⟨outcome, m⟩ := submitted
  cases outcome with
  | rejected e => exact absurd rfl (taken e)
  | started | queued | alreadyConnected =>
    simp only [info, near, ConnectRequest.ofTarget, ConnectRequest.withNeighbors,
      ConnectRequest.withToken]

structure IsReply (n : Node) (request reply : ConnectRequest) : Prop where
  connectionType : reply.connectionType = request.connectionType
  token : reply.token = request.token
  target : reply.target = n.info
  /-- The structured peers other than the requester, the nearest to it first and no more than wanted. -/
  neighbors : ∃ ranked : List Connection,
    ranked.Perm ((n.table.view .structured).connections.filter (·.address != request.target.address)) ∧
    ranked.Pairwise (RingView.Before request.target.address) ∧
    reply.neighbors = (ranked.take n.config.handshake.nearestNeighbors).map fun c => .bare c.address

theorem isReply_of_reachable (reachable : n.table.Reachable)
    (bounded : n.config.handshake.nearestNeighbors < 2 ^ 63) (r : ConnectRequest) :
    n.IsReply r ⟨r.connectionType, n.info, n.neighborsFor r.target.address, r.token⟩ := by
  have ascending := (reachable.arranged .structured).ascending
  have small : n.config.handshake.nearestNeighbors + 1 < UInt64.size := by
    rw [UInt64.size]
    omega
  refine ⟨rfl, rfl, rfl, ((n.table.view .structured).byDistance r.target.address).filter
    (·.address != r.target.address), ?_, ?_, ?_⟩
  · exact (RingView.byDistance_perm ..).filter _
  · exact (ascending.pairwise_byDistance _).filter _
  · rw [neighborsFor, Nat.mod_eq_of_lt small, ConnectionTable.nearest, ascending.nearest_except]

section

variable {args : Value}

theorem answerConnect_malformed {e : ShapeError} (malformed : ConnectRequest.ofValue args = .error e) :
    n.answerConnect args = (.error (.badArguments (ConnectRequest.malformedMessage e)), n) := by
  rw [answerConnect, malformed]

theorem answerConnect_self (decoded : ConnectRequest.ofValue args = .ok r)
    (own : r.target.address = n.here) :
    n.answerConnect args = (.error (.rejected LinkError.connectToSelf.message), n) := by
  rw [answerConnect, decoded]
  simp only [answerRequest_self own, Except.map]

theorem answerConnect_other (decoded : ConnectRequest.ofValue args = .ok r)
    (away : r.target.address ≠ n.here) :
    n.answerConnect args =
      (.ok (ConnectRequest.toValue
        ⟨r.connectionType, n.info, n.neighborsFor r.target.address, r.token⟩),
        (n.submit (.ofMessage r)).2) := by
  rw [answerConnect, decoded]
  simp only [answerRequest_other away, Except.map]

end

/-- A connect call fails exactly if it cannot be read or comes from the node's own position, and then
the node is as before. Every other call is one request to link, which is not rejected, and is answered
in full; the table stays as it is. -/
theorem answerConnect_spec (n : Node) (reachable : n.table.Reachable)
    (bounded : n.config.handshake.nearestNeighbors < 2 ^ 63) (args : Value) :
    ((∃ e, (n.answerConnect args).1 = .error e) ↔
      (∃ e, ConnectRequest.ofValue args = .error e) ∨
        ∃ r, ConnectRequest.ofValue args = .ok r ∧ r.target.address = n.here) ∧
    (∀ e, ConnectRequest.ofValue args = .error e →
      n.answerConnect args = (.error (.badArguments (ConnectRequest.malformedMessage e)), n)) ∧
    (∀ r, ConnectRequest.ofValue args = .ok r → r.target.address = n.here →
      n.answerConnect args = (.error (.rejected LinkError.connectToSelf.message), n)) ∧
    (∀ r, ConnectRequest.ofValue args = .ok r → r.target.address ≠ n.here →
      (∃ outcome, n.submit (.ofMessage r) = (outcome, (n.answerConnect args).2) ∧
        ∀ e, outcome ≠ .rejected e) ∧
      (n.answerConnect args).2.table = n.table ∧
      ∃ reply, (n.answerConnect args).1 = .ok reply.toValue ∧ n.IsReply r reply) := by
  refine ⟨?_, fun e => answerConnect_malformed, fun r => answerConnect_self, ?_⟩
  · cases decoded : ConnectRequest.ofValue args with
    | error e =>
      rw [answerConnect_malformed decoded]
      exact iff_of_true ⟨_, rfl⟩ (Or.inl ⟨e, rfl⟩)
    | ok r =>
      by_cases own : r.target.address = n.here
      · rw [answerConnect_self decoded own]
        exact iff_of_true ⟨_, rfl⟩ (Or.inr ⟨r, rfl, own⟩)
      · rw [answerConnect_other decoded own]
        simp [own]
  · intro r decoded away
    have taken := submit_taken (n := n) (r := .ofMessage r) fun same => away (Option.some.inj same)
    obtain ⟨table, -⟩ := n.submit_kept (.ofMessage r)
    rw [answerConnect_other decoded away]
    exact ⟨⟨_, rfl, taken⟩, table, _, rfl, isReply_of_reachable reachable bounded r⟩

def around : List TableCall :=
  [10, 90, 96, 104, 112, 118].map fun p =>
    .add ⟨p, .floor (BitVec.ofNat 160 p), "structured.near", []⟩

def hub : Node := create (.floor 200) {} (.after around) false

def asked : ConnectRequest :=
  (ConnectRequest.ofTarget "structured.near" (.bare (.floor 104))).withToken "t-9"

theorem answerConnect_spec_hub :
    ∃ reply : ConnectRequest, (hub.answerConnect asked.toValue).1 = .ok reply.toValue ∧
      reply.token = "t-9" ∧ reply.neighbors.length = 4 := by
  have reachable : hub.table.Reachable := ⟨around, rfl⟩
  have bounded : hub.config.handshake.nearestNeighbors < 2 ^ 63 := by decide +kernel
  obtain ⟨-, -, -, answered⟩ := answerConnect_spec hub reachable bounded asked.toValue
  have away : asked.target.address ≠ hub.here := by decide +kernel
  obtain ⟨-, -, reply, answer, written⟩ := answered asked asked.ofValue_toValue away
  refine ⟨reply, answer, written.token, ?_⟩
  obtain ⟨ranked, perm, -, neighbors⟩ := written.neighbors
  have wanted : hub.config.handshake.nearestNeighbors = 4 := by decide +kernel
  have others : ((hub.table.view .structured).connections.filter
      (·.address != asked.target.address)).length = 5 := by decide +kernel
  rw [neighbors, List.length_map, List.length_take, perm.length_eq, others, wanted]
  rfl

end

end RingOverlay.Node

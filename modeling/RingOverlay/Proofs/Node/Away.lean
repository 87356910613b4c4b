import RingOverlay.Proofs.Link.Exclusion
import RingOverlay.Proofs.Node.Moves
/-!
A node never sets up a link to itself. Its own address may be configured as a pin, be pinned later, come
with a connect request, with replies to handshakes and discovery queries, and with requests to link; it
is turned away at each of these places, and nothing that the node keeps or asks for names it.
-/

set_option autoImplicit false
set_option relaxedAutoImplicit false

namespace RingOverlay.Node

/-- Nothing that a node has asked to link with, keeps waiting, has pinned, has discovered, or has heard
in its handshakes is the node itself. -/
structure Away (n : Node) : Prop where
  links : ∀ id r, NodeAction.link id r ∈ n.actions → r.target ≠ some n.here
  queued : ∀ entry ∈ n.attempts.running,
    entry.1.target ≠ n.here ∧ ∀ r ∈ entry.2, r.target ≠ some n.here
  pinned : n.managed.state? n.here = none
  discovered : n.here ∉ n.discovery.discovered
  responses : ∀ id h, (id, Task.handshake h) ∈ n.tasks →
    ∀ r ∈ h.exchange.responses, r.target.address ≠ n.here

section

variable {old : TaskId} {wakes : Prop} {asks : LinkRequest → Prop} {c : Nat} {n m : Node}
  {id : TaskId} {t : Task} {key : AttemptKey} {r : LinkRequest}

theorem Away.congr (away : n.Away)
    (same : (m.here, m.actions, m.attempts, m.managed, m.discovery, m.tasks) =
      (n.here, n.actions, n.attempts, n.managed, n.discovery, n.tasks)) : m.Away := by
  simp only [Prod.mk.injEq] at same
  obtain ⟨here, actions, attempts, managed, discovery, tasks⟩ := same
  constructor
  · rw [actions, here]
    exact away.links
  · rw [attempts, here]
    exact away.queued
  · rw [managed, here]
    exact away.pinned
  · rw [discovery, here]
    exact away.discovered
  · rw [tasks, here]
    exact away.responses

theorem Away.act (away : n.Away) {x : NodeAction}
    (other : ∀ id r, x = .link id r → r.target ≠ some n.here) : (n.act x).Away := by
  refine ⟨fun id r member => ?_, away.queued, away.pinned, away.discovered, away.responses⟩
  rcases List.mem_append.mp member with old | new
  · exact away.links id r old
  · exact other id r (List.mem_singleton.mp new).symm

theorem Away.spawnResting (away : n.Away)
    (unheard : ∀ h, t = .handshake h → h.exchange.responses = []) : (n.spawnResting t).Away := by
  refine ⟨away.links, away.queued, away.pinned, away.discovered, fun id h member r heard => ?_⟩
  rcases List.mem_append.mp member with old | new
  · exact away.responses id h old r heard
  · cases List.mem_singleton.mp new
    rw [unheard h rfl] at heard
    cases heard

theorem Away.endTask (away : n.Away) (id : TaskId) : (n.endTask id).Away :=
  ⟨away.links, away.queued, away.pinned, away.discovered,
    fun i h member => away.responses i h (List.mem_of_mem_filter member)⟩

theorem Away.setTask (away : n.Away) (goes : ∀ u, (id, u) ∈ n.tasks → u.GoesOn n.here t) :
    (n.setTask id t).Away := by
  refine ⟨away.links, away.queued, away.pinned, away.discovered, fun i h member r heard => ?_⟩
  rcases mem_setTask member with old | ⟨same, u, before⟩
  · exact away.responses i h old r heard
  · cases same
    cases goes u before with
    | handshake owner kept =>
      rcases kept r heard with earlier | apart
      · exact away.responses _ _ before r earlier
      · exact apart

theorem Away.launch (away : n.Away) (role : LinkRole) (other : r.target ≠ some n.here) :
    (n.launch role r).Away := by
  have told : (n.act (.link n.created r)).Away := away.act fun id s same => by
    cases same
    exact other
  exact told.spawnResting fun _ same => by cases same

theorem Away.startHandshake (away : n.Away) (owner : HandshakeOwner) (target : RpcTarget)
    (type : String) (abort : AbortRule) : (n.startHandshake owner target type abort).Away := by
  have begun : (n.spawnResting (.handshake ⟨.begin target (n.connectRequest type), owner, abort,
      n.config.timing.replyTimeoutMs⟩)).Away := away.spawnResting fun h same => by
    cases same
    rfl
  exact begun.congr rfl

theorem Away.activateUnstructured (away : n.Away) : n.activateUnstructured.Away := by
  rcases n.activateUnstructured_cases with ⟨base, words, -, sought⟩ | ⟨target, words, -, -, sought⟩
  · rw [sought]
    exact away.congr rfl
  · rw [sought]
    refine Away.startHandshake ?_ _ _ _ _
    exact away.congr rfl

theorem Away.put (away : n.Away) {queue : List LinkRequest} (elsewhere : key.target ≠ n.here)
    (waiting : ∀ r ∈ queue, r.target ≠ some n.here) :
    ({ n with attempts := n.attempts.put key queue } : Node).Away := by
  refine ⟨away.links, fun entry member => ?_, away.pinned, away.discovered, away.responses⟩
  rcases LinkAttempts.mem_put.mp member with rfl | ⟨old, -⟩
  · exact ⟨elsewhere, waiting⟩
  · exact away.queued entry old

theorem Away.erase (away : n.Away) (key : AttemptKey) :
    ({ n with attempts := n.attempts.erase key } : Node).Away :=
  ⟨away.links, fun entry member => away.queued entry (LinkAttempts.mem_erase.mp member).1,
    away.pinned, away.discovered, away.responses⟩

theorem Away.submit (away : n.Away) (r : LinkRequest) : (n.submit r).2.Away := by
  rcases n.submit_cases r with same | ⟨anyone, launched⟩ |
    ⟨key, keyed, elsewhere, ⟨q, waiting, queued⟩ | ⟨-, launched⟩⟩
  · rw [same]
    exact away
  · rw [launched]
    exact away.launch .untargeted (by rw [anyone]; nofun)
  all_goals
    have target : r.target = some key.target := (LinkRequest.key?_eq_some_iff.mp keyed).1
    have other : r.target ≠ some n.here := by
      rw [target]
      exact fun same => elsewhere (Option.some.inj same)
  · rw [queued]
    refine away.put elsewhere fun s member => ?_
    rcases List.mem_append.mp member with old | new
    · exact (away.queued (key, q) (LinkAttempts.mem_of_queue? waiting)).2 s old
    · rw [List.mem_singleton.mp new]
      exact other
  · rw [launched]
    have noted := away.put elsewhere fun _ member => absurd member List.not_mem_nil
    exact noted.launch (.keyed key) other

theorem Away.workerFinished (away : n.Away) (key : AttemptKey) : (n.workerFinished key).Away := by
  rcases n.workerFinished_cases key with ⟨-, same⟩ | erased | ⟨r, rest, waiting, launched⟩
  · rw [same]
    exact away
  · rw [erased]
    exact away.erase key
  · have before := away.queued (key, r :: rest) (LinkAttempts.mem_of_queue? waiting)
    rw [launched]
    refine (away.put before.1 fun s member => ?_).launch (.keyed key) ?_
    · exact before.2 s (List.mem_cons_of_mem _ member)
    · exact before.2 r List.mem_cons_self

theorem Away.aside (away : n.Away) (change : Aside wakes n m) : m.Away := by
  have here : m.here = n.here := (congrArg Node.here change.frame :)
  have actions : m.actions = n.actions := (congrArg Node.actions change.frame :)
  have attempts : m.attempts = n.attempts := (congrArg Node.attempts change.frame :)
  have tasks : m.tasks = n.tasks := (congrArg Node.tasks change.frame :)
  constructor
  · rw [actions, here]
    exact away.links
  · rw [attempts, here]
    exact away.queued
  · rw [here]
    exact (change.pinned n.here away.pinned).resolve_right fun apart => apart rfl
  · rw [here]
    intro member
    rcases change.discovered n.here member with before | apart
    · exact away.discovered before
    · exact apart rfl
  · rw [tasks, here]
    exact away.responses

theorem Works.away (works : Works old wakes asks c n m) (away : n.Away) : m.Away := by
  induction works with
  | nothing | unheeded => exact away
  | chain _ _ first second => exact second (first away)
  | aside change =>
    exact away.aside change
  | tell n quiet =>
    refine away.act fun id r same => ?_
    rw [same] at quiet
    cases quiet
  | begin n plain =>
    refine away.spawnResting fun h same => ?_
    rw [same] at plain
    simp only [Task.isPlain, decide_eq_true_eq] at plain
    exact plain.2.2
  | goOn n goes => exact away.setTask goes
  | finish n => exact away.endTask _
  | submit n => exact away.submit _
  | worker n => exact (away.endTask _).workerFinished _
  | seekLeaf n active anyone => exact away.launch .leaf (by rw [anyone]; nofun)
  | seekWalk n =>
    refine Away.activateUnstructured ?_
    exact away.congr rfl
  | endWalk n early =>
    rename_i id _ _
    have ended := away.endTask id
    simp only [unstructuredFinished]
    split
    · refine Away.activateUnstructured ?_
      exact ended.congr rfl
    · exact ended.congr rfl
  | seekPin n => exact away.startHandshake _ _ _ _
  | seekNearby n =>
    have told : (n.act (.query n.created default)).Away := away.act fun _ _ same => by cases same
    exact told.spawnResting fun _ same => by cases same

theorem away_create (here : RingAddress) (config : OverlayConfig) (table : ConnectionTable)
    (channel : Bool) : (create here config table channel).Away := by
  obtain ⟨overlords, methods, pinned⟩ := works_create 0 False (fun _ => False) here config table channel
  refine pinned.away ⟨?_, ?_, rfl, ?_, ?_⟩
  · exact fun _ _ member => absurd member List.not_mem_nil
  · exact fun _ member => absurd member List.not_mem_nil
  · exact List.not_mem_nil
  · exact fun _ _ member => absurd member List.not_mem_nil

theorem away_moved (numbered : n.Numbered) (away : n.Away) (ms : List NodeMove) :
    (n.moved ms).here = n.here ∧ (n.moved ms).Away := by
  induction ms generalizing n with
  | nil => exact ⟨rfl, away⟩
  | cons m ms ih =>
    have step := works_move numbered m
    obtain ⟨here, ever⟩ := ih (step.kept.numbered numbered) (step.away away)
    exact ⟨here.trans step.kept.here, ever⟩

theorem Away.turn (away : n.Away) {h : HandshakeTask} (member : (id, Task.handshake h) ∈ n.tasks) :
    ∀ r ∈ (h.turn n.here (n.shouldAbort h.abort) (handleReply h.owner) n).1.responses,
      r.target.address ≠ n.here := by
  intro r heard
  rcases Handshake.away_of_mem_turn heard with before | apart
  · exact away.responses id h member r before
  · exact apart

/-- Create a node anywhere, with any configuration and links, and let happen whatever may. No request to
link with the node itself is ever handed to the linker, and none waits for a worker, whose keys never
name it; the node is never one of its pinned peers, however it was configured, and never among those it
has discovered; and no handshake counts a reply that names it, neither among those it has kept nor when
it is polled the next time. -/
theorem never_targets_itself (here : RingAddress) (config : OverlayConfig) (table : ConnectionTable)
    (channel : Bool) (ms : List NodeMove) :
    ((create here config table channel).moved ms).here = here ∧
    ((create here config table channel).moved ms).Away ∧
    ∀ id h, (id, Task.handshake h) ∈ ((create here config table channel).moved ms).tasks →
      ∀ r ∈ (h.turn here (((create here config table channel).moved ms).shouldAbort h.abort)
          (handleReply h.owner) ((create here config table channel).moved ms)).1.responses,
        r.target.address ≠ here := by
  have created := works_create 0 False (fun _ => False) here config table channel
  obtain ⟨overlords, methods, pinned⟩ := created
  obtain ⟨same, away⟩ := away_moved (numbered_create here config table channel)
    (away_create here config table channel) ms
  rw [pinned.kept.here] at same
  refine ⟨same, away, fun id h member => ?_⟩
  have apart := away.turn member
  rw [same] at apart
  exact apart

/-- A node that is configured to be pinned to itself, and hears of itself from all sides. -/
example : (((create (.floor 2) { managed := { pinned := [(RingAddress.floor 2).text] } } .empty
    false).moved [.switch true .managed, .step (.pin (.floor 2)), .activate .managed,
      .step (.submit ⟨some (.floor 2), [], "structured", "t"⟩)]).actions.length) = 0 := by
  decide +kernel

end

end RingOverlay.Node

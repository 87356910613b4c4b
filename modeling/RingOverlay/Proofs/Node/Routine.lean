import RingOverlay.Proofs.Node.Pursuit
/-!
The routine of a node: the small changes of which nearly all its work is made. A relation that allows
each of them and can be chained holds across whatever is composed of them, so a property of a node's
work is proved for the small changes alone and for the few places that do more.
-/

set_option autoImplicit false
set_option relaxedAutoImplicit false

namespace RingOverlay

/-- Whether a task is a handshake of the policy for pinned peers, with whom, and whether it has made its
call. -/
def Task.stage (t : Task) : Option (RingAddress × Bool) :=
  match t.chase with
  | some (.connector a) => some (a, t.isCalling)
  | some (.retry _) | none => none

def Task.mail : Task → Option (HandshakeOwner × List RpcEvent)
  | .handshake h => some (h.owner, h.inbox)
  | .link _ _ | .retry _ _ _ | .query _ | .drive _ => none

theorem Task.stage_of_mail {t : Task} (other : t.mail = none) : t.stage = none := by
  cases t with
  | handshake h => cases other
  | link | retry | query | drive => rfl

def NodeAction.isInvoke : NodeAction → Bool
  | .invoke _ _ _ => true
  | _ => false

theorem UnstructuredOverlord.desired_activate (o : UnstructuredOverlord) (cfg : UnstructuredConfig)
    (leafs : RingView) (ws : Words) : (o.activate cfg leafs ws).2.1.desired = o.desired := by
  unfold UnstructuredOverlord.activate
  split
  · split <;> rfl
  · rfl

namespace Node

/-- A node without what only link attempts, the policies for leaf links and discovery, random choices
and the scheduler look at. -/
def core (n : Node) : Node :=
  { n with
    remoteTransports := []
    attempts := .empty
    leaf := .fresh {}
    discovery := .fresh
    words := []
    now := 0
    ready := []
    timers := [] }

structure Routine (R : Node → Node → Prop) : Prop where
  refl (n : Node) : R n n
  trans {n m k : Node} : R n m → R m k → R n k
  aside {n m : Node} (same : m.core = n.core) : R n m
  act (n : Node) {x : NodeAction} (silent : x.isInvoke = false) : R n (n.act x)
  spawnResting (n : Node) {t : Task} (other : t.stage = none) : R n (n.spawnResting t)
  setTask (n : Node) {id : TaskId} {t u : Task} (found : n.task? id = some u) (same : t.stage = u.stage)
    (mail : t.mail = u.mail) : R n (n.setTask id t)
  setIdle (n : Node) (id : TaskId) {t : Task} (other : t.mail = none) : R n (n.setTask id t)
  endTask (n : Node) (id : TaskId) : R n (n.endTask id)
  attend (n : Node) {unstructured : UnstructuredOverlord}
    (desired : unstructured.desired = n.unstructured.desired)
    (current : unstructured.current = n.unstructured.current) : R n { n with unstructured }
  /-- The policy for pinned peers takes note of something, and pins nobody. -/
  mark (n : Node) {managed : ManagedOverlord}
    (fewer : ∀ a, n.managed.state? a = none → managed.state? a = none) : R n { n with managed }
  seek (n : Node) {a : RingAddress} (pinned : n.managed.state? a ≠ none) : R n (n.connectPinned a)

section

variable {R : Node → Node → Prop} {n m : Node} {id : TaskId} {t u : Task}

theorem Routine.foldl {α : Type} {f : Node → α → Node} (routine : Routine R)
    (each : ∀ n a, R n (f n a)) (as : List α) (n : Node) : R n (as.foldl f n) := by
  induction as generalizing n with
  | nil => exact routine.refl n
  | cons a as ih => exact routine.trans (each n a) (ih _)

theorem Routine.repeat {f : Node → Node} (routine : Routine R) (each : ∀ n, R n (f n)) (k : Nat)
    (n : Node) : R n (Nat.repeat f k n) := by
  induction k with
  | zero => exact routine.refl n
  | succ k ih => exact routine.trans ih (each _)

theorem Routine.wake (routine : Routine R) (n : Node) (id : TaskId) : R n (n.wake id) := by
  unfold Node.wake
  split
  · exact routine.refl n
  · exact routine.aside rfl

theorem Routine.wakeAt (routine : Routine R) (n : Node) (time : Nat) (id : TaskId) :
    R n (n.wakeAt time id) :=
  routine.aside rfl

theorem Routine.spawn (routine : Routine R) (n : Node) (other : t.stage = none) : R n (n.spawn t) :=
  routine.trans (routine.spawnResting n other) (routine.aside rfl)

theorem Routine.resume (routine : Routine R) (found : n.task? id = some u) (same : t.stage = u.stage)
    (mail : t.mail = u.mail) : R n (n.resume id t) :=
  routine.trans (routine.setTask n found same mail) (routine.wake ..)

theorem Routine.resumeIdle (routine : Routine R) (n : Node) (id : TaskId) (other : t.mail = none) :
    R n (n.resume id t) :=
  routine.trans (routine.setIdle n id other) (routine.wake ..)

/-! Links and handshakes. -/

theorem Routine.launch (routine : Routine R) (n : Node) (role : LinkRole) (r : LinkRequest) :
    R n (n.launch role r) :=
  routine.trans (routine.act n rfl) (routine.spawnResting _ rfl)

theorem Routine.submit (routine : Routine R) (n : Node) (r : LinkRequest) : R n (n.submit r).2 := by
  have admitted : R n { n with attempts := (n.attempts.submit n.here n.table r).2.1 } :=
    routine.aside rfl
  simp only [Node.submit]
  split
  · exact routine.trans admitted (routine.launch ..)
  · exact admitted

theorem Routine.workerFinished (routine : Routine R) (n : Node) (k : AttemptKey) :
    R n (n.workerFinished k) := by
  have noted : R n { n with attempts := (n.attempts.finish n.table k).1 } := routine.aside rfl
  simp only [Node.workerFinished]
  split
  · exact routine.trans noted (routine.launch ..)
  · exact noted

theorem stage_of_owner_ne {h : HandshakeTask} (other : h.owner ≠ .managed) :
    (Task.handshake h).stage = none := by
  have chase : (Task.handshake h).chase = none := if_neg other
  rw [Task.stage, chase]

theorem Routine.startHandshake (routine : Routine R) (n : Node) {owner : HandshakeOwner}
    (other : owner ≠ .managed) (target : RpcTarget) (type : String) (abort : AbortRule) :
    R n (n.startHandshake owner target type abort) :=
  routine.spawn n (stage_of_owner_ne other)

theorem Routine.connectAll (routine : Routine R) (n : Node) {as : List RingAddress}
    (pinned : ∀ a ∈ as, n.managed.state? a ≠ none) : R n (n.connectAll as) := by
  induction as generalizing n with
  | nil => exact routine.refl n
  | cons a as ih =>
    have first := routine.seek n (pinned a List.mem_cons_self)
    have rest := ih (n.connectPinned a) fun b member => pinned b (List.mem_cons_of_mem a member)
    exact routine.trans first rest

/-! Policies. -/

theorem Routine.activateLeaf (routine : Routine R) (n : Node) : R n n.activateLeaf := by
  simp only [Node.activateLeaf]
  split
  · refine routine.trans ?_ (routine.launch ..)
    exact routine.aside rfl
  · exact routine.aside rfl

theorem Routine.trimLeafs (routine : Routine R) (n : Node) (newest : EdgeId) :
    R n (n.trimLeafs newest).2 := by
  simp only [Node.trimLeafs]
  split
  · refine routine.trans ?_ (routine.act _ rfl)
    exact routine.aside rfl
  · exact routine.aside rfl
  · exact routine.act _ rfl

theorem Routine.activateUnstructured (routine : Routine R) (n : Node) :
    R n n.activateUnstructured := by
  have noted := routine.attend n
    (n.unstructured.desired_activate n.config.unstructured (n.table.view .leaf) n.words)
    (n.unstructured.current_activate n.config.unstructured (n.table.view .leaf) n.words)
  simp only [Node.activateUnstructured]
  split
  · refine routine.trans (routine.trans noted ?_) (routine.startHandshake _ (by decide) ..)
    exact routine.aside rfl
  · exact routine.trans noted (routine.aside rfl)

theorem Routine.checkPins (routine : Routine R) (n : Node) : R n n.checkPins :=
  routine.connectAll n fun _ => ManagedOverlord.state?_ne_none_of_mem_idle

theorem Routine.activateManaged (routine : Routine R) (n : Node) : R n n.activateManaged := by
  unfold Node.activateManaged
  split
  · exact routine.checkPins n
  · exact routine.refl n

theorem Routine.activateDiscovery (routine : Routine R) (n : Node) : R n n.activateDiscovery := by
  simp only [Node.activateDiscovery]
  split
  · refine routine.trans (routine.trans ?_ (routine.act _ rfl)) (routine.spawnResting _ rfl)
    exact routine.aside rfl
  · exact routine.aside rfl

theorem Routine.activate (routine : Routine R) (n : Node) (k : OverlordKind) : R n (n.activate k) := by
  cases k with
  | leaf => exact routine.activateLeaf n
  | unstructured => exact routine.activateUnstructured n
  | managed => exact routine.activateManaged n
  | discovery => exact routine.activateDiscovery n

theorem Routine.setActive (routine : Routine R) (n : Node) (active : Bool) (k : OverlordKind) :
    R n (n.setActive active k) := by
  cases k with
  | leaf | discovery => exact routine.aside rfl
  | unstructured => exact routine.attend n rfl rfl
  | managed => exact routine.mark n fun _ unpinned => unpinned

theorem Routine.beat (routine : Routine R) (n : Node) (k : OverlordKind) : R n (n.beat k) := by
  have seek (k : OverlordKind) : R n (if n.isActive k && n.needs k then n.activate k else n) := by
    split
    · exact routine.activate n k
    · exact routine.refl n
  cases k with
  | leaf => exact seek .leaf
  | unstructured => exact seek .unstructured
  | managed =>
    simp only [Node.beat]
    split
    · rename_i checked due
      have same := ManagedOverlord.pins_of_beginCheck? due
      have noted : R n { n with managed := checked } := by
        refine routine.mark n fun a unpinned => ?_
        rw [ManagedOverlord.state?, same]
        exact unpinned
      exact routine.trans noted (routine.checkPins _)
    · exact routine.refl n
  | discovery => exact routine.activateDiscovery n

theorem Routine.markStates (routine : Routine R) (n : Node)
    (f : RingAddress → PinState → PinState) : R n { n with managed := n.managed.mapStates f } :=
  routine.mark n fun _ => (ManagedOverlord.state?_mapStates_eq_none_iff f).mpr

theorem Routine.markState (routine : Routine R) (n : Node) (a : RingAddress) (s : PinState) :
    R n { n with managed := n.managed.setState a s } :=
  routine.markStates n fun b t => if b = a then s else t

theorem Routine.linkUp (routine : Routine R) (n : Node) (c : Connection) {k : OverlordKind}
    (other : k ≠ .unstructured) : R n (n.linkUp c k) := by
  cases k with
  | leaf =>
    simp only [Node.linkUp]
    split
    · have trimmed : R n ({ n with leaf := n.leaf.resetBackoff n.config.leaf }.trimLeafs c.edge).2 := by
        refine routine.trans ?_ (routine.trimLeafs ..)
        exact routine.aside rfl
      split
      · exact routine.trans trimmed (routine.activateLeaf _)
      · exact trimmed
    · exact routine.refl n
  | unstructured => exact absurd rfl other
  | managed =>
    simp only [Node.linkUp]
    split
    · exact routine.markState n c.address .on
    · exact routine.refl n
  | discovery => exact routine.refl n

theorem Routine.linkDown (routine : Routine R) (n : Node) (c : Connection) {k : OverlordKind}
    (other : k ≠ .unstructured) : R n (n.linkDown c k) := by
  cases k with
  | leaf =>
    simp only [Node.linkDown]
    split
    · exact routine.activateLeaf n
    · exact routine.refl n
  | unstructured => exact absurd rfl other
  | managed =>
    have marked : R n { n with managed := (n.managed.linkDown c.address).2 } :=
      routine.markState n c.address .off
    simp only [Node.linkDown]
    split
    · split
      · rename_i wanted
        refine routine.trans marked (routine.seek _ ?_)
        simp only [ManagedOverlord.linkDown, Bool.and_eq_true] at wanted
        have pinned := Option.isSome_iff_ne_none.mp wanted.2
        exact (ManagedOverlord.state?_mapStates_eq_none_iff _).not.mpr pinned
      · exact marked
    · exact routine.refl n
  | discovery => exact routine.refl n

theorem Routine.hear (routine : Routine R) (e : TableEvent) (n : Node) {k : OverlordKind}
    (other : k ≠ .unstructured) : R n (hear e n k) := by
  cases e with
  | connected c => exact routine.linkUp n c other
  | disconnected c => exact routine.linkDown n c other

theorem Routine.resyncOne (routine : Routine R) (n : Node) {k : OverlordKind}
    (other : k ≠ .unstructured) : R n (n.resyncOne k) := by
  cases k with
  | leaf | discovery => exact routine.refl n
  | unstructured => exact absurd rfl other
  | managed => exact routine.trans (routine.markStates n _) (routine.activateManaged _)

theorem Routine.heartbeat (routine : Routine R) (n : Node) : R n n.heartbeat :=
  routine.foldl routine.beat n.overlords n

theorem Routine.start (routine : Routine R) (n : Node) : R n n.start := by
  have switched := routine.foldl (routine.setActive · true) n.overlords n
  exact routine.trans switched (routine.foldl routine.activate n.overlords _)

theorem Routine.stop (routine : Routine R) (n : Node) : R n n.stop :=
  routine.foldl (routine.setActive · false) n.overlords n

theorem Routine.unpin (routine : Routine R) (n : Node) (a : RingAddress) : R n (n.unpin a).2 := by
  have unpinned : R n { n with managed := (n.managed.unpin a).2 } :=
    routine.mark n fun _ => ManagedOverlord.state?_unpin_eq_none a
  simp only [Node.unpin]
  split
  · split
    · exact routine.trans unpinned (routine.act _ rfl)
    · exact unpinned
  · exact unpinned

theorem Routine.pin (routine : Routine R) (n : Node) (a : RingAddress)
    (pinned : R n { n with managed := (n.managed.pin n.here a (n.isConnected a)).2 }) :
    R n (n.pin a) := by
  simp only [Node.pin]
  split
  · rename_i wanted
    refine routine.trans pinned (routine.seek _ ?_)
    exact ManagedOverlord.state?_pin_ne_none wanted
  · exact pinned

/-! Tasks. -/

theorem Routine.handleReply (routine : Routine R) (owner : HandshakeOwner) (reply : ConnectRequest)
    (n : Node) : R n (handleReply owner reply n).2 := by
  cases owner with
  | unstructured | managed => exact routine.submit n (.ofMessage reply)
  | outside policy =>
    cases policy with
    | collect | first => exact routine.act n rfl
    | link => exact routine.submit n (.ofMessage reply)

theorem Routine.turn (routine : Routine R) (h : HandshakeTask) (n : Node) :
    R n (h.turn n.here (n.shouldAbort h.abort) (Node.handleReply h.owner) n).2 :=
  h.turn_keeps routine.refl (fun _ _ _ => routine.trans) (routine.handleReply h.owner) _ n

theorem Routine.finishHandshake (routine : Routine R) (n : Node) (owner : HandshakeOwner)
    (r : HandshakeReport) : R n (n.finishHandshake owner r) := by
  cases owner with
  | unstructured =>
    have noted : R n { n with unstructured := n.unstructured.finish.2 } := routine.attend n rfl rfl
    simp only [Node.finishHandshake, unstructuredFinished]
    split
    · exact routine.trans noted (routine.activateUnstructured _)
    · exact noted
  | managed =>
    simp only [Node.finishHandshake, managedFinished]
    split
    · exact routine.refl n
    · rename_i a _
      have noted : R n { n with managed := (n.managed.finish a (n.isConnected a)).2 } :=
        routine.mark n fun _ => ManagedOverlord.state?_finish_eq_none _
      split
      · exact routine.trans noted (routine.spawn _ rfl)
      · exact noted
  | outside policy => exact routine.act n rfl

theorem Routine.pollLink (routine : Routine R) (n : Node) (id : TaskId) (role : LinkRole)
    (ended : Bool) : R n (n.pollLink id role ended) := by
  unfold Node.pollLink
  split
  · exact routine.refl n
  · refine routine.trans (routine.endTask n id) ?_
    cases role with
    | keyed k => exact routine.workerFinished ..
    | untargeted => exact routine.refl _
    | leaf =>
      refine routine.trans ?_ (routine.activateLeaf _)
      exact routine.aside rfl

theorem Routine.pollRetry (routine : Routine R) (n : Node) (id : TaskId) (a : RingAddress)
    (pausing due : Bool) : R n (n.pollRetry id a pausing due) := by
  have ended := routine.endTask n id
  simp only [Node.pollRetry]
  split
  · split
    · rename_i wanted
      exact routine.trans ended (routine.seek _ (ManagedOverlord.state?_ne_none_of_wantsRetry wanted))
    · exact ended
  · split
    · exact routine.refl n
    · exact routine.trans (routine.wakeAt ..) (routine.setIdle _ id rfl)

theorem Routine.pollQuery (routine : Routine R) (n : Node) (id : TaskId) (q : QueryTask) :
    R n (n.pollQuery id q) := by
  have learned : R n (q.inbox.foldl learn n) := by
    refine routine.foldl (fun n r => ?_) q.inbox n
    unfold learn
    split
    · exact routine.aside rfl
    · exact routine.refl n
  refine routine.trans learned ?_
  simp only [Node.pollQuery]
  split
  · refine routine.trans (routine.endTask _ id) ?_
    exact routine.aside rfl
  · exact routine.setIdle _ id rfl

/-! What comes in. -/

theorem Routine.expire (routine : Routine R) (n : Node) (id : TaskId) : R n (n.expire id) := by
  unfold Node.expire
  split
  · rename_i found
    exact routine.resume found rfl rfl
  · exact routine.resumeIdle n id rfl
  · exact routine.wake n id
  · exact routine.refl n

theorem Routine.deliver (routine : Routine R) (n : Node) (id : TaskId) (e : RpcEvent)
    (received : ∀ h, n.task? id = some (.handshake h) →
      R n (n.setTask id (.handshake { h with toHandshake := h.receive e }))) :
    R n (n.deliver id e).2 := by
  unfold Node.deliver
  split
  · rename_i found
    split
    · exact routine.refl n
    · exact routine.trans (received _ found) (routine.wake ..)
  · exact routine.refl n

theorem Routine.hangUp (routine : Routine R) (n : Node) (id : TaskId) : R n (n.hangUp id) := by
  unfold Node.hangUp
  split
  · rename_i found
    exact routine.resume found rfl rfl
  · exact routine.refl n

theorem Routine.finishLink (routine : Routine R) (n : Node) (id : TaskId) :
    R n (n.finishLink id).2 := by
  unfold Node.finishLink
  split
  · exact routine.resumeIdle n id rfl
  · exact routine.refl n

theorem Routine.deliverFound (routine : Routine R) (n : Node) (id : TaskId) (r : DiscoveryReply) :
    R n (n.deliverFound id r).2 := by
  unfold Node.deliverFound
  split
  · split
    · exact routine.resumeIdle n id rfl
    · exact routine.refl n
  · exact routine.refl n

theorem Routine.endFound (routine : Routine R) (n : Node) (id : TaskId) : R n (n.endFound id).2 := by
  unfold Node.endFound
  split
  · simp only
    split
    · exact routine.refl n
    · exact routine.resumeIdle n id rfl
  · exact routine.refl n

theorem Routine.dispatch (routine : Routine R) (n : Node) (method : String) (args : Value) :
    R n (n.dispatch method args).2 := by
  have answered (r : ConnectRequest) : R n (n.answerRequest r).2 := by
    unfold answerRequest
    split
    · exact routine.refl n
    · have linked : R n (n.linkTo r).2 := routine.submit n (.ofMessage r)
      split <;> simp_all
  unfold Node.dispatch
  split
  · exact routine.refl n
  · unfold answerConnect
    split
    · exact routine.refl n
    · exact answered _
  · exact routine.refl n

theorem Routine.publish (routine : Routine R) (n : Node) (e : TableEvent) : R n (n.publish e) := by
  refine routine.foldl (fun m u => ?_) n.tasks n
  unfold hand
  split
  · split
    · exact routine.resumeIdle m u.1 rfl
    · exact routine.refl m
  · exact routine.refl m

theorem Routine.shutdown (routine : Routine R) (n : Node) : R n n.shutdown.2 := by
  refine routine.foldl (fun m u => ?_) n.tasks n
  obtain ⟨id, t⟩ := u
  cases t with
  | drive l => exact routine.resumeIdle m id rfl
  | handshake | link | retry | query => exact routine.refl m

/-! Moves. -/

def Counts (n : Node) : NodeMove → Prop
  | .step (.read _) | .resync _ | .linkUp _ _ | .linkDown _ _ => True
  | .step (.poll id) => ∃ l, n.task? id = some (.drive l)
  | _ => False

/-- What a relation must allow besides the routine so that it holds across a move: that the table
changes, that a peer is pinned, that a handshake is polled and that something comes in for it. -/
def Allows (R : Node → Node → Prop) (n : Node) : NodeMove → Prop
  | .step (.add c) => ∀ table, n.table.add c = .ok table → R n { n with table }
  | .step (.removeEdge e) => R n { n with table := n.table.removeEdge e }
  | .step (.pin a) => R n { n with managed := (n.managed.pin n.here a (n.isConnected a)).2 }
  | .step (.poll id) => ∀ h, n.task? id = some (.handshake h) → R n (n.pollHandshake id h)
  | .step (.deliver id e) => ∀ h, n.task? id = some (.handshake h) →
    R n (n.setTask id (.handshake { h with toHandshake := h.receive e }))
  | _ => True

theorem Routine.poll (routine : Routine R) (n : Node) (id : TaskId)
    (handshakes : ∀ h, n.task? id = some (.handshake h) → R n (n.pollHandshake id h))
    (loops : ∀ l, n.task? id = some (.drive l) → R n (n.poll id)) : R n (n.poll id) := by
  cases found : n.task? id with
  | none =>
    simp only [Node.poll, found]
    exact routine.refl n
  | some t =>
    cases t with
    | drive l => exact loops l found
    | handshake h =>
      simp only [Node.poll, found]
      exact handshakes h found
    | link role ended =>
      simp only [Node.poll, found]
      exact routine.pollLink ..
    | retry a pausing due =>
      simp only [Node.poll, found]
      exact routine.pollRetry ..
    | query q =>
      simp only [Node.poll, found]
      exact routine.pollQuery ..

theorem Routine.move (routine : Routine R) (n : Node) (m : NodeMove) (allows : Allows R n m)
    (counts : n.Counts m → R n (n.move m)) : R n (n.move m) := by
  cases m with
  | run => exact routine.spawn n rfl
  | shutdown => exact routine.shutdown n
  | activate k => exact routine.activate n k
  | switch active k => exact routine.setActive n active k
  | beat k => exact routine.beat n k
  | resync k | linkUp c k | linkDown c k => exact counts trivial
  | step s =>
    cases s with
    | add c =>
      simp only [Node.move, step, addLink]
      cases taken : n.table.add c with
      | ok table => exact routine.trans (allows table taken) (routine.publish ..)
      | error e => exact routine.refl n
    | removeEdge e =>
      refine routine.trans allows ?_
      exact routine.foldl (fun m c => routine.publish m (.disconnected c)) (n.table.detach e).1 _
    | read id => exact counts trivial
    | heartbeat => exact routine.heartbeat n
    | pin a => exact routine.pin n a allows
    | unpin a => exact routine.unpin n a
    | poll id => exact routine.poll n id allows fun l found => counts ⟨l, found⟩
    | expire id => exact routine.expire n id
    | deliver id e => exact routine.deliver n id e allows
    | hangUp id => exact routine.hangUp n id
    | finishLink id => exact routine.finishLink n id
    | deliverFound id r => exact routine.deliverFound n id r
    | endFound id => exact routine.endFound n id
    | connect policy target request abort timeoutMs => exact routine.spawn n rfl
    | submit r => exact routine.submit n r
    | dispatch method args => exact routine.dispatch n method args
    | route incoming p => exact routine.aside rfl
    | advance ms => exact routine.aside rfl

end

structure CountingRoutine (R : Node → Node → Prop) : Prop extends Routine R where
  recount (n : Node) : R n { n with unstructured := n.unstructured.recount (n.links .unstructured) }
  rise (n : Node) : R n { n with
    unstructured := (n.unstructured.linkUp n.config.unstructured (n.links .unstructured) n.words).1 }

section

variable {R : Node → Node → Prop} {n m : Node} {id : TaskId} {t u : Task}

theorem CountingRoutine.recountUnstructured (routine : CountingRoutine R) (n : Node) :
    R n n.recountUnstructured :=
  routine.trans (routine.recount n) (routine.activateUnstructured _)

theorem CountingRoutine.linkUp (routine : CountingRoutine R) (n : Node) (c : Connection)
    (k : OverlordKind) : R n (n.linkUp c k) := by
  by_cases own : k = .unstructured
  · subst own
    simp only [Node.linkUp]
    split
    · refine routine.trans (routine.trans (routine.rise n) ?_) (routine.activateUnstructured _)
      exact routine.aside rfl
    · exact routine.refl n
  · exact routine.toRoutine.linkUp n c own

theorem CountingRoutine.linkDown (routine : CountingRoutine R) (n : Node) (c : Connection)
    (k : OverlordKind) : R n (n.linkDown c k) := by
  by_cases own : k = .unstructured
  · subst own
    simp only [Node.linkDown]
    split
    · exact routine.recountUnstructured n
    · exact routine.refl n
  · exact routine.toRoutine.linkDown n c own

theorem CountingRoutine.hear (routine : CountingRoutine R) (e : TableEvent) (n : Node)
    (k : OverlordKind) : R n (hear e n k) := by
  cases e with
  | connected c => exact routine.linkUp n c k
  | disconnected c => exact routine.linkDown n c k

theorem CountingRoutine.handleEvent (routine : CountingRoutine R) (n : Node) (e : TableEvent) :
    R n (n.handleEvent e) := by
  rw [handleEvent_eq]
  exact routine.foldl (routine.hear e) n.overlords n

theorem CountingRoutine.resyncOne (routine : CountingRoutine R) (n : Node) (k : OverlordKind) :
    R n (n.resyncOne k) := by
  by_cases own : k = .unstructured
  · subst own
    exact routine.recountUnstructured n
  · exact routine.toRoutine.resyncOne n own

theorem CountingRoutine.resync (routine : CountingRoutine R) (n : Node) : R n n.resync :=
  routine.foldl routine.resyncOne n.overlords n

theorem CountingRoutine.readNext (routine : CountingRoutine R) (n : Node) (id : TaskId) :
    R n (n.readNext id) := by
  unfold Node.readNext
  split
  · split
    · exact routine.trans (routine.setIdle n id rfl) (routine.handleEvent ..)
    · exact routine.trans (routine.setIdle n id rfl) (routine.resync _)
    · exact routine.refl n
  · exact routine.refl n

theorem CountingRoutine.pollRunning (routine : CountingRoutine R) (n : Node) (id : TaskId)
    (l : LoopTask) : R n (n.pollRunning id l) := by
  unfold Node.pollRunning
  split
  · exact routine.trans (routine.endTask n id) (routine.stop _)
  · generalize beatsDue n.config.timing.heartbeatMs n.now l.nextBeat = due
    obtain ⟨beats, nextBeat⟩ := due
    have beaten := routine.repeat routine.heartbeat beats n
    have read (m : Node) : R m (m.handleFeed l.feed) := by
      unfold handleFeed
      split
      · exact routine.resync m
      · exact routine.foldl routine.handleEvent l.feed.unread m
    have woken (m : Node) : R m (if beats = 0 then m else m.wakeAt nextBeat id) := by
      split
      · exact routine.refl m
      · exact routine.wakeAt m nextBeat id
    refine routine.trans beaten (routine.trans (read _) (routine.trans (woken _) ?_))
    exact routine.setIdle _ id rfl

theorem CountingRoutine.pollLoop (routine : CountingRoutine R) (n : Node) (id : TaskId)
    (l : LoopTask) : R n (n.pollLoop id l) := by
  unfold Node.pollLoop
  split
  · exact routine.pollRunning n id l
  · split
    · exact routine.endTask n id
    · exact routine.trans (routine.start n) (routine.pollRunning ..)

theorem CountingRoutine.move (routine : CountingRoutine R) (n : Node) (m : NodeMove)
    (allows : Allows R n m) : R n (n.move m) := by
  refine routine.toRoutine.move n m allows fun counts => ?_
  cases m with
  | resync k => exact routine.resyncOne n k
  | linkUp c k => exact routine.linkUp n c k
  | linkDown c k => exact routine.linkDown n c k
  | run | shutdown | activate | switch | beat => exact counts.elim
  | step s =>
    cases s with
    | read id => exact routine.readNext n id
    | poll id =>
      obtain ⟨l, found⟩ := counts
      simp only [Node.move, Node.step, Node.poll, found]
      exact routine.pollLoop ..
    | _ => exact counts.elim

end

end Node

end RingOverlay

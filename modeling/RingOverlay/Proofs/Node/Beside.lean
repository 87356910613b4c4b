import RingOverlay.Proofs.Node.Pursuit
/-!
What runs beside the policy for pinned peers: link attempts, the other policies, and the handshakes of
other owners. None of it touches the pins or a task of that policy.
-/

set_option autoImplicit false
set_option relaxedAutoImplicit false

namespace RingOverlay.Node

structure Beside (n m : Node) : Prop where
  managed : m.managed = n.managed
  table : m.table = n.table
  overlords : m.overlords = n.overlords
  config : m.config = n.config
  now : m.now = n.now
  sound : n.Sound → m.Sound
  kept : ∀ k ∈ n.chases, k ∈ m.chases
  chasing : m.chasing = n.chasing

section

variable {n m k : Node} {id : TaskId} {t : Task}

theorem Beside.refl (n : Node) : Beside n n :=
  ⟨rfl, rfl, rfl, rfl, rfl, fun sound => sound, fun _ hk => hk, rfl⟩

theorem Beside.trans (first : Beside n m) (second : Beside m k) : Beside n k where
  managed := second.managed.trans first.managed
  table := second.table.trans first.table
  overlords := second.overlords.trans first.overlords
  config := second.config.trans first.config
  now := second.now.trans first.now
  sound sound := second.sound (first.sound sound)
  kept u hu := second.kept u (first.kept u hu)
  chasing := second.chasing.trans first.chasing

theorem Beside.foldl {α : Type} {f : Node → α → Node} (each : ∀ n a, Beside n (f n a))
    (as : List α) (n : Node) : Beside n (as.foldl f n) := by
  induction as generalizing n with
  | nil => exact .refl n
  | cons a as ih => exact (each n a).trans (ih _)

theorem Beside.pursuit_eq (beside : Beside n m) (a : RingAddress) : m.pursuit a = n.pursuit a :=
  pursuit_congr beside.chasing (by rw [beside.managed])

theorem Beside.of_same (managed : m.managed = n.managed) (table : m.table = n.table)
    (overlords : m.overlords = n.overlords) (config : m.config = n.config) (now : m.now = n.now)
    (tasks : m.tasks = n.tasks) (created : m.created = n.created) : Beside n m := by
  have chases : m.chases = n.chases := by rw [Node.chases, tasks, Node.chases]
  refine ⟨managed, table, overlords, config, now, fun sound => ⟨?_, ?_, ?_⟩, fun u hu => ?_, ?_⟩
  · rw [chases, created]
    exact sound.numbered
  · rw [chases]
    exact sound.unique
  · rw [managed]
    exact sound.distinct
  · rw [chases]
    exact hu
  · rw [Node.chasing, chases, Node.chasing]

theorem beside_act (n : Node) (x : NodeAction) : Beside n (n.act x) :=
  .of_same rfl rfl rfl rfl rfl rfl rfl

theorem beside_wakeAt (n : Node) (time : Nat) (id : TaskId) : Beside n (n.wakeAt time id) :=
  .of_same rfl rfl rfl rfl rfl rfl rfl

theorem beside_wake (n : Node) (id : TaskId) : Beside n (n.wake id) := by
  unfold wake
  split
  · exact .refl n
  · exact .of_same rfl rfl rfl rfl rfl rfl rfl

theorem beside_spawnResting (idle : t.chase = none) (n : Node) : Beside n (n.spawnResting t) where
  managed := rfl
  table := rfl
  overlords := rfl
  config := rfl
  now := rfl
  sound sound := sound.spawnResting t
  kept u hu := by
    rw [chases_spawnResting]
    exact List.mem_append_left _ hu
  chasing := by
    rw [Node.chasing, chases_spawnResting, List.filter_append, idle]
    exact List.append_nil _

theorem beside_spawn (idle : t.chase = none) (n : Node) : Beside n (n.spawn t) :=
  have resting := beside_spawnResting idle n
  ⟨rfl, rfl, rfl, rfl, rfl, fun sound => sound.spawn t, resting.kept, resting.chasing⟩

theorem beside_setTask (same : ∀ c, (id, c) ∈ n.chases → c = t.chase) : Beside n (n.setTask id t) where
  managed := rfl
  table := rfl
  overlords := rfl
  config := rfl
  now := rfl
  sound sound := sound.setTask same
  kept u hu := by
    rw [chases_setTask same]
    exact hu
  chasing := by rw [Node.chasing, chases_setTask same, Node.chasing]

theorem beside_resume (same : ∀ c, (id, c) ∈ n.chases → c = t.chase) : Beside n (n.resume id t) :=
  (beside_setTask same).trans (beside_wake ..)

/-! Links and handshakes. -/

theorem beside_launch (n : Node) (role : LinkRole) (r : LinkRequest) :
    Beside n (n.launch role r) :=
  (beside_act ..).trans (beside_spawnResting rfl _)

theorem beside_submit (n : Node) (r : LinkRequest) : Beside n (n.submit r).2 := by
  simp only [submit]
  split
  · refine .trans ?_ (beside_launch ..)
    exact .of_same rfl rfl rfl rfl rfl rfl rfl
  · exact .of_same rfl rfl rfl rfl rfl rfl rfl

theorem beside_workerFinished (n : Node) (k : AttemptKey) : Beside n (n.workerFinished k) := by
  simp only [workerFinished]
  split
  · refine .trans ?_ (beside_launch ..)
    exact .of_same rfl rfl rfl rfl rfl rfl rfl
  · exact .of_same rfl rfl rfl rfl rfl rfl rfl

theorem beside_startHandshake {owner : HandshakeOwner} (other : owner ≠ .managed) (n : Node)
    (target : RpcTarget) (type : String) (abort : AbortRule) :
    Beside n (n.startHandshake owner target type abort) := by
  refine beside_spawn ?_ n
  exact if_neg other

/-! Policies. -/

theorem beside_activateLeaf (n : Node) : Beside n n.activateLeaf := by
  simp only [activateLeaf]
  split
  · refine .trans ?_ (beside_launch ..)
    exact .of_same rfl rfl rfl rfl rfl rfl rfl
  · exact .of_same rfl rfl rfl rfl rfl rfl rfl

theorem beside_trimLeafs (n : Node) (newest : EdgeId) : Beside n (n.trimLeafs newest).2 := by
  simp only [trimLeafs]
  split <;> exact .of_same rfl rfl rfl rfl rfl rfl rfl

theorem beside_activateUnstructured (n : Node) : Beside n n.activateUnstructured := by
  simp only [activateUnstructured]
  split
  · refine .trans ?_ (beside_startHandshake (by decide) ..)
    exact .of_same rfl rfl rfl rfl rfl rfl rfl
  · exact .of_same rfl rfl rfl rfl rfl rfl rfl

theorem beside_recountUnstructured (n : Node) : Beside n n.recountUnstructured := by
  refine .trans ?_ (beside_activateUnstructured _)
  exact .of_same rfl rfl rfl rfl rfl rfl rfl

theorem beside_activateDiscovery (n : Node) : Beside n n.activateDiscovery := by
  simp only [activateDiscovery]
  split
  · refine .trans ?_ (beside_spawnResting rfl _)
    exact .of_same rfl rfl rfl rfl rfl rfl rfl
  · exact .of_same rfl rfl rfl rfl rfl rfl rfl

theorem beside_activate {k : OverlordKind} (other : k ≠ .managed) (n : Node) :
    Beside n (n.activate k) := by
  cases k with
  | leaf => exact beside_activateLeaf n
  | unstructured => exact beside_activateUnstructured n
  | managed => exact absurd rfl other
  | discovery => exact beside_activateDiscovery n

theorem beside_setActive {k : OverlordKind} (other : k ≠ .managed) (active : Bool) (n : Node) :
    Beside n (n.setActive active k) := by
  cases k with
  | leaf | unstructured | discovery => exact .of_same rfl rfl rfl rfl rfl rfl rfl
  | managed => exact absurd rfl other

theorem beside_beat {k : OverlordKind} (other : k ≠ .managed) (n : Node) : Beside n (n.beat k) := by
  cases k with
  | leaf | unstructured =>
    simp only [beat]
    split
    · exact beside_activate other n
    · exact .refl n
  | managed => exact absurd rfl other
  | discovery => exact beside_activateDiscovery n

theorem beside_linkUp {k : OverlordKind} (other : k ≠ .managed) (n : Node) (c : Connection) :
    Beside n (n.linkUp c k) := by
  cases k with
  | leaf =>
    simp only [linkUp]
    split
    · have trimmed : Beside n
          ({ n with leaf := n.leaf.resetBackoff n.config.leaf }.trimLeafs c.edge).2 := by
        refine .trans ?_ (beside_trimLeafs ..)
        exact .of_same rfl rfl rfl rfl rfl rfl rfl
      split
      · exact trimmed.trans (beside_activateLeaf _)
      · exact trimmed
    · exact .refl n
  | unstructured =>
    simp only [linkUp]
    split
    · refine .trans ?_ (beside_activateUnstructured _)
      exact .of_same rfl rfl rfl rfl rfl rfl rfl
    · exact .refl n
  | managed => exact absurd rfl other
  | discovery => exact .refl n

theorem beside_linkDown {k : OverlordKind} (other : k ≠ .managed) (n : Node) (c : Connection) :
    Beside n (n.linkDown c k) := by
  cases k with
  | leaf =>
    simp only [linkDown]
    split
    · exact beside_activateLeaf n
    · exact .refl n
  | unstructured =>
    simp only [linkDown]
    split
    · exact beside_recountUnstructured n
    · exact .refl n
  | managed => exact absurd rfl other
  | discovery => exact .refl n

theorem beside_hear {k : OverlordKind} (other : k ≠ .managed) (e : TableEvent) (n : Node) :
    Beside n (hear e n k) := by
  cases e with
  | connected c => exact beside_linkUp other n c
  | disconnected c => exact beside_linkDown other n c

theorem beside_resyncOne {k : OverlordKind} (other : k ≠ .managed) (n : Node) :
    Beside n (n.resyncOne k) := by
  cases k with
  | leaf | discovery => exact .refl n
  | unstructured => exact beside_recountUnstructured n
  | managed => exact absurd rfl other

/-! Tasks and calls. -/

theorem beside_handleReply (owner : HandshakeOwner) (reply : ConnectRequest) (n : Node) :
    Beside n (handleReply owner reply n).2 := by
  cases owner with
  | unstructured | managed => exact beside_submit n (.ofMessage reply)
  | outside policy =>
    cases policy with
    | collect | first => exact beside_act ..
    | link => exact beside_submit n (.ofMessage reply)

theorem beside_turn (h : HandshakeTask) (n : Node) :
    Beside n (h.turn n.here (n.shouldAbort h.abort) (handleReply h.owner) n).2 :=
  h.turn_keeps .refl (fun _ _ _ => .trans) (beside_handleReply h.owner) _ n

theorem beside_learn (n : Node) (r : DiscoveryReply) : Beside n (n.learn r) := by
  unfold learn
  split
  · exact .of_same rfl rfl rfl rfl rfl rfl rfl
  · exact .refl n

theorem beside_dispatch (n : Node) (method : String) (args : Value) :
    Beside n (n.dispatch method args).2 := by
  have answered (r : ConnectRequest) : Beside n (n.answerRequest r).2 := by
    unfold answerRequest
    split
    · exact .refl n
    · have linked : Beside n (n.linkTo r).2 := beside_submit ..
      split <;> simp_all
  unfold dispatch
  split
  · exact .refl n
  · unfold answerConnect
    split
    · exact .refl n
    · exact answered _
  · exact .refl n

end

end RingOverlay.Node

import RingOverlay.Proofs.Node.Seeking
/-!
What the work of a node is made of. Every move is composed of a few kinds of small changes: a policy
that is switched on seeks something, a handshake ends, a request to link is admitted, a worker finishes,
a task goes on, or something changes that concerns no task. With the changes it is counted how often the
unstructured policy is called, and it is kept apart what may wake a policy and which requests to link
are made that no policy of its own accord has asked for. A property of all runs is then proved by
induction on the small changes.
-/

set_option autoImplicit false
set_option relaxedAutoImplicit false

namespace RingOverlay

/-- Whether an action seeks something: a link, or nodes nearby. -/
def NodeAction.isSearch : NodeAction → Bool
  | .link _ _ | .query _ _ => true
  | .invoke _ _ _ | .close _ _ | .handed _ | .report _ | .overflow => false

theorem UnstructuredOverlord.activate_cases (o : UnstructuredOverlord) (cfg : UnstructuredConfig)
    (leafs : RingView) (ws : Words) :
    (∃ base rest, (base = o.attemptBase ∨ o.connecting = false) ∧
      o.activate cfg leafs ws = (none, { o with attemptBase := base }, rest)) ∨
    ∃ target rest, o.active = true ∧ o.connecting = false ∧
      o.activate cfg leafs ws =
        (some target, { o with connecting := true, attemptBase := o.current }, rest) := by
  unfold activate
  split
  · rename_i wanted
    simp only [Bool.and_eq_true, Bool.not_eq_true'] at wanted
    split
    · exact Or.inr ⟨_, _, wanted.1.1, wanted.1.2, rfl⟩
    · exact Or.inl ⟨_, _, Or.inr wanted.1.2, rfl⟩
  · exact Or.inl ⟨_, _, Or.inl rfl, rfl⟩

theorem UnstructuredOverlord.linkUp_keeps (o : UnstructuredOverlord) (cfg : UnstructuredConfig)
    (count : Nat) (ws : Words) :
    (o.linkUp cfg count ws).1.active = o.active ∧ (o.linkUp cfg count ws).1.connecting = o.connecting ∧
      (o.linkUp cfg count ws).1.attemptBase = o.attemptBase := by
  unfold linkUp
  split <;> exact ⟨rfl, rfl, rfl⟩

namespace Task

def isWalk : Task → Bool
  | .handshake h => h.owner = .unstructured
  | .link _ _ | .retry _ _ _ | .query _ | .drive _ => false

/-- Whether a task may end without anything else that has to happen at once. -/
def isFree : Task → Bool
  | .handshake h => h.owner ≠ .unstructured
  | .link (.keyed _) _ => false
  | .link _ _ | .retry _ _ _ | .query _ | .drive _ => true

def isPlain : Task → Bool
  | .handshake h => h.owner ≠ .unstructured ∧ h.owner ≠ .managed ∧ h.exchange.responses = []
  | .retry _ _ _ | .drive _ => true
  | .link _ _ | .query _ => false

/-- A task goes on: it is about the same as before, and a handshake keeps no further reply that names
the node itself. -/
inductive GoesOn (here : RingAddress) : Task → Task → Prop
  | handshake {h k : HandshakeTask} (owner : k.owner = h.owner)
      (kept : ∀ r ∈ k.exchange.responses, r ∈ h.exchange.responses ∨ r.target.address ≠ here)
      (request : k.exchange.request = h.exchange.request) : GoesOn here (.handshake h) (.handshake k)
  | link {role : LinkRole} {ended ended' : Bool} : GoesOn here (.link role ended) (.link role ended')
  | retry {a : RingAddress} {pausing due pausing' due' : Bool} :
      GoesOn here (.retry a pausing due) (.retry a pausing' due')
  | query {q q' : QueryTask} : GoesOn here (.query q) (.query q')
  | drive {l l' : LoopTask} : GoesOn here (.drive l) (.drive l')

theorem GoesOn.isLoop {here : RingAddress} {t u : Task} (goes : t.GoesOn here u) :
    Node.isLoop t = Node.isLoop u := by
  cases goes <;> rfl

end Task

namespace Node

/-- A node without what may change though none of its tasks is concerned. -/
def frame (n : Node) : Node :=
  { n with
    table := .empty
    remoteTransports := []
    leaf := .fresh {}
    unstructured := .fresh {}
    managed := .fresh 0
    discovery := .fresh
    words := []
    now := 0
    ready := []
    timers := [] }

def scenery (n : Node) : Node :=
  { n with
    table := .empty
    remoteTransports := []
    words := []
    now := 0
    ready := []
    timers := [] }

/-- A change that concerns none of the tasks, no policy is switched on by it unless `wakes`, and the
node itself is neither pinned nor discovered. -/
structure Aside (wakes : Prop) (n m : Node) : Prop where
  frame : m.frame = n.frame
  active : ∀ k, m.isActive k = true → n.isActive k = true ∨ wakes
  walking : { m.unstructured with active := false } = { n.unstructured with active := false }
  pinned : ∀ a, n.managed.state? a = none → m.managed.state? a = none ∨ a ≠ n.here
  discovered : ∀ a ∈ m.discovery.discovered, a ∈ n.discovery.discovered ∨ a ≠ n.here

/-- A node becomes another one by small changes, with so many calls of the unstructured policy. The
changes end only tasks whose number is below `old`, they switch a policy on only if `wakes`, and they
admit only requests to link, or hand only waiting ones to a worker, for which `asks` holds. -/
inductive Works (old : TaskId) (wakes : Prop) (asks : LinkRequest → Prop) : Nat → Node → Node → Prop
  | nothing (n : Node) : Works old wakes asks 0 n n
  | chain {c d : Nat} {n m k : Node} (first : Works old wakes asks c n m)
      (second : Works old wakes asks d m k) : Works old wakes asks (c + d) n k
  /-- The unstructured policy is called, and need not do anything. -/
  | unheeded (n : Node) : Works old wakes asks 1 n n
  | aside {n m : Node} (change : Aside wakes n m) : Works old wakes asks 0 n m
  | tell (n : Node) {x : NodeAction} (quiet : x.isSearch = false) : Works old wakes asks 0 n (n.act x)
  | begin (n : Node) {t : Task} (plain : t.isPlain = true) : Works old wakes asks 0 n (n.spawnResting t)
  | goOn (n : Node) {id : TaskId} {t : Task} (goes : ∀ u, (id, u) ∈ n.tasks → u.GoesOn n.here t) :
      Works old wakes asks 0 n (n.setTask id t)
  | finish (n : Node) {id : TaskId} (early : id < old)
      (free : ∀ t, (id, t) ∈ n.tasks → t.isFree = true) : Works old wakes asks 0 n (n.endTask id)
  | submit (n : Node) {r : LinkRequest} (asked : asks r) : Works old wakes asks 0 n (n.submit r).2
  | worker (n : Node) {id : TaskId} {k : AttemptKey} (early : id < old)
      (own : ∀ t, (id, t) ∈ n.tasks → t = .link (.keyed k) true)
      (asked : ∀ r rest, n.attempts.queue? k = some (r :: rest) → asks r) :
      Works old wakes asks 0 n ((n.endTask id).workerFinished k)
  | seekLeaf (n : Node) {r : LinkRequest} (active : n.leaf.active = true) (anyone : r.target = none) :
      Works old wakes asks 0 n (n.launch .leaf r)
  | seekWalk (n : Node) {unstructured : UnstructuredOverlord}
      (active : unstructured.active = n.unstructured.active)
      (connecting : unstructured.connecting = n.unstructured.connecting)
      (attemptBase : unstructured.attemptBase = n.unstructured.attemptBase) :
      Works old wakes asks 1 n ({ n with unstructured }.activateUnstructured)
  | endWalk (n : Node) {id : TaskId} (early : id < old) (there : ∃ t, (id, t) ∈ n.tasks)
      (own : ∀ t, (id, t) ∈ n.tasks → t.isWalk = true) :
      Works old wakes asks 0 n (n.endTask id).unstructuredFinished
  | seekPin (n : Node) {a : RingAddress} (active : n.managed.active = true) :
      Works old wakes asks 0 n (n.connectPinned a)
  | seekNearby (n : Node) (active : n.discovery.active = true) :
      Works old wakes asks 0 n ((n.act (.query n.created default)).spawnResting (.query ⟨[], false⟩))

section

variable {old : TaskId} {wakes : Prop} {asks : LinkRequest → Prop} {c : Nat} {n m k : Node}
  {id : TaskId} {t u : Task}

theorem Works.trans (first : Works old wakes asks 0 n m) (second : Works old wakes asks c m k) :
    Works old wakes asks c n k :=
  Nat.zero_add c ▸ first.chain second

theorem Works.andThen (first : Works old wakes asks c n m) (second : Works old wakes asks 0 m k) :
    Works old wakes asks c n k :=
  first.chain second

/-! What the larger of the small changes come to. -/

theorem activateUnstructured_cases (n : Node) :
    (∃ base words, (base = n.unstructured.attemptBase ∨ n.unstructured.connecting = false) ∧
      n.activateUnstructured =
        { n with unstructured := { n.unstructured with attemptBase := base }, words }) ∨
    ∃ target words, n.unstructured.active = true ∧ n.unstructured.connecting = false ∧
      n.activateUnstructured =
        ({ n with
          unstructured := { n.unstructured with
            connecting := true
            attemptBase := n.unstructured.current }
          words }).startHandshake .unstructured target MainType.unstructured.name (.decided false) := by
  rcases n.unstructured.activate_cases n.config.unstructured (n.table.view .leaf) n.words with
    ⟨base, words, stays, sought⟩ | ⟨target, words, active, idle, sought⟩
  · refine Or.inl ⟨base, words, stays, ?_⟩
    simp only [activateUnstructured, sought]
  · refine Or.inr ⟨target, words, active, idle, ?_⟩
    simp only [activateUnstructured, sought]

theorem submit_cases (n : Node) (r : LinkRequest) :
    (n.submit r).2 = n ∨
    (r.target = none ∧ (n.submit r).2 = n.launch .untargeted r) ∨
    ∃ k, r.key? = some k ∧ k.target ≠ n.here ∧
      ((∃ q, n.attempts.queue? k = some q ∧
        (n.submit r).2 = { n with attempts := n.attempts.put k (q ++ [r]) }) ∨
      (n.attempts.queue? k = none ∧
        (n.submit r).2 = { n with attempts := n.attempts.put k [] }.launch (.keyed k) r)) := by
  simp only [submit]
  rcases n.attempts.submit_cases n.here n.table r with ⟨anyone, submitted⟩ | ⟨k, key, cases⟩
  · rw [submitted]
    exact Or.inr (Or.inl ⟨Option.map_eq_none_iff.mp anyone, rfl⟩)
  · rcases cases with ⟨-, submitted⟩ | ⟨-, -, submitted⟩ | ⟨away, -, q, waiting, submitted⟩ |
      ⟨away, -, idle, submitted⟩
    · rw [submitted]
      exact Or.inl rfl
    · rw [submitted]
      exact Or.inl rfl
    · rw [submitted]
      exact Or.inr (Or.inr ⟨k, key, away, Or.inl ⟨q, waiting, rfl⟩⟩)
    · rw [submitted]
      exact Or.inr (Or.inr ⟨k, key, away, Or.inr ⟨idle, rfl⟩⟩)

theorem workerFinished_cases (n : Node) (key : AttemptKey) :
    (n.attempts.queue? key = none ∧ n.workerFinished key = n) ∨
    n.workerFinished key = { n with attempts := n.attempts.erase key } ∨
    ∃ r rest, n.attempts.queue? key = some (r :: rest) ∧
      n.workerFinished key = { n with attempts := n.attempts.put key rest }.launch (.keyed key) r := by
  simp only [workerFinished]
  rcases n.attempts.finish_cases n.table key with ⟨idle, finished⟩ | ⟨q, queue, cases⟩
  · rw [finished]
    exact Or.inl ⟨idle, rfl⟩
  · rcases cases with ⟨-, finished⟩ | ⟨-, -, finished⟩ | ⟨-, r, rest, rfl, finished⟩
    · rw [finished]
      exact Or.inr (Or.inl rfl)
    · rw [finished]
      exact Or.inr (Or.inl rfl)
    · rw [finished]
      exact Or.inr (Or.inr ⟨r, rest, queue, rfl⟩)

/-- A relation between a node before and after that holds where only the attempts change, and where a
worker is started for a request for which `asks` holds. -/
structure Linking (asks : LinkRequest → Prop) (R : Node → Node → Prop) : Prop where
  refl : ∀ n, R n n
  trans : ∀ {n m k}, R n m → R m k → R n k
  attempts : ∀ n attempts, R n { n with attempts }
  launch : ∀ n {role r}, role ≠ .leaf → asks r → R n (n.launch role r)

variable {R : Node → Node → Prop}

theorem Linking.submit (linking : Linking asks R) (n : Node) {r : LinkRequest} (asked : asks r) :
    R n (n.submit r).2 := by
  rcases n.submit_cases r with same | ⟨-, launched⟩ | ⟨key, -, -, ⟨q, -, queued⟩ | ⟨-, launched⟩⟩
  · rw [same]
    exact linking.refl n
  · rw [launched]
    exact linking.launch n nofun asked
  · rw [queued]
    exact linking.attempts n _
  · rw [launched]
    exact linking.trans (linking.attempts n _) (linking.launch _ nofun asked)

theorem Linking.workerFinished (linking : Linking asks R) (n : Node) {key : AttemptKey}
    (asked : ∀ r rest, n.attempts.queue? key = some (r :: rest) → asks r) :
    R n (n.workerFinished key) := by
  rcases n.workerFinished_cases key with ⟨-, same⟩ | erased | ⟨r, rest, waiting, launched⟩
  · rw [same]
    exact linking.refl n
  · rw [erased]
    exact linking.attempts n _
  · rw [launched]
    exact linking.trans (linking.attempts n _) (linking.launch _ nofun (asked r rest waiting))

/-! What no work touches, and what becomes of the tasks. -/

structure Persists (old : TaskId) (n m : Node) : Prop where
  here : m.here = n.here
  config : m.config = n.config
  overlords : m.overlords = n.overlords
  created : n.created ≤ m.created
  numbered : n.Numbered → m.Numbered
  loops : ∀ i u, (i, u) ∈ m.tasks → i < n.created → ∃ t, (i, t) ∈ n.tasks ∧ isLoop t = isLoop u
  stays : ∀ i, old ≤ i → (n.created ≤ i ∨ ∃ t, (i, t) ∈ n.tasks) → i < m.created →
    ∃ t, (i, t) ∈ m.tasks

theorem Persists.of_tasks (here : m.here = n.here) (config : m.config = n.config)
    (overlords : m.overlords = n.overlords) (tasks : m.tasks = n.tasks)
    (created : m.created = n.created) : Persists old n m := by
  refine ⟨here, config, overlords, Nat.le_of_eq created.symm, (·.congr tasks created),
    fun i u member _ => ⟨u, tasks ▸ member, rfl⟩, fun i _ there new => ?_⟩
  rw [tasks]
  exact there.resolve_left (Nat.not_le_of_lt (created ▸ new))

theorem Persists.of_frame (same : m.frame = n.frame) : Persists old n m := by
  exact .of_tasks (congrArg Node.here same :) (congrArg Node.config same :)
    (congrArg Node.overlords same :) (congrArg Node.tasks same :) (congrArg Node.created same :)

theorem Persists.trans (first : Persists old n m) (second : Persists old m k) : Persists old n k where
  here := second.here.trans first.here
  config := second.config.trans first.config
  overlords := second.overlords.trans first.overlords
  created := Nat.le_trans first.created second.created
  numbered numbered := second.numbered (first.numbered numbered)
  loops i u member old := by
    obtain ⟨t, there, same⟩ := second.loops i u member (Nat.lt_of_lt_of_le old first.created)
    obtain ⟨s, before, equal⟩ := first.loops i t there old
    exact ⟨s, before, equal.trans same⟩
  stays i recent there new := by
    by_cases between : i < m.created
    · exact second.stays i recent (Or.inr (first.stays i recent there between)) new
    · exact second.stays i recent (Or.inl (Nat.not_lt.mp between)) new

theorem persists_act (n : Node) (x : NodeAction) : Persists old n (n.act x) := .of_tasks rfl rfl rfl rfl rfl

theorem persists_spawnResting (n : Node) (t : Task) : Persists old n (n.spawnResting t) := by
  refine ⟨rfl, rfl, rfl, Nat.le_succ _, (·.spawnResting t), fun i u member before => ?_,
    fun i _ there new => ?_⟩
  · rcases List.mem_append.mp member with there | new
    · exact ⟨u, there, rfl⟩
    · cases List.mem_singleton.mp new
      exact absurd before (Nat.lt_irrefl _)
  · rcases there with latest | ⟨u, before⟩
    · have same : i = n.created := Nat.le_antisymm (Nat.lt_succ_iff.mp new) latest
      exact ⟨t, List.mem_append_right _ (List.mem_singleton.mpr (by rw [same]))⟩
    · exact ⟨u, List.mem_append_left _ before⟩

theorem mem_setTask {v : TaskId × Task} (member : v ∈ (n.setTask id t).tasks) :
    v ∈ n.tasks ∨ v = (id, t) ∧ ∃ u, (id, u) ∈ n.tasks := by
  obtain ⟨⟨i, u⟩, there, rfl⟩ := List.mem_map.mp member
  by_cases own : i = id
  · subst own
    exact Or.inr ⟨if_pos rfl, u, there⟩
  · exact Or.inl (by simpa only [if_neg own] using there)

theorem mem_setTask_of_mem {i : TaskId} (member : (i, u) ∈ n.tasks) (id : TaskId) (t : Task) :
    (i, if i = id then t else u) ∈ (n.setTask id t).tasks := by
  refine List.mem_map.mpr ⟨(i, u), member, ?_⟩
  show (if i = id then (i, t) else (i, u)) = _
  split <;> rfl

theorem persists_setTask (n : Node) (goes : ∀ u, (id, u) ∈ n.tasks → u.GoesOn n.here t) :
    Persists old n (n.setTask id t) := by
  refine ⟨rfl, rfl, rfl, Nat.le_refl _, (·.setTask id t), fun i u member _ => ?_,
    fun i _ there new => ?_⟩
  · rcases mem_setTask member with there | ⟨same, v, there⟩
    · exact ⟨u, there, rfl⟩
    · cases same
      exact ⟨v, there, (goes v there).isLoop⟩
  · obtain ⟨u, before⟩ := there.resolve_left (Nat.not_le_of_lt new)
    exact ⟨_, mem_setTask_of_mem before id t⟩

theorem persists_endTask (n : Node) (early : id < old) : Persists old n (n.endTask id) := by
  refine ⟨rfl, rfl, rfl, Nat.le_refl _, (·.endTask id),
    fun _ u member _ => ⟨u, List.mem_of_mem_filter member, rfl⟩, fun i recent there new => ?_⟩
  obtain ⟨u, before⟩ := there.resolve_left (Nat.not_le_of_lt new)
  have other : i ≠ id := Nat.ne_of_gt (Nat.lt_of_lt_of_le early recent)
  exact ⟨u, List.mem_filter.mpr ⟨before, bne_iff_ne.mpr other⟩⟩

theorem persists_launch (n : Node) (role : LinkRole) (r : LinkRequest) : Persists old n (n.launch role r) :=
  (persists_act n _).trans (persists_spawnResting _ _)

theorem persists_linking : Linking asks (Persists old) where
  refl _ := .of_frame rfl
  trans := .trans
  attempts _ _ := .of_tasks rfl rfl rfl rfl rfl
  launch n _ _ _ _ := persists_launch n _ _

theorem persists_spawn (n : Node) (t : Task) : Persists old n (n.spawn t) :=
  (persists_spawnResting n t).trans (.of_frame rfl)

theorem persists_activateUnstructured (n : Node) : Persists old n n.activateUnstructured := by
  rcases n.activateUnstructured_cases with ⟨base, words, -, sought⟩ | ⟨target, words, -, -, sought⟩
  · rw [sought]
    exact .of_frame rfl
  · rw [sought]
    refine .trans ?_ (persists_spawn _ _)
    exact .of_frame rfl

theorem Works.kept (works : Works old wakes asks c n m) : Persists old n m := by
  induction works with
  | nothing | unheeded => exact .of_frame rfl
  | chain _ _ first second => exact first.trans second
  | aside change => exact .of_frame change.frame
  | tell n => exact persists_act n _
  | begin n => exact persists_spawnResting n _
  | goOn n goes => exact persists_setTask n goes
  | finish n early => exact persists_endTask n early
  | submit n asked => exact persists_linking.submit n asked
  | worker n early own asked =>
    exact (persists_endTask n early).trans (persists_linking.workerFinished _ asked)
  | seekLeaf n => exact persists_launch n _ _
  | seekWalk n =>
    refine .trans ?_ (persists_activateUnstructured _)
    exact .of_frame rfl
  | endWalk n early =>
    rename_i id _ _
    refine (persists_endTask n early).trans ?_
    simp only [unstructuredFinished]
    split
    · refine .trans ?_ (persists_activateUnstructured _)
      exact .of_frame rfl
    · exact .of_frame rfl
  | seekPin n => exact persists_spawn n _
  | seekNearby n => exact (persists_act n _).trans (persists_spawnResting _ _)

/-! Changes that concern no task. -/

theorem works_scenery (same : m.scenery = n.scenery) : Works old wakes asks 0 n m := by
  have leaf : m.leaf = n.leaf := (congrArg Node.leaf same :)
  have unstructured : m.unstructured = n.unstructured := (congrArg Node.unstructured same :)
  have managed : m.managed = n.managed := (congrArg Node.managed same :)
  have discovery : m.discovery = n.discovery := (congrArg Node.discovery same :)
  refine .aside ⟨(congrArg frame same :), fun k active => Or.inl ?_, by rw [unstructured], ?_, ?_⟩
  · cases k <;> simpa only [isActive, leaf, unstructured, managed, discovery] using active
  · exact fun a unpinned => Or.inl (managed ▸ unpinned)
  · exact fun a member => Or.inl (discovery ▸ member)

theorem works_leaf (n : Node) {leaf : LeafOverlord} (active : leaf.active = n.leaf.active) :
    Works old wakes asks 0 n { n with leaf } := by
  refine .aside ⟨rfl, fun k on => Or.inl ?_, rfl, fun _ => Or.inl, fun _ => Or.inl⟩
  cases k with
  | leaf => exact active.symm.trans on
  | unstructured | managed | discovery => exact on

theorem works_pins (n : Node) {managed : ManagedOverlord} (active : managed.active = n.managed.active)
    (pinned : ∀ a, n.managed.state? a = none → managed.state? a = none ∨ a ≠ n.here) :
    Works old wakes asks 0 n { n with managed } := by
  refine .aside ⟨rfl, fun k on => Or.inl ?_, rfl, pinned, fun _ => Or.inl⟩
  cases k with
  | managed => exact active.symm.trans on
  | leaf | unstructured | discovery => exact on

theorem works_states (n : Node) (f : RingAddress → PinState → PinState) :
    Works old wakes asks 0 n { n with managed := n.managed.mapStates f } :=
  works_pins n rfl fun _ unpinned =>
    Or.inl ((ManagedOverlord.state?_mapStates_eq_none_iff f).mpr unpinned)

theorem works_state (n : Node) (a : RingAddress) (s : PinState) :
    Works old wakes asks 0 n { n with managed := n.managed.setState a s } :=
  works_states n fun b t => if b = a then s else t

theorem works_found (n : Node) {discovery : DiscoveryOverlord}
    (active : discovery.active = n.discovery.active)
    (discovered : ∀ a ∈ discovery.discovered, a ∈ n.discovery.discovered ∨ a ≠ n.here) :
    Works old wakes asks 0 n { n with discovery } := by
  refine .aside ⟨rfl, fun k on => Or.inl ?_, rfl, fun _ => Or.inl, discovered⟩
  cases k with
  | discovery => exact active.symm.trans on
  | leaf | unstructured | managed => exact on

theorem works_setActive (n : Node) {active : Bool} (woken : active = true → wakes) (k : OverlordKind) :
    Works old wakes asks 0 n (n.setActive active k) := by
  have woken' : ∀ b : Bool, active = true → b = true ∨ wakes := fun _ on => Or.inr (woken on)
  cases k with
  | leaf | discovery | unstructured | managed =>
    refine .aside ⟨rfl, fun j on => ?_, rfl, fun _ => Or.inl, fun _ => Or.inl⟩
    cases j <;> first | exact Or.inl on | exact woken' _ on

/-! Tasks. -/

theorem works_wake (n : Node) (id : TaskId) : Works old wakes asks 0 n (n.wake id) := by
  unfold wake
  split
  · exact .nothing n
  · exact works_scenery rfl

theorem works_spawn (n : Node) (plain : t.isPlain = true) : Works old wakes asks 0 n (n.spawn t) :=
  (Works.begin n plain).trans (works_scenery rfl)

theorem Numbered.goOn (numbered : n.Numbered) (found : n.task? id = some u)
    (goes : u.GoesOn n.here t) : Works old wakes asks 0 n (n.setTask id t) := by
  refine .goOn n fun v member => ?_
  rw [numbered.eq_of_mem found member]
  exact goes

theorem Numbered.resume (numbered : n.Numbered) (found : n.task? id = some u)
    (goes : u.GoesOn n.here t) : Works old wakes asks 0 n (n.resume id t) :=
  (numbered.goOn found goes).trans (works_wake _ id)

theorem Numbered.finish (numbered : n.Numbered) (early : id < old) (found : n.task? id = some t)
    (free : t.isFree = true) : Works old wakes asks 0 n (n.endTask id) := by
  refine .finish n early fun u member => ?_
  rw [numbered.eq_of_mem found member]
  exact free

def Drives (n : Node) (id : TaskId) : Prop := ∀ u, (id, u) ∈ n.tasks → isLoop u = true

theorem Numbered.drives (numbered : n.Numbered) (there : (id, t) ∈ n.tasks) (loop : isLoop t = true) :
    n.Drives id := by
  intro u member
  have same : u = t :=
    congrArg Prod.snd (List.inj_on_of_nodup_map numbered.unique member there rfl)
  rw [same, loop]

theorem Persists.drives (kept : Persists old n m) (before : id < n.created) (drives : n.Drives id) :
    m.Drives id := by
  intro u member
  obtain ⟨t, there, same⟩ := kept.loops id u member before
  rw [← same]
  exact drives t there

theorem Drives.goOn (drives : n.Drives id) (l : LoopTask) :
    Works old wakes asks 0 n (n.setTask id (.drive l)) := by
  refine .goOn n fun u member => ?_
  cases u with
  | drive => exact .drive
  | handshake | link | retry | query => cases drives _ member

theorem works_loops {f : Node → TaskId × Task → Node} (numbered : n.Numbered)
    (loop : ∀ m id l, ∃ l', f m (id, .drive l) = m ∨ f m (id, .drive l) = m.resume id (.drive l'))
    (other : ∀ m v, isLoop v.2 = false → f m v = m) :
    Works old wakes asks 0 n (n.tasks.foldl f n) := by
  -- What was a loop when the round began is one when its turn comes.
  have round (vs : List (TaskId × Task)) (m : Node) (subset : vs ⊆ n.tasks) (kept : Persists old n m) :
      Works old wakes asks 0 m (vs.foldl f m) := by
    induction vs generalizing m with
    | nil => exact .nothing m
    | cons v vs ih =>
      obtain ⟨id, t⟩ := v
      have there := subset List.mem_cons_self
      have turn : Works old wakes asks 0 m (f m (id, t)) := by
        cases t with
        | handshake | link | retry | query =>
          rw [other m _ rfl]
          exact .nothing m
        | drive l =>
          obtain ⟨l', same | resumed⟩ := loop m id l
          · rw [same]
            exact .nothing m
          · rw [resumed]
            have old := numbered.given id (List.mem_map_of_mem there)
            have drives := kept.drives old (numbered.drives there rfl)
            exact (drives.goOn l').trans (works_wake _ id)
      exact turn.trans (ih _ (List.subset_of_cons_subset subset) (kept.trans turn.kept))
  exact round n.tasks n (List.Subset.refl _) (.of_frame rfl)

theorem works_publish (numbered : n.Numbered) (e : TableEvent) :
    Works old wakes asks 0 n (n.publish e) := by
  refine works_loops numbered (fun m id l => ?_) fun m v other => ?_
  · refine ⟨{ l with feed := l.feed.push e }, ?_⟩
    simp only [hand]
    split
    · exact Or.inr rfl
    · exact Or.inl rfl
  · obtain ⟨id, t⟩ := v
    cases t with
    | drive => cases other
    | handshake | link | retry | query => rfl

theorem works_shutdown (numbered : n.Numbered) : Works old wakes asks 0 n n.shutdown.2 := by
  refine works_loops numbered (fun m id l => ⟨_, Or.inr rfl⟩) fun m v other => ?_
  obtain ⟨id, t⟩ := v
  cases t with
  | drive => cases other
  | handshake | link | retry | query => rfl

/-! Policies. -/

theorem works_activateLeaf (n : Node) : Works old wakes asks 0 n n.activateLeaf := by
  have active : (n.leaf.activate n.config.leaf n.now (n.links .leaf) n.remoteTransports).2.active =
      n.leaf.active := by
    unfold LeafOverlord.activate
    split
    · split <;> rfl
    · rfl
  have noted : Works old wakes asks 0 n
      { n with leaf := (n.leaf.activate n.config.leaf n.now (n.links .leaf) n.remoteTransports).2 } :=
    works_leaf n active
  simp only [activateLeaf]
  split
  · rename_i go
    have on : n.leaf.active = true := by
      unfold LeafOverlord.activate at go
      split at go
      · rename_i wanted
        simp only [Bool.and_eq_true] at wanted
        exact wanted.1.1
      · cases go
    refine noted.trans (.trans ?_ (.seekLeaf _ (active.trans on) rfl))
    exact works_scenery rfl
  · exact noted

theorem works_trimLeafs (n : Node) (newest : EdgeId) :
    Works old wakes asks 0 n (n.trimLeafs newest).2 := by
  simp only [trimLeafs]
  split
  · refine .trans ?_ (.tell _ rfl)
    exact works_scenery rfl
  · exact works_scenery rfl
  · exact .tell _ rfl

theorem works_activateUnstructured (n : Node) : Works old wakes asks 1 n n.activateUnstructured :=
  .seekWalk n rfl rfl rfl

theorem works_connectAll (as : List RingAddress) (active : n.managed.active = true) :
    Works old wakes asks 0 n (n.connectAll as) := by
  induction as generalizing n with
  | nil => exact .nothing n
  | cons a as ih => exact (Works.seekPin n active).trans (ih (n := n.connectPinned a) active)

theorem works_activateManaged (n : Node) : Works old wakes asks 0 n n.activateManaged := by
  unfold activateManaged
  split
  · rename_i active
    exact works_connectAll _ active
  · exact .nothing n

theorem works_activateDiscovery (n : Node) : Works old wakes asks 0 n n.activateDiscovery := by
  have same : (n.discovery.activate n.config.discovery n.now n.table.size).2.active =
        n.discovery.active ∧
      (n.discovery.activate n.config.discovery n.now n.table.size).2.discovered =
        n.discovery.discovered := by
    unfold DiscoveryOverlord.activate
    split <;> exact ⟨rfl, rfl⟩
  have noted : Works old wakes asks 0 n
      { n with discovery := (n.discovery.activate n.config.discovery n.now n.table.size).2 } :=
    works_found n same.1 fun a member => Or.inl (same.2 ▸ member)
  simp only [activateDiscovery]
  split
  · rename_i go
    have on : n.discovery.active = true := by
      unfold DiscoveryOverlord.activate at go
      split at go
      · rename_i wanted
        simp only [Bool.and_eq_true] at wanted
        exact wanted.1.1.1.1
      · cases go
    exact noted.trans (.seekNearby _ (same.1.trans on))
  · exact noted

theorem works_activate (n : Node) (k : OverlordKind) :
    Works old wakes asks ([k].count .unstructured) n (n.activate k) := by
  cases k with
  | leaf => exact works_activateLeaf n
  | unstructured => exact works_activateUnstructured n
  | managed => exact works_activateManaged n
  | discovery => exact works_activateDiscovery n

theorem works_beat (n : Node) (k : OverlordKind) :
    Works old wakes asks ([k].count .unstructured) n (n.beat k) := by
  cases k with
  | leaf =>
    simp only [beat]
    split
    · exact works_activateLeaf n
    · exact .nothing n
  | unstructured =>
    simp only [beat]
    split
    · exact works_activateUnstructured n
    · exact .unheeded n
  | managed =>
    simp only [beat]
    split
    · rename_i checked due
      unfold ManagedOverlord.beginCheck? at due
      split at due
      · rename_i wanted
        cases due
        refine .trans ?_ (works_connectAll _ (Bool.and_eq_true_iff.mp wanted).1)
        exact works_pins n rfl fun _ => Or.inl
      · cases due
    · exact .nothing n
  | discovery => exact works_activateDiscovery n

theorem works_recount (n : Node) : Works old wakes asks 1 n n.recountUnstructured :=
  .seekWalk n rfl rfl rfl

theorem works_linkUp (n : Node) (link : Connection) (k : OverlordKind) :
    Works old wakes asks ([k].count .unstructured) n (n.linkUp link k) := by
  cases k with
  | leaf =>
    simp only [linkUp]
    split
    · have trimmed : Works old wakes asks 0 n
          ({ n with leaf := n.leaf.resetBackoff n.config.leaf }.trimLeafs link.edge).2 := by
        refine .trans ?_ (works_trimLeafs _ _)
        exact works_leaf n rfl
      split
      · exact trimmed.trans (works_activateLeaf _)
      · exact trimmed
    · exact .nothing n
  | unstructured =>
    simp only [linkUp]
    split
    · have same := n.unstructured.linkUp_keeps n.config.unstructured (n.links .unstructured) n.words
      generalize n.unstructured.linkUp n.config.unstructured (n.links .unstructured) n.words = told
        at same
      have drawn : Works old wakes asks 0 n { n with words := told.2 } := works_scenery rfl
      exact drawn.trans (.seekWalk { n with words := told.2 } same.1 same.2.1 same.2.2)
    · exact .unheeded n
  | managed =>
    simp only [linkUp]
    split
    · exact works_state n link.address .on
    · exact .nothing n
  | discovery => exact .nothing n

theorem works_linkDown (n : Node) (link : Connection) (k : OverlordKind) :
    Works old wakes asks ([k].count .unstructured) n (n.linkDown link k) := by
  cases k with
  | leaf =>
    simp only [linkDown]
    split
    · exact works_activateLeaf n
    · exact .nothing n
  | unstructured =>
    simp only [linkDown]
    split
    · exact works_recount n
    · exact .unheeded n
  | managed =>
    have noted : Works old wakes asks 0 n { n with managed := (n.managed.linkDown link.address).2 } :=
      works_state n link.address .off
    simp only [linkDown]
    split
    · split
      · rename_i go
        exact noted.trans (.seekPin _ (Bool.and_eq_true_iff.mp go).1)
      · exact noted
    · exact .nothing n
  | discovery => exact .nothing n

theorem works_resyncOne (n : Node) (k : OverlordKind) :
    Works old wakes asks ([k].count .unstructured) n (n.resyncOne k) := by
  cases k with
  | leaf | discovery => exact .nothing n
  | unstructured => exact works_recount n
  | managed => exact (works_states n _).trans (works_activateManaged _)

theorem works_each {f : Node → OverlordKind → Node}
    (each : ∀ n k, Works old wakes asks ([k].count .unstructured) n (f n k)) (ks : List OverlordKind)
    (n : Node) : Works old wakes asks (ks.count .unstructured) n (ks.foldl f n) := by
  induction ks generalizing n with
  | nil => exact .nothing n
  | cons k ks ih =>
    rw [← List.singleton_append, List.count_append]
    exact (each n k).chain (ih _)

theorem works_heartbeat (n : Node) :
    Works old wakes asks (n.overlords.count .unstructured) n n.heartbeat :=
  works_each works_beat n.overlords n

theorem works_handleEvent (n : Node) (e : TableEvent) :
    Works old wakes asks (n.overlords.count .unstructured) n (n.handleEvent e) := by
  cases e with
  | connected link => exact works_each (fun n k => works_linkUp n link k) n.overlords n
  | disconnected link => exact works_each (fun n k => works_linkDown n link k) n.overlords n

theorem works_resync (n : Node) : Works old wakes asks (n.overlords.count .unstructured) n n.resync :=
  works_each works_resyncOne n.overlords n

theorem works_switched {active : Bool} (woken : active = true → wakes) (ks : List OverlordKind)
    (n : Node) : Works old wakes asks 0 n (ks.foldl (setActive · active) n) := by
  induction ks generalizing n with
  | nil => exact .nothing n
  | cons k ks ih => exact (works_setActive n woken k).trans (ih _)

theorem works_stop (n : Node) : Works old wakes asks 0 n n.stop := works_switched nofun n.overlords n

theorem works_start (n : Node) (woken : wakes) :
    Works old wakes asks (n.overlords.count .unstructured) n n.start :=
  (works_switched (fun _ => woken) n.overlords n).trans (works_each works_activate n.overlords _)

end

end Node

end RingOverlay

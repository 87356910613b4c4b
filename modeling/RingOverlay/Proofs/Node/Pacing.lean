import Mathlib.Tactic.Ring
import RingOverlay.Node.LeafSteps
import RingOverlay.Proofs.Node.Tasks
/-!
The attempts of the leaf policy. One is under way at most, and the pause after each of them, which
doubles up to a limit, is kept until a leaf link comes up.
-/

set_option autoImplicit false
set_option relaxedAutoImplicit false

namespace RingOverlay

def Task.isLeafAttempt : Task → Bool
  | .link .leaf _ => true
  | _ => false

def NodeAction.isLink : NodeAction → Bool
  | .link _ _ => true
  | _ => false

/-- Whether the leaf policy makes an attempt when it is asked to seek a link: it is switched on, wants
a link, none is under way and the pause is over. -/
def LeafOverlord.opens (o : LeafOverlord) (cfg : LeafConfig) (now count : Nat) : Bool :=
  o.active && needs cfg count && o.mayTry now

namespace Node

def leafAttempts (n : Node) : Nat := n.tasks.countP (·.2.isLeafAttempt)

def opens (n : Node) : Bool := n.leaf.opens n.config.leaf n.now (n.links .leaf)

/-- The node at the moment of a step at which its leaf policy is asked to seek a link, if it is. -/
def seeksAt (n : Node) : LeafStep → Option Node
  | .activate | .beat => some n
  | .linkUp c =>
    if c.mainType = .leaf then
      let (trimmed, m) := { n with leaf := n.leaf.resetBackoff n.config.leaf }.trimLeafs c.edge
      if trimmed then some m else none
    else none
  | .linkDown c => if c.mainType = .leaf then some n else none
  | .poll id =>
    match n.task? id with
    | some (.link .leaf true) => some { n.endTask id with leaf := n.leaf.finish }
    | _ => none
  | _ => none

/-- Whether the policy makes an attempt in a step, were it only that there is no endpoint to try. -/
def passes (n : Node) (s : LeafStep) : Bool := (n.seeksAt s).any opens

def submits (n : Node) (s : LeafStep) : Bool :=
  ((n.leafStep s).actions.drop n.actions.length).any (·.isLink)

def pauseAt (n : Node) (s : LeafStep) : Nat :=
  if s.isLeafUp then n.config.leaf.retryIntervalMs else n.leaf.retryInterval

/-- The attempts since the policy was last told of a leaf link that came up, where there were so many
before. -/
def attemptsSince (n : Node) (before : Nat) : List LeafStep → Nat
  | [] => before
  | s :: steps =>
    (n.leafStep s).attemptsSince
      ((if s.isLeafUp then 0 else before) + if n.passes s then 1 else 0) steps

/-- The node has no work under way but one attempt of the leaf policy at most, and the policy remembers
whether there is one. -/
def OneAttempt (n : Node) : Prop :=
  n.leaf.linking = false ∧ n.tasks = [] ∨
    n.leaf.linking = true ∧ ∃ id ended, n.tasks = [(id, .link .leaf ended)]

/-- The leaf policy after so many attempts. Apart from them the node has no work under way. -/
structure Paced (cfg : LeafConfig) (attempts : Nat) (n : Node) : Prop where
  config : n.config.leaf = cfg
  pause : n.leaf.retryInterval = min (2 ^ attempts * cfg.retryIntervalMs) cfg.longestIntervalMs
  alone : n.OneAttempt

section

variable {n m : Node} {cfg : LeafConfig} {k bound : Nat} {s : LeafStep} {id : TaskId}

theorem activateLeaf_cases (n : Node) :
    n.opens = false ∧ n.activateLeaf = n ∨
    n.opens = true ∧
      (n.activateLeaf = { n with leaf := (n.leaf.begin n.config.leaf n.now).finish } ∨
      ∃ words r, n.activateLeaf =
        { n with leaf := n.leaf.begin n.config.leaf n.now, words }.launch .leaf r) := by
  by_cases opens : n.opens = true
  · right
    refine ⟨opens, ?_⟩
    have go : (n.leaf.active && LeafOverlord.needs n.config.leaf (n.links .leaf) &&
        n.leaf.mayTry n.now) = true := opens
    simp only [activateLeaf, LeafOverlord.activate, go, if_true]
    cases n.remoteTransports.isEmpty
    · exact Or.inr ⟨_, _, rfl⟩
    · exact Or.inl rfl
  · left
    rw [Bool.not_eq_true] at opens
    have stay : (n.leaf.active && LeafOverlord.needs n.config.leaf (n.links .leaf) &&
        n.leaf.mayTry n.now) = false := opens
    refine ⟨opens, ?_⟩
    simp [activateLeaf, LeafOverlord.activate, stay]

theorem opens_iff : n.opens = true ↔ (n.leaf.active = true ∧
    LeafOverlord.needs n.config.leaf (n.links .leaf) = true) ∧ n.leaf.linking = false ∧
      ∀ t ∈ n.leaf.nextAttempt, t ≤ n.now := by
  unfold opens LeafOverlord.opens LeafOverlord.mayTry
  cases n.leaf.nextAttempt <;> simp

private theorem pause_succ (attempts first limit : Nat) :
    min (2 * min (2 ^ attempts * first) limit) limit = min (2 ^ (attempts + 1) * first) limit := by
  have double : 2 ^ (attempts + 1) * first = 2 * (2 ^ attempts * first) := by ring
  omega

theorem Paced.activateLeaf (paced : Paced cfg k n) :
    Paced cfg (k + if n.opens then 1 else 0) n.activateLeaf := by
  obtain ⟨config, pause, alone⟩ := paced
  have longer : (n.leaf.begin n.config.leaf n.now).retryInterval =
      min (2 ^ (k + 1) * cfg.retryIntervalMs) cfg.longestIntervalMs := by
    rw [← pause_succ, ← pause, ← config]
    rfl
  rcases n.activateLeaf_cases with ⟨closed, same⟩ | ⟨opens, begun⟩
  · rw [closed, same]
    exact ⟨config, pause, alone⟩
  · have idle : n.tasks = [] := by
      have free := (opens_iff.mp opens).2.1
      rcases alone with ⟨-, idle⟩ | ⟨busy, -⟩
      · exact idle
      · rw [free] at busy
        cases busy
    rw [opens, if_pos rfl]
    rcases begun with given_up | ⟨words, r, launched⟩
    · rw [given_up]
      exact ⟨config, longer, Or.inl ⟨rfl, idle⟩⟩
    · rw [launched]
      refine ⟨config, longer, Or.inr ⟨rfl, n.created, false, ?_⟩⟩
      simp [launch, act, spawnResting, idle]

/-- A node in the course of a step, as long as its leaf policy has not been asked to seek a link,
compared with the node before that step. -/
structure Rest (n : Node) (s : LeafStep) (m : Node) : Prop where
  config : m.config = n.config
  pause : m.leaf.retryInterval = n.pauseAt s
  next : s.isLeafUp = false → m.leaf.nextAttempt = n.leaf.nextAttempt
  asked : ∃ told, m.actions = n.actions ++ told ∧ told.any (·.isLink) = false
  alone : m.OneAttempt

structure Turn (n : Node) (s : LeafStep) (m : Node) : Prop extends Rest n s m where
  now : m.now = n.now

theorem Rest.silent (rest : Rest n s (n.leafStep s)) : n.submits s = false := by
  obtain ⟨told, actions, silent⟩ := rest.asked
  rw [submits, actions, List.drop_left]
  exact silent

theorem Paced.tasks_of_task? {t : Task} (paced : Paced cfg k n) (found : n.task? id = some t) :
    ∃ ended, t = .link .leaf ended ∧ n.tasks = [(id, .link .leaf ended)] ∧ n.leaf.linking = true := by
  rcases paced.alone with ⟨-, idle⟩ | ⟨busy, i, ended, tasks⟩
  · simp [task?, idle] at found
  · have member := mem_of_task? found
    rw [tasks, List.mem_singleton, Prod.mk.injEq] at member
    obtain ⟨rfl, rfl⟩ := member
    exact ⟨ended, rfl, tasks, busy⟩

private theorem asked_nothing (n : Node) :
    ∃ told, n.actions = n.actions ++ told ∧ told.any (·.isLink) = false :=
  ⟨[], (List.append_nil _).symm, rfl⟩

theorem seeksAt_cases (seeks : n.seeksAt s = some m) :
    (s = .activate ∨ s = .beat) ∧ m = n ∨
    (∃ c : Connection, s = .linkUp c ∧ c.mainType = .leaf ∧
      { n with leaf := n.leaf.resetBackoff n.config.leaf }.trimLeafs c.edge = (true, m)) ∨
    (∃ c : Connection, s = .linkDown c ∧ c.mainType = .leaf ∧ m = n) ∨
    ∃ id, s = .poll id ∧ n.task? id = some (.link .leaf true) ∧
      m = { n.endTask id with leaf := n.leaf.finish } := by
  unfold seeksAt at seeks
  split at seeks
  · exact Or.inl ⟨Or.inl rfl, (Option.some.inj seeks).symm⟩
  · exact Or.inl ⟨Or.inr rfl, (Option.some.inj seeks).symm⟩
  · rename_i c
    by_cases type : c.mainType = .leaf
    · rw [if_pos type] at seeks
      generalize trimmed : trimLeafs _ c.edge = r at seeks
      obtain ⟨_ | _, m'⟩ := r
      · cases seeks
      · obtain rfl : m' = m := Option.some.inj seeks
        exact Or.inr (Or.inl ⟨c, rfl, type, trimmed⟩)
    · rw [if_neg type] at seeks
      cases seeks
  · split at seeks
    case isTrue type => exact Or.inr (Or.inr (Or.inl ⟨_, rfl, type, (Option.some.inj seeks).symm⟩))
    case isFalse => cases seeks
  · split at seeks
    case h_1 found => exact Or.inr (Or.inr (Or.inr ⟨_, rfl, found, (Option.some.inj seeks).symm⟩))
    case h_2 => cases seeks
  · cases seeks

/-- A trim may ask for an edge to be closed, or break off, and changes nothing else but the random
words. -/
private theorem trimLeafs_turn (alone : n.OneAttempt) {c : Connection} (type : c.mainType = .leaf) :
    Turn n (.linkUp c) ({ n with leaf := n.leaf.resetBackoff n.config.leaf }.trimLeafs c.edge).2 := by
  have up : (LeafStep.linkUp c).isLeafUp = true := decide_eq_true type
  have first : (n.leaf.resetBackoff n.config.leaf).retryInterval = n.pauseAt (.linkUp c) := by
    rw [pauseAt, if_pos up]
    rfl
  have told (other : (LeafStep.linkUp c).isLeafUp = false) : False := by
    rw [up] at other
    cases other
  simp only [trimLeafs]
  split
  · exact ⟨⟨rfl, first, fun other => (told other).elim, ⟨_, rfl, rfl⟩, alone⟩, rfl⟩
  · exact ⟨⟨rfl, first, fun other => (told other).elim, asked_nothing n, alone⟩, rfl⟩
  · exact ⟨⟨rfl, first, fun other => (told other).elim, ⟨_, rfl, rfl⟩, alone⟩, rfl⟩

theorem Paced.turn (paced : Paced cfg k n) (seeks : n.seeksAt s = some m) : Turn n s m := by
  rcases seeksAt_cases seeks with ⟨rfl | rfl, rfl⟩ | ⟨c, rfl, type, trimmed⟩ | ⟨c, rfl, -, rfl⟩ |
    ⟨id, rfl, found, rfl⟩
  · exact ⟨⟨rfl, rfl, fun _ => rfl, asked_nothing m, paced.alone⟩, rfl⟩
  · exact ⟨⟨rfl, rfl, fun _ => rfl, asked_nothing m, paced.alone⟩, rfl⟩
  · have turn := trimLeafs_turn paced.alone type
    rwa [trimmed] at turn
  · exact ⟨⟨rfl, rfl, fun _ => rfl, asked_nothing m, paced.alone⟩, rfl⟩
  · obtain ⟨ended, -, tasks, -⟩ := paced.tasks_of_task? found
    refine ⟨⟨rfl, rfl, fun _ => rfl, asked_nothing n, Or.inl ⟨rfl, ?_⟩⟩, rfl⟩
    simp [endTask, tasks]

theorem leafStep_of_seeksAt (seeks : n.seeksAt s = some m) : n.leafStep s = m.activateLeaf := by
  rcases seeksAt_cases seeks with ⟨rfl | rfl, rfl⟩ | ⟨c, rfl, type, trimmed⟩ | ⟨c, rfl, type, rfl⟩ |
    ⟨id, rfl, found, rfl⟩
  · rfl
  · -- A heartbeat asks first what the policy itself asks again.
    by_cases wanted : (m.isActive .leaf && m.needs .leaf) = true
    · exact if_pos wanted
    · refine (if_neg wanted).trans ?_
      rcases m.activateLeaf_cases with ⟨-, same⟩ | ⟨opens, -⟩
      · exact same.symm
      · obtain ⟨active, needs⟩ := (opens_iff.mp opens).1
        exact absurd (Bool.and_eq_true_iff.mpr ⟨active, needs⟩) wanted
  · simp only [leafStep, linkUp, if_pos type, trimmed, if_true]
  · exact if_pos type
  · simp only [leafStep, poll, found]
    rfl

private theorem Paced.rests (paced : Paced cfg k n) (other : s.isLeafUp = false) : Rest n s n := by
  refine ⟨rfl, ?_, fun _ => rfl, asked_nothing n, paced.alone⟩
  simp [pauseAt, other]

theorem Paced.rest (paced : Paced cfg k n) (rests : n.seeksAt s = none) : Rest n s (n.leafStep s) := by
  cases s with
  | activate | beat => cases rests
  | linkUp c =>
    by_cases type : c.mainType = .leaf
    · have turn := trimLeafs_turn paced.alone type
      simp only [seeksAt, if_pos type] at rests
      simp only [leafStep, linkUp, if_pos type]
      split
      · rename_i trimmed
        rw [if_pos trimmed] at rests
        cases rests
      · exact turn.toRest
    · simp only [leafStep, linkUp, if_neg type]
      exact paced.rests (decide_eq_false type)
  | linkDown c =>
    simp only [seeksAt] at rests
    split at rests
    · cases rests
    · rename_i other
      simp only [leafStep, linkDown, if_neg other]
      exact paced.rests rfl
  | finish id =>
    simp only [leafStep, finishLink]
    split
    case h_1 role found =>
      obtain ⟨ended, link, tasks, busy⟩ := paced.tasks_of_task? found
      obtain ⟨rfl, -⟩ := Task.link.inj link
      have set : (n.setTask id (.link .leaf true)).tasks = [(id, .link .leaf true)] := by
        simp [setTask, tasks]
      unfold resume wake
      split <;>
        exact ⟨rfl, rfl, fun _ => rfl, asked_nothing n, Or.inr ⟨busy, id, true, set⟩⟩
    case h_2 => exact paced.rests rfl
  | poll id =>
    simp only [leafStep, poll]
    cases found : n.task? id with
    | none => exact paced.rests rfl
    | some t =>
      obtain ⟨ended, rfl, -⟩ := paced.tasks_of_task? found
      cases ended with
      | false => exact paced.rests rfl
      | true => simp [seeksAt, found] at rests
  | switch | links | endpoints | words | advance =>
    exact ⟨rfl, rfl, fun _ => rfl, asked_nothing n, paced.alone⟩

theorem Paced.of_rest (paced : Paced cfg k n) (rest : Rest n s m) :
    Paced cfg (if s.isLeafUp then 0 else k) m := by
  refine ⟨?_, ?_, rest.alone⟩
  · rw [rest.config, paced.config]
  · rw [rest.pause, pauseAt]
    split
    · rw [paced.config]
      have limit : cfg.retryIntervalMs ≤ cfg.longestIntervalMs := Nat.le_max_right ..
      simp [limit]
    · exact paced.pause

def WaitsUntil (bound : Nat) (n : Node) : Prop := ∃ t ∈ n.leaf.nextAttempt, bound ≤ t

theorem Paced.leafStep (paced : Paced cfg k n) (s : LeafStep) :
    Paced cfg ((if s.isLeafUp then 0 else k) + if n.passes s then 1 else 0) (n.leafStep s) := by
  cases seeks : n.seeksAt s with
  | some m =>
    have asked := paced.of_rest (paced.turn seeks).toRest
    have passes : n.passes s = m.opens := by simp [Node.passes, seeks]
    rw [leafStep_of_seeksAt seeks, passes]
    exact asked.activateLeaf
  | none =>
    have quiet : n.passes s = false := by simp [Node.passes, seeks]
    rw [quiet]
    exact paced.of_rest (paced.rest seeks)

theorem Paced.begun_or_kept (paced : Paced cfg k n) (s : LeafStep) :
    (s.isLeafUp = false → ∀ t ∈ n.leaf.nextAttempt, t ≤ n.now) ∧
        (n.leafStep s).leaf.nextAttempt = some (n.now + n.pauseAt s) ∨
      n.submits s = false ∧
        (s.isLeafUp = false → (n.leafStep s).leaf.nextAttempt = n.leaf.nextAttempt) := by
  cases seeks : n.seeksAt s with
  | some m =>
    have turn := paced.turn seeks
    rcases m.activateLeaf_cases with ⟨-, same⟩ | ⟨opens, begun⟩
    · right
      have stepped : n.leafStep s = m := (leafStep_of_seeksAt seeks).trans same
      rw [← stepped] at turn
      exact ⟨turn.silent, turn.next⟩
    · left
      refine ⟨fun other => ?_, ?_⟩
      · rw [← turn.next other, ← turn.now]
        exact (opens_iff.mp opens).2.2
      · rw [leafStep_of_seeksAt seeks, ← turn.pause, ← turn.now]
        rcases begun with given_up | ⟨words, r, launched⟩
        · rw [given_up]
          rfl
        · rw [launched]
          rfl
  | none =>
    have rest := paced.rest seeks
    exact Or.inr ⟨rest.silent, rest.next⟩

theorem Paced.waits (paced : Paced cfg k n) (other : s.isLeafUp = false) (waits : WaitsUntil bound n) :
    WaitsUntil bound (n.leafStep s) ∧ (n.submits s = true → bound ≤ n.now) := by
  obtain ⟨t, next, late⟩ := waits
  rcases paced.begun_or_kept s with ⟨elapsed, begun⟩ | ⟨silent, kept⟩
  · have due := elapsed other t next
    refine ⟨⟨_, begun, ?_⟩, fun _ => late.trans due⟩
    omega
  · refine ⟨⟨t, (kept other).trans next, late⟩, fun submitted => ?_⟩
    rw [silent] at submitted
    cases submitted

theorem Paced.leafSteps (paced : Paced cfg k n) (steps : List LeafStep) :
    Paced cfg (n.attemptsSince k steps) (n.leafSteps steps) := by
  induction steps generalizing n k with
  | nil => exact paced
  | cons s steps ih => exact ih (paced.leafStep s)

theorem Paced.waits_steps (paced : Paced cfg k n) (waits : WaitsUntil bound n) (steps : List LeafStep)
    (others : ∀ s ∈ steps, s.isLeafUp = false) : WaitsUntil bound (n.leafSteps steps) := by
  induction steps generalizing n k with
  | nil => exact waits
  | cons s steps ih =>
    have next := (paced.waits (others s List.mem_cons_self) waits).1
    exact ih (paced.leafStep s) next fun t later => others t (List.mem_cons_of_mem s later)

theorem paced_of_fresh (idle : n.tasks = []) (fresh : n.leaf = .fresh n.config.leaf) :
    Paced n.config.leaf 0 n := by
  have below : n.config.leaf.retryIntervalMs ≤ n.config.leaf.longestIntervalMs := Nat.le_max_right ..
  refine ⟨rfl, ?_, Or.inl ⟨?_, idle⟩⟩
  · rw [fresh]
    simp [LeafOverlord.fresh, below]
  · rw [fresh]
    rfl

/-- Take a node with no work under way whose leaf policy has not been asked anything. Whatever the
policy is asked and told in whatever order, however its attempts end and whatever changes around it:
it has at most one attempt under way, and remembers that it has one exactly if it has. The pause is
the first one, doubled for each attempt since the policy was last told of a leaf link, up to the
limit. Between two requests with no such news in between, the pause passes that was current at the
first one. -/
theorem leaf_attempts_paced (n : Node) (idle : n.tasks = [])
    (fresh : n.leaf = .fresh n.config.leaf) (steps : List LeafStep) :
    let m := n.leafSteps steps
    let first := n.config.leaf.retryIntervalMs
    let limit := n.config.leaf.longestIntervalMs
    (m.leafAttempts ≤ 1 ∧ (m.leaf.linking = true ↔ m.leafAttempts = 1)) ∧
    (first ≤ m.leaf.retryInterval ∧ m.leaf.retryInterval ≤ limit ∧
      m.leaf.retryInterval = min (2 ^ n.attemptsSince 0 steps * first) limit) ∧
    ∀ (s s' : LeafStep) (between : List LeafStep),
      (∀ t ∈ between ++ [s'], t.isLeafUp = false) → m.submits s = true →
      ((m.leafStep s).leafSteps between).submits s' = true →
      m.now + m.pauseAt s ≤ ((m.leafStep s).leafSteps between).now := by
  intro m first limit
  have paced : Paced n.config.leaf (n.attemptsSince 0 steps) m :=
    (paced_of_fresh idle fresh).leafSteps steps
  refine ⟨?_, ⟨?_, ?_, paced.pause⟩, fun s s' between quiet submitted submitted' => ?_⟩
  · rcases paced.alone with ⟨free, tasks⟩ | ⟨busy, id, ended, tasks⟩
    · simp [leafAttempts, free, tasks]
    · simp [leafAttempts, busy, tasks, Task.isLeafAttempt]
  · rw [paced.pause]
    exact Nat.le_min.mpr ⟨Nat.le_mul_of_pos_left _ (Nat.two_pow_pos _), Nat.le_max_right ..⟩
  · rw [paced.pause]
    exact Nat.min_le_right ..
  · have begun : WaitsUntil (m.now + m.pauseAt s) (m.leafStep s) := by
      rcases paced.begun_or_kept s with ⟨-, begun⟩ | ⟨silent, -⟩
      · exact ⟨_, begun, Nat.le_refl _⟩
      · rw [silent] at submitted
        cases submitted
    have later := paced.leafStep s
    have waits :=
      later.waits_steps begun between fun t member => quiet t (List.mem_append_left _ member)
    have last : s'.isLeafUp = false :=
      quiet s' (List.mem_append_right _ (List.mem_singleton_self s'))
    exact ((later.leafSteps between).waits last waits).2 submitted'

def lonely : Node := bare (.floor 2) { leaf := { desired := 1 } } .empty

/-- The policy is switched on, makes an attempt that comes to nothing, and looks again before the pause
is over. -/
def knocking : List LeafStep :=
  [.switch true, .endpoints [⟨"tcp://10.0.0.1:7000"⟩], .activate, .finish 0, .poll 0, .beat]

theorem leaf_attempts_paced_lonely :
    (lonely.leafSteps knocking).leaf.retryInterval = 20000 ∧
    (lonely.leafSteps knocking).leafAttempts = 0 ∧
    ((lonely.leafSteps knocking).leafStep (.advance 10000)).submits .beat = true ∧
    (lonely.leafSteps (knocking.take 2)).now + 10000 ≤
      ((lonely.leafSteps knocking).leafStep (.advance 10000)).now := by
  obtain ⟨-, ⟨-, -, doubled⟩, -⟩ := leaf_attempts_paced lonely rfl rfl knocking
  obtain ⟨-, -, apart⟩ := leaf_attempts_paced lonely rfl rfl (knocking.take 2)
  have two : ((lonely.leafSteps knocking).leafStep (.advance 10000)).submits .beat = true := by
    decide +kernel
  have one : lonely.attemptsSince 0 knocking = 1 := by decide +kernel
  rw [one] at doubled
  refine ⟨doubled, by decide +kernel, two, ?_⟩
  exact apart .activate .beat [.finish 0, .poll 0, .beat, .advance 10000] (by decide)
    (by decide +kernel) two

end

end Node

end RingOverlay

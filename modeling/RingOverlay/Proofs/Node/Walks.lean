import RingOverlay.Proofs.Node.Moves
/-!
The random walks by which a node looks for unstructured links. At most one is under way at a time. A
walk that ends may begin the next one by itself, but only if links were gained while it was under way,
and each such gain was told to the policy by a call of its own. So walks are begun no more often than
the policy is called.
-/

set_option autoImplicit false
set_option relaxedAutoImplicit false

namespace RingOverlay.Node

/-- The random walks under way that were begun when so many tasks, or more, had been created. -/
def walksSince (n : Node) (created : Nat) : Nat :=
  n.tasks.countP fun t => t.2.isWalk && decide (created ≤ t.1)

def walks (n : Node) : Nat := n.walksSince 0

/-- The random walks that are begun in a move. They are all under way after it: a move ends only a task
that was there before. -/
def walksIn (n : Node) (m : NodeMove) : Nat := (n.move m).walksSince n.created

def walksBegun (n : Node) : List NodeMove → Nat
  | [] => 0
  | m :: ms => n.walksIn m + (n.move m).walksBegun ms

def timesCalled (n : Node) : List NodeMove → Nat
  | [] => 0
  | m :: ms => n.calls m + (n.move m).timesCalled ms

/-- The walk that the end of the one under way would begin by itself: one, if links were gained
meanwhile. -/
def walksDue (n : Node) : Nat :=
  if n.unstructured.connecting = true ∧ n.unstructured.attemptBase < n.unstructured.current then 1
  else 0

def Attended (n : Node) : Prop := n.walks = if n.unstructured.connecting then 1 else 0

section

variable {old : TaskId} {wakes : Prop} {asks : LinkRequest → Prop} {c : Nat} {n m k : Node}
  {id : TaskId} {t u : Task}

theorem walksSince_spawnResting (n : Node) (t : Task) (created : Nat) :
    (n.spawnResting t).walksSince created =
      n.walksSince created + if t.isWalk = true ∧ created ≤ n.created then 1 else 0 := by
  rw [walksSince, spawnResting, List.countP_append, List.countP_singleton, walksSince]
  simp

theorem walksSince_setTask (same : ∀ u, (id, u) ∈ n.tasks → u.isWalk = t.isWalk) (created : Nat) :
    (n.setTask id t).walksSince created = n.walksSince created := by
  rw [walksSince, setTask, List.countP_map, walksSince]
  refine List.countP_congr fun v member => ?_
  obtain ⟨i, v⟩ := v
  by_cases own : i = id
  · subst own
    simp [same v member]
  · simp [own]

theorem walksSince_endTask_le (n : Node) (id : TaskId) (created : Nat) :
    (n.endTask id).walksSince created ≤ n.walksSince created :=
  List.Sublist.countP_le List.filter_sublist

theorem walksSince_endTask (other : ∀ u, (id, u) ∈ n.tasks → u.isWalk = false) (created : Nat) :
    (n.endTask id).walksSince created = n.walksSince created := by
  rw [walksSince, endTask, List.countP_filter, walksSince]
  refine List.countP_congr fun v member => ?_
  obtain ⟨i, v⟩ := v
  by_cases own : i = id
  · subst own
    simp [other v member]
  · simp [own]

theorem walks_endTask_lt (there : (id, t) ∈ n.tasks) (walk : t.isWalk = true) :
    (n.endTask id).walks < n.walks := by
  have split := List.countP_eq_countP_filter_add n.tasks
    (fun t => t.2.isWalk && decide (0 ≤ t.1)) (·.1 != id)
  have ended : 0 < (n.tasks.filter fun t => !(t.1 != id)).countP
      fun t => t.2.isWalk && decide (0 ≤ t.1) :=
    List.countP_pos_iff.mpr ⟨(id, t), List.mem_filter.mpr ⟨there, by simp⟩, by simp [walk]⟩
  exact Nat.lt_of_lt_of_eq (Nat.lt_add_of_pos_right ended) split.symm

theorem walksDue_le (n : Node) : n.walksDue ≤ 1 := by
  unfold walksDue
  split <;> decide

theorem walksDue_of_idle (idle : n.unstructured.connecting = false) : n.walksDue = 0 := by
  refine if_neg ?_
  rintro ⟨walking, -⟩
  rw [idle] at walking
  cases walking

/-- What small changes with so many calls can make of the walks: the policy stays attentive, and each
walk that is begun or becomes due was due before or goes with a call. -/
structure Walks (c : Nat) (n m : Node) : Prop where
  attended : m.Attended
  paid : ∀ created, m.walksSince created + m.walksDue ≤ n.walksSince created + n.walksDue + c

theorem Walks.trans {d : Nat} (first : Walks c n m) (second : Walks d m k) : Walks (c + d) n k where
  attended := second.attended
  paid created := by
    have here := first.paid created
    have there := second.paid created
    omega

theorem Attended.walks_same (attended : n.Attended)
    (same : ∀ created, m.walksSince created = n.walksSince created)
    (policy : { m.unstructured with active := false } = { n.unstructured with active := false }) :
    Walks 0 n m := by
  have connecting : m.unstructured.connecting = n.unstructured.connecting :=
    (congrArg UnstructuredOverlord.connecting policy :)
  have base : m.unstructured.attemptBase = n.unstructured.attemptBase :=
    (congrArg UnstructuredOverlord.attemptBase policy :)
  have current : m.unstructured.current = n.unstructured.current :=
    (congrArg UnstructuredOverlord.current policy :)
  refine ⟨?_, fun created => ?_⟩
  · rw [Attended, connecting, walks, same 0]
    exact attended
  · rw [walksDue, connecting, base, current, same created]
    exact Nat.le_refl _

theorem walksSince_begin (n : Node) (unstructured : UnstructuredOverlord) (words : Words)
    (target : RpcTarget) (type : String) (abort : AbortRule) (created : Nat) :
    ({ n with unstructured, words }.startHandshake .unstructured target type abort).walksSince created =
      n.walksSince created + if created ≤ n.created then 1 else 0 := by
  refine (walksSince_spawnResting { n with unstructured, words } _ created).trans ?_
  simp only [Task.isWalk, decide_true, true_and]
  rfl

theorem Attended.activate (attended : n.Attended) :
    n.activateUnstructured.Attended ∧
      ∀ created, n.activateUnstructured.walksSince created + n.activateUnstructured.walksDue ≤
        n.walksSince created + 1 := by
  rcases n.activateUnstructured_cases with
    ⟨base, words, stays, sought⟩ | ⟨target, words, -, idle, sought⟩
  · -- No walk is begun, but one may have become due, at the expense of the call.
    rw [sought]
    exact ⟨attended, fun created => Nat.add_le_add_left (walksDue_le _) _⟩
  · have begun := n.walksSince_begin
      { n.unstructured with connecting := true, attemptBase := n.unstructured.current } words target
      MainType.unstructured.name (.decided false)
    rw [← sought] at begun
    have none_before : n.walks = 0 := by
      rw [attended, idle]
      rfl
    have walking : n.activateUnstructured.unstructured.connecting = true := by rw [sought]; rfl
    have nothing_due : n.activateUnstructured.walksDue = 0 := by
      rw [sought]
      exact if_neg fun due => Nat.lt_irrefl _ due.2
    refine ⟨?_, fun created => ?_⟩
    · rw [Attended, walking, walks, begun 0, if_pos (Nat.zero_le _), if_pos rfl]
      exact congrArg (· + 1) none_before
    · rw [nothing_due, begun created]
      split <;> omega

theorem Attended.endWalk (attended : n.Attended) (there : (id, t) ∈ n.tasks)
    (walk : t.isWalk = true) : Walks 0 n (n.endTask id).unstructuredFinished := by
  have ended := walks_endTask_lt there walk
  have walking : n.unstructured.connecting = true := by
    by_contra idle
    rw [attended, if_neg idle] at ended
    exact Nat.not_lt_zero _ ended
  have none_left : (n.endTask id).walks = 0 := by
    rw [attended, if_pos walking] at ended
    exact Nat.lt_one_iff.mp ended
  have rested : ({ n.endTask id with unstructured := n.unstructured.finish.2 } : Node).Attended :=
    none_left
  have fewer := n.walksSince_endTask_le id
  simp only [unstructuredFinished]
  split
  · rename_i gained
    have due : n.walksDue = 1 := if_pos ⟨walking, of_decide_eq_true gained⟩
    obtain ⟨again, paid⟩ := rested.activate
    refine ⟨again, fun created => ?_⟩
    rw [due]
    exact Nat.le_trans (paid created) (Nat.add_le_add_right (fewer created) 1)
  · refine ⟨rested, fun created => ?_⟩
    rw [walksDue_of_idle rfl]
    exact Nat.le_trans (fewer created) (Nat.le_add_right _ _)

theorem isWalk_of_free (free : t.isFree = true) : t.isWalk = false := by
  cases t with
  | handshake h => simpa [Task.isFree, Task.isWalk] using free
  | link | retry | query | drive => rfl

theorem isWalk_of_plain (plain : t.isPlain = true) : t.isWalk = false := by
  cases t with
  | handshake h =>
    simp only [Task.isPlain, decide_eq_true_eq] at plain
    exact decide_eq_false plain.1
  | link | retry | query | drive => rfl

theorem Attended.walks_kept (attended : n.Attended) (tasks : m.tasks = n.tasks)
    (policy : { m.unstructured with active := false } = { n.unstructured with active := false }) :
    Walks 0 n m :=
  attended.walks_same (fun created => by rw [walksSince, tasks, walksSince]) policy

theorem Attended.walks_more (attended : n.Attended) {i : TaskId}
    (tasks : m.tasks = n.tasks ++ [(i, t)]) (other : t.isWalk = false)
    (policy : m.unstructured = n.unstructured) : Walks 0 n m := by
  refine attended.walks_same (fun created => ?_) (by rw [policy])
  rw [walksSince, tasks, List.countP_append, List.countP_singleton, other]
  rfl

theorem Attended.walks_endTask (attended : n.Attended)
    (other : ∀ u, (id, u) ∈ n.tasks → u.isWalk = false) : Walks 0 n (n.endTask id) :=
  attended.walks_same (walksSince_endTask other) rfl

theorem walks_linking : Linking asks fun n m => n.Attended → Walks 0 n m where
  refl _ attended := attended.walks_kept rfl rfl
  trans first second attended := (first attended).trans (second (first attended).attended)
  attempts _ _ attended := attended.walks_kept rfl rfl
  launch _ _ _ _ _ attended := attended.walks_more rfl rfl rfl

theorem Works.walks (works : Works old wakes asks c n m) (attended : n.Attended) : Walks c n m := by
  induction works with
  | nothing => exact attended.walks_kept rfl rfl
  | chain _ _ first second =>
    have half := first attended
    exact half.trans (second half.attended)
  | unheeded => exact ⟨attended, fun created => Nat.le_succ _⟩
  | aside change => exact attended.walks_kept (congrArg Node.tasks change.frame :) change.walking
  | tell => exact attended.walks_kept rfl rfl
  | begin n plain => exact attended.walks_more rfl (isWalk_of_plain plain) rfl
  | goOn n goes =>
    refine attended.walks_same (walksSince_setTask fun u member => ?_) rfl
    cases goes u member with
    | handshake owner => simp only [Task.isWalk, owner]
    | link | retry | query | drive => rfl
  | finish n early free => exact attended.walks_endTask fun u member => isWalk_of_free (free u member)
  | submit n asked => exact walks_linking.submit n asked attended
  | worker n early own =>
    rename_i id key asked
    have ended : Walks 0 n (n.endTask id) := attended.walks_endTask fun u member => by
      rw [own u member]
      rfl
    exact ended.trans (walks_linking.workerFinished (n.endTask id) asked ended.attended)
  | seekLeaf n => exact attended.walks_more rfl rfl rfl
  | seekWalk n active connecting =>
    rename_i unstructured _
    have told : ({ n with unstructured } : Node).Attended := by
      rw [Attended, connecting]
      exact attended
    obtain ⟨again, paid⟩ := told.activate
    refine ⟨again, fun created => Nat.le_trans (paid created) ?_⟩
    exact Nat.add_le_add_right (Nat.le_add_right _ _) 1
  | endWalk n early there own =>
    obtain ⟨t, member⟩ := there
    exact attended.endWalk member (own t member)
  | seekPin n => exact attended.walks_more rfl rfl rfl
  | seekNearby n => exact attended.walks_more rfl rfl rfl

end

section

variable {n : Node}

theorem walksSince_created (numbered : n.Numbered) : n.walksSince n.created = 0 := by
  refine List.countP_eq_zero.mpr fun t member counted => ?_
  have old := numbered.given t.1 (List.mem_map_of_mem member)
  simp only [Bool.and_eq_true, decide_eq_true_eq] at counted
  exact Nat.not_lt_of_le counted.2 old

theorem walks_move (numbered : n.Numbered) (attended : n.Attended) (m : NodeMove) :
    (n.move m).Attended ∧ n.walksIn m + (n.move m).walksDue ≤ n.walksDue + n.calls m := by
  have step := (works_move numbered m).walks attended
  have paid := step.paid n.created
  rw [walksSince_created numbered, Nat.zero_add] at paid
  exact ⟨step.attended, paid⟩

theorem walks_moved (numbered : n.Numbered) (attended : n.Attended) (ms : List NodeMove) :
    (n.moved ms).Attended ∧
      n.walksBegun ms + (n.moved ms).walksDue ≤ n.walksDue + n.timesCalled ms := by
  induction ms generalizing n with
  | nil => exact ⟨attended, Nat.le_of_eq (Nat.zero_add _)⟩
  | cons m ms ih =>
    obtain ⟨still, paid⟩ := walks_move numbered attended m
    obtain ⟨ever, more⟩ := ih ((works_move numbered m).kept.numbered numbered) still
    refine ⟨ever, ?_⟩
    rw [walksBegun, timesCalled]
    change n.walksIn m + (n.move m).walksBegun ms + ((n.move m).moved ms).walksDue ≤ _
    omega

/-- Take a node without tasks, whose unstructured policy does not look for a link, and let happen
whatever may: policies are switched and called in any order, links come and go, handshakes are answered
or not, and their ends are reported. The policy always knows whether one of its walks is under way, and
there is never a second one. It has begun no more walks than it has been called, the ends of walks not
counted: the end of a walk alone does not begin another one for ever. -/
theorem walks_follow_calls (tasks : n.tasks = []) (idle : n.unstructured.connecting = false)
    (ms : List NodeMove) :
    (n.moved ms).walks = (if (n.moved ms).unstructured.connecting then 1 else 0) ∧
    n.walksBegun ms ≤ n.timesCalled ms := by
  have attended : n.Attended := by
    rw [Attended, idle, walks, walksSince, tasks]
    rfl
  obtain ⟨ever, paid⟩ := walks_moved (numbered_of_no_tasks tasks) attended ms
  rw [walksDue_of_idle idle] at paid
  exact ⟨ever, by omega⟩

/-- A leaf link comes up, the policy is called and asks the leaf, and while it waits an unstructured
link comes up. The walk fails, and the next one is begun by its end. -/
def gaining : List NodeMove :=
  [.switch true .unstructured, .step (.add ⟨4, .floor 64, "leaf", []⟩), .activate .unstructured,
    .step (.poll 0), .step (.add ⟨5, .floor 96, "unstructured", []⟩),
    .linkUp ⟨5, .floor 96, "unstructured", []⟩ .unstructured, .step (.hangUp 0), .step (.poll 0)]

theorem walks_follow_calls_gaining :
    (plain.moved gaining).walks = 1 ∧ plain.walksBegun gaining = 2 ∧ plain.timesCalled gaining = 2 := by
  have both := walks_follow_calls (n := plain) rfl rfl gaining
  have walking : (plain.moved gaining).unstructured.connecting = true := by decide +kernel
  have begun : plain.walksBegun gaining = 2 := by decide +kernel
  have called : plain.timesCalled gaining = 2 := by decide +kernel
  rw [walking] at both
  exact ⟨both.1, begun, called⟩

end

end RingOverlay.Node

import RingOverlay.Proofs.Node.Discovery
/-!
When the discovery policy of a node sends queries. Two things hold it back, a query whose replies have
not ended and the pause after the last one, and each of them by itself.
-/

set_option autoImplicit false
set_option relaxedAutoImplicit false

namespace RingOverlay.Node

def timesIn (n : Node) (s : DiscoveryStep) : List Nat := (n.queriesIn s).map fun _ => n.now

def queryTimes (n : Node) : List DiscoveryStep → List Nat
  | [] => []
  | s :: steps => n.timesIn s ++ (n.discoveryStep s).queryTimes steps

/-- The policy remembers the time of the last query, and the pause has passed between any two. -/
structure Spaced (times : List Nat) (n : Node) : Prop where
  last : n.discovery.lastQuery = times.getLast?
  past : ∀ t ∈ times, t ≤ n.now
  apart : times.Pairwise fun t t' => t + n.config.discovery.announceIntervalMs ≤ t'

section

variable {n m : Node} {opened : List TaskId} {times : List Nat} {s : DiscoveryStep}

theorem Spaced.isDue_iff (spaced : Spaced times n) :
    n.discovery.isDue n.config.discovery n.now = true ↔
      ∀ t ∈ times, t + n.config.discovery.announceIntervalMs ≤ n.now := by
  obtain ⟨last, past, apart⟩ := spaced
  rw [DiscoveryOverlord.isDue, last]
  rcases List.eq_nil_or_concat times with rfl | ⟨ts, t, rfl⟩
  · simp
  · rw [List.concat_eq_append] at *
    have before := (List.pairwise_append.mp apart).2.2
    have now := past t (by simp)
    simp only [List.getLast?_concat, decide_eq_true_eq]
    constructor
    · intro passed u hu
      rcases List.mem_append.mp hu with hu | hu
      · exact Nat.le_trans (before u hu t (by simp)) now
      · cases List.mem_singleton.mp hu
        omega
    · intro passed
      have := passed t (by simp)
      omega

theorem wouldQuery_iff : n.wouldQuery = true ↔
    n.discovery.active = true ∧ n.config.discovery.enabled = true ∧ n.table.size = 0 ∧
      n.discovery.querying = false ∧ n.discovery.isDue n.config.discovery n.now = true := by
  simp [wouldQuery, and_assoc]

theorem OneQuery.querying_iff (one : n.OneQuery opened) :
    n.discovery.querying = false ↔ n.tasks = [] := by
  rcases one with ⟨quiet, idle, -⟩ | ⟨busy, id, inbox, ended, work, -⟩
  · simp [quiet, idle]
  · simp [busy, work]

theorem Discovers.lastQuery (turn : n.Discovers s m) :
    m.discovery.lastQuery = if s.isCall && n.wouldQuery then some n.now else n.discovery.lastQuery := by
  cases turn with
  | ask sends =>
    rw [sends]
    rfl
  | take r ready | cease ready => rfl
  | read | finish =>
    rw [foldl_learn]
    rfl
  | aside active table later silent =>
    rw [silent]
    rfl

theorem Spaced.discoveryStep (spaced : Spaced times n) (one : n.OneQuery opened)
    (s : DiscoveryStep) : Spaced (times ++ n.timesIn s) (n.discoveryStep s) := by
  have turn := one.discovers s
  obtain ⟨-, config, later⟩ := turn.frame
  have last := turn.lastQuery
  have past : ∀ t ∈ times, t ≤ (n.discoveryStep s).now :=
    fun t ht => Nat.le_trans (spaced.past t ht) later
  have apart := spaced.apart
  rw [timesIn, one.queriesIn_eq]
  rw [← config] at apart
  cases sends : s.isCall && n.wouldQuery with
  | false =>
    rw [sends] at last
    simp only [Bool.false_eq_true, if_false, List.map_nil, List.append_nil] at last ⊢
    exact ⟨last.trans spaced.last, past, apart⟩
  | true =>
    rw [sends] at last
    have due := (wouldQuery_iff.mp (Bool.and_eq_true_iff.mp sends).2).2.2.2.2
    refine ⟨by simpa using last, fun t ht => ?_, List.pairwise_append.mpr ⟨apart, ?_, ?_⟩⟩
    · rcases List.mem_append.mp ht with ht | ht
      · exact past t ht
      · have now : t = n.now := by simpa using ht
        rw [now]
        exact later
    · exact List.pairwise_singleton ..
    · intro t ht t' ht'
      have now : t' = n.now := by simpa using ht'
      rw [now, config]
      exact spaced.isDue_iff.mp due t ht

end

section

variable {n : Node} {opened : List TaskId} {times : List Nat}

theorem Spaced.discoverySteps (spaced : Spaced times n) (one : n.OneQuery opened)
    (steps : List DiscoveryStep) : Spaced (times ++ n.queryTimes steps) (n.discoverySteps steps) := by
  induction steps generalizing n opened times with
  | nil =>
    rw [queryTimes, List.append_nil]
    exact spaced
  | cons s steps ih =>
    rw [queryTimes, ← List.append_assoc]
    exact ih (spaced.discoveryStep one s) (one.discoveryStep s)

end

theorem spaced_create (here : RingAddress) (config : OverlayConfig) (table : ConnectionTable)
    (channel : Bool) : Spaced [] (create here config table channel) := by
  obtain ⟨-, -, -, fresh, -⟩ := create_knowing here config table channel
  exact ⟨by rw [fresh]; rfl, nofun, List.Pairwise.nil⟩

/-- Take a node that has just been set up, and let its discovery policy be asked and told anything in any
order, whatever comes in and whatever changes around it. A query is sent in a step exactly if the
policy is asked to act, is switched on and enabled, the node has no link, no query is under way and the
pause after every earlier one is over. The replies to all earlier queries have ended then, and it is one
query that is sent. So the pause passes between any two. -/
theorem queries_rare_and_exclusive (here : RingAddress) (config : OverlayConfig)
    (table : ConnectionTable) (channel : Bool) (steps : List DiscoveryStep) (s : DiscoveryStep) :
    let n := create here config table channel
    let m := n.discoverySteps steps
    (m.queriesIn s ≠ [] ↔ s.isCall = true ∧ m.discovery.active = true ∧
      config.discovery.enabled = true ∧ m.table.size = 0 ∧ m.tasks = [] ∧
      ∀ t ∈ n.queryTimes steps, t + config.discovery.announceIntervalMs ≤ m.now) ∧
    (m.queriesIn s ≠ [] → n.openQueries [] steps = [] ∧ m.queriesIn s = [m.created]) ∧
    (n.queryTimes steps).Pairwise fun t t' => t + config.discovery.announceIntervalMs ≤ t' := by
  intro n m
  have start : n.OneQuery [] := oneQuery_create here config table channel
  have one : m.OneQuery (n.openQueries [] steps) := start.discoverySteps steps
  have spaced : Spaced (n.queryTimes steps) m :=
    (spaced_create here config table channel).discoverySteps start steps
  have same : m.config = config := (frame_create here config table channel steps).2
  have sent := one.queriesIn_eq s
  have sends : m.queriesIn s ≠ [] ↔ s.isCall = true ∧ m.wouldQuery = true := by
    rw [sent, ← Bool.and_eq_true_iff]
    split <;> simp_all
  refine ⟨?_, fun h => ?_, ?_⟩
  · rw [sends, wouldQuery_iff, one.querying_iff, spaced.isDue_iff, same]
  · obtain ⟨call, due⟩ := sends.mp h
    refine ⟨(one.of_wouldQuery due).2, ?_⟩
    rw [sent, call, due]
    rfl
  · rw [← same]
    exact spaced.apart

/-- The replies to the first query end after the pause, and are read later still. -/
def slowReplies : List DiscoveryStep :=
  [.switch true, .activate, .advance 600000, .beat, .close 0, .beat, .poll 0]

theorem queries_rare_and_exclusive_slow :
    let n := create (.floor 2) {} .empty true
    n.openQueries [] (slowReplies.take 3) = [0] ∧
    (n.discoverySteps (slowReplies.take 3)).queriesIn .beat = [] ∧
    n.openQueries [] slowReplies = [] ∧ (n.discoverySteps slowReplies).queriesIn .beat = [1] ∧
    n.queryTimes (slowReplies ++ [.beat]) = [0, 600000] := by
  intro n
  obtain ⟨-, alone, -⟩ :=
    queries_rare_and_exclusive (.floor 2) {} .empty true (slowReplies.take 3) .beat
  obtain ⟨due, one, -⟩ := queries_rare_and_exclusive (.floor 2) {} .empty true slowReplies .beat
  have waiting : n.openQueries [] (slowReplies.take 3) = [0] := by decide +kernel
  have sent : (n.discoverySteps slowReplies).queriesIn .beat ≠ [] := due.mpr (by decide +kernel)
  refine ⟨waiting, ?_, (one sent).1, (one sent).2, by decide +kernel⟩
  by_contra asked
  rw [(alone asked).1] at waiting
  cases waiting

end RingOverlay.Node

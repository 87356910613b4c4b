import RingOverlay.Proofs.Node.Pacing
/-!
The pause of the leaf policy when it is asked to seek a link and asks for none. Where some endpoint is
known, nothing has changed then. Where none is known, the policy begins a pause all the same and doubles
the next one, as it does after an attempt.
-/

set_option autoImplicit false
set_option relaxedAutoImplicit false

namespace RingOverlay

/-- Whether the leaf policy is at most asked to seek a link in a step, by itself, on a heartbeat or after
a link was lost. -/
def LeafStep.isAsk : LeafStep → Bool
  | .activate | .beat | .linkDown _ => true
  | _ => false

namespace Node

/-- Whether the policy begins a pause in a step though no link is asked for. -/
def emptyHanded (n : Node) (s : LeafStep) : Bool := n.passes s && !n.submits s

/-- The steps of one kind since the policy was last told of a leaf link that came up, where there were so
many before. -/
def tallySince (kind : Node → LeafStep → Bool) (n : Node) (before : Nat) : List LeafStep → Nat
  | [] => before
  | s :: steps =>
    (n.leafStep s).tallySince kind ((if s.isLeafUp then 0 else before) + if kind n s then 1 else 0)
      steps

section

variable {n m : Node} {cfg : LeafConfig} {k : Nat} {s : LeafStep}

theorem activateLeaf_of_known (known : n.remoteTransports ≠ []) :
    n.opens = false ∧ n.activateLeaf = n ∨
    n.opens = true ∧ ∃ words r, n.activateLeaf =
      { n with leaf := n.leaf.begin n.config.leaf n.now, words }.launch .leaf r := by
  by_cases opens : n.opens = true
  · have go : (n.leaf.active && LeafOverlord.needs n.config.leaf (n.links .leaf) &&
        n.leaf.mayTry n.now) = true := opens
    have some_there : n.remoteTransports.isEmpty = false := by simpa using known
    refine Or.inr ⟨opens, ?_⟩
    simp only [activateLeaf, LeafOverlord.activate, go, some_there, if_true, Bool.false_eq_true, if_false]
    exact ⟨_, _, rfl⟩
  · rcases n.activateLeaf_cases with same | ⟨other, -⟩
    · exact Or.inl same
    · exact absurd other opens

theorem activateLeaf_of_unknown (unknown : n.remoteTransports = []) :
    n.activateLeaf =
      if n.opens then { n with leaf := (n.leaf.begin n.config.leaf n.now).finish } else n := by
  by_cases opens : n.opens = true
  · have go : (n.leaf.active && LeafOverlord.needs n.config.leaf (n.links .leaf) &&
        n.leaf.mayTry n.now) = true := opens
    rw [if_pos opens]
    simp [activateLeaf, LeafOverlord.activate, go, unknown]
  · rw [if_neg opens]
    rcases n.activateLeaf_cases with ⟨-, same⟩ | ⟨other, -⟩
    · exact same
    · exact absurd other opens

/-- What the policy asks for when it is asked to seek a link: one link at most, and one exactly if it
makes an attempt and knows an endpoint. -/
theorem actions_activateLeaf (n : Node) :
    ∃ asked, n.activateLeaf.actions = n.actions ++ asked ∧
      asked.any (·.isLink) = (n.opens && !n.remoteTransports.isEmpty) := by
  by_cases unknown : n.remoteTransports = []
  · refine ⟨[], ?_, by simp [unknown]⟩
    rw [activateLeaf_of_unknown unknown, List.append_nil]
    split <;> rfl
  · rcases activateLeaf_of_known unknown with ⟨closed, same⟩ | ⟨opens, words, r, launched⟩
    · rw [same, closed]
      exact ⟨[], (List.append_nil _).symm, rfl⟩
    · rw [launched]
      exact ⟨[.link n.created r], rfl, by simp [NodeAction.isLink, opens, unknown]⟩

theorem submits_of_asked (stepped : n.leafStep s = m.activateLeaf)
    (asked : ∃ told, m.actions = n.actions ++ told ∧ told.any (·.isLink) = false) :
    n.submits s = (m.opens && !m.remoteTransports.isEmpty) := by
  obtain ⟨told, before, silent⟩ := asked
  obtain ⟨asked, after, links⟩ := m.actions_activateLeaf
  rw [submits, stepped, after, before, List.append_assoc, List.drop_left, List.any_append, silent, links,
    Bool.false_or]

theorem remoteTransports_of_seeksAt (seeks : n.seeksAt s = some m) :
    m.remoteTransports = n.remoteTransports := by
  rcases seeksAt_cases seeks with ⟨-, rfl⟩ | ⟨c, -, -, trimmed⟩ | ⟨c, -, -, rfl⟩ | ⟨id, -, -, rfl⟩
  · rfl
  · obtain rfl : _ = m := congrArg Prod.snd trimmed
    simp only [trimLeafs]
    split <;> rfl
  · rfl
  · rfl

theorem seeksAt_of_isAsk (ask : s.isAsk = true) :
    n.seeksAt s = some n ∨ n.seeksAt s = none ∧ n.leafStep s = n := by
  cases s with
  | activate | beat => exact Or.inl rfl
  | linkDown c =>
    by_cases type : c.mainType = .leaf
    · exact Or.inl (if_pos type)
    · exact Or.inr ⟨if_neg type, if_neg type⟩
  | switch | linkUp | finish | poll | links | endpoints | words | advance => cases ask

theorem submits_of_isAsk (ask : s.isAsk = true) :
    n.submits s = (n.passes s && !n.remoteTransports.isEmpty) := by
  rcases seeksAt_of_isAsk (n := n) ask with seeks | ⟨seeks, same⟩
  · have passes : n.passes s = n.opens := by simp [passes, seeks]
    rw [passes]
    exact submits_of_asked (leafStep_of_seeksAt seeks) ⟨[], (List.append_nil _).symm, rfl⟩
  · have quiet : n.passes s = false := by simp [passes, seeks]
    rw [quiet, submits, same, List.drop_length]
    rfl

theorem leafStep_of_isAsk (ask : s.isAsk = true) (silent : n.submits s = false) :
    n.leafStep s =
      if n.passes s then { n with leaf := (n.leaf.begin n.config.leaf n.now).finish } else n := by
  rcases seeksAt_of_isAsk (n := n) ask with seeks | ⟨seeks, same⟩
  · have passes : n.passes s = n.opens := by simp [passes, seeks]
    rw [submits_of_isAsk ask, passes] at silent
    rw [leafStep_of_seeksAt seeks, passes]
    by_cases unknown : n.remoteTransports = []
    · exact activateLeaf_of_unknown unknown
    · have closed : n.opens = false := by simpa [unknown] using silent
      rcases activateLeaf_of_known unknown with ⟨-, same⟩ | ⟨opens, -⟩
      · rw [closed, same]
        rfl
      · rw [closed] at opens
        cases opens
  · have quiet : n.passes s = false := by simp [passes, seeks]
    rw [same, quiet]
    rfl

theorem finish_begin_of_passes (ask : s.isAsk = true) (passes : n.passes s = true) :
    (n.leaf.begin n.config.leaf n.now).finish =
      { n.leaf with
        nextAttempt := some (n.now + n.leaf.retryInterval)
        retryInterval := min (2 * n.leaf.retryInterval) n.config.leaf.longestIntervalMs } := by
  have free : n.leaf.linking = false := by
    rcases seeksAt_of_isAsk (n := n) ask with seeks | ⟨seeks, -⟩
    · have opens : n.opens = true := by simpa [Node.passes, seeks] using passes
      exact (opens_iff.mp opens).2.1
    · simp [Node.passes, seeks] at passes
  simp [LeafOverlord.begin, LeafOverlord.finish, free]

/-- In a node whose only work is an attempt of the policy, a step asks for a link exactly if the policy
makes an attempt and knows an endpoint. -/
theorem Paced.submits_eq (paced : Paced cfg k n) (s : LeafStep) :
    n.submits s = (n.passes s && !n.remoteTransports.isEmpty) := by
  cases seeks : n.seeksAt s with
  | some m =>
    have passes : n.passes s = m.opens := by simp [Node.passes, seeks]
    rw [passes, ← remoteTransports_of_seeksAt seeks]
    exact submits_of_asked (leafStep_of_seeksAt seeks) (paced.turn seeks).asked
  | none =>
    have quiet : n.passes s = false := by simp [Node.passes, seeks]
    rw [quiet, (paced.rest seeks).silent]
    rfl

theorem Paced.attemptsSince_add (paced : Paced cfg k n) (a b : Nat) (steps : List LeafStep) :
    n.attemptsSince (a + b) steps =
      n.tallySince submits a steps + n.tallySince emptyHanded b steps := by
  induction steps generalizing n k a b with
  | nil => rfl
  | cons s steps ih =>
    have one : (if n.passes s then 1 else 0) =
        (if n.submits s then 1 else 0) + if n.emptyHanded s then 1 else 0 := by
      rw [emptyHanded, paced.submits_eq]
      cases n.passes s <;> cases n.remoteTransports.isEmpty <;> rfl
    rw [attemptsSince, tallySince, tallySince, ← ih (paced.leafStep s), one]
    congr 1
    split <;> omega

/-- Whatever state a node is in, ask its leaf policy to seek a link, on a heartbeat, or after a link was
lost. It asks for a link exactly if it is to make an attempt and some endpoint is known. If it asks for
none, nothing at all has changed, or no endpoint is known and it was to make an attempt: then the next
attempt is put off by the pause, and the pause is doubled up to the limit, though no attempt was made.
Over any run of a node with no other work, the pause is the first one doubled once for each request and
once for each time that the policy came away empty-handed, which happens only without an endpoint. -/
theorem backoff_counts_empty_handed (n : Node) :
    (∀ s : LeafStep, s.isAsk = true →
      (n.submits s = true ↔ n.passes s = true ∧ n.remoteTransports ≠ []) ∧
      (n.submits s = false → n.leafStep s =
        if n.passes s then
          { n with leaf := { n.leaf with
            nextAttempt := some (n.now + n.leaf.retryInterval)
            retryInterval := min (2 * n.leaf.retryInterval) n.config.leaf.longestIntervalMs } }
        else n)) ∧
    (n.tasks = [] → n.leaf = .fresh n.config.leaf → ∀ steps : List LeafStep,
      (n.leafSteps steps).leaf.retryInterval =
        min (2 ^ (n.tallySince submits 0 steps + n.tallySince emptyHanded 0 steps) *
          n.config.leaf.retryIntervalMs) n.config.leaf.longestIntervalMs ∧
      ∀ s, (n.leafSteps steps).emptyHanded s = true → (n.leafSteps steps).remoteTransports = []) := by
  refine ⟨fun s ask => ⟨?_, fun silent => ?_⟩, fun idle fresh steps => ?_⟩
  · rw [submits_of_isAsk ask]
    simp
  · rw [leafStep_of_isAsk ask silent]
    split
    · rename_i passes
      rw [finish_begin_of_passes ask passes]
    · rfl
  · have paced : Paced n.config.leaf 0 n := paced_of_fresh idle fresh
    refine ⟨?_, fun s empty => ?_⟩
    · rw [← paced.attemptsSince_add 0 0]
      exact (paced.leafSteps steps).pause
    · have later := (paced.leafSteps steps).submits_eq s
      simp only [emptyHanded, Bool.and_eq_true, Bool.not_eq_true'] at empty
      simpa [empty.1, empty.2] using later

/-- The policy is asked before an endpoint is known, and when one is known it makes an attempt that comes
to nothing. -/
def stranded : List LeafStep :=
  [.switch true, .activate, .endpoints [⟨"tcp://10.0.0.1:7000"⟩], .advance 10000, .beat, .finish 0]

theorem backoff_counts_empty_handed_stranded :
    (lonely.leafSteps stranded).leaf.retryInterval = 40000 ∧
    lonely.tallySince submits 0 stranded = 1 ∧ lonely.tallySince emptyHanded 0 stranded = 1 ∧
    (lonely.leafSteps (stranded.take 1)).emptyHanded .activate = true ∧
    (lonely.leafSteps (stranded.take 1)).remoteTransports = [] ∧
    (lonely.leafSteps (stranded.take 2)).submits .beat = false ∧
    (lonely.leafSteps (stranded.take 2)).leafStep .beat = lonely.leafSteps (stranded.take 2) := by
  obtain ⟨-, run⟩ := backoff_counts_empty_handed lonely
  obtain ⟨pause, -⟩ := run rfl rfl stranded
  obtain ⟨-, empty⟩ := run rfl rfl (stranded.take 1)
  have requests : lonely.tallySince submits 0 stranded = 1 := by decide +kernel
  have without : lonely.tallySince emptyHanded 0 stranded = 1 := by decide +kernel
  have here : (lonely.leafSteps (stranded.take 1)).emptyHanded .activate = true := by decide +kernel
  have silent : (lonely.leafSteps (stranded.take 2)).submits .beat = false := by decide +kernel
  have waits : (lonely.leafSteps (stranded.take 2)).passes .beat = false := by decide +kernel
  obtain ⟨asks, -⟩ := backoff_counts_empty_handed (lonely.leafSteps (stranded.take 2))
  have same := (asks .beat rfl).2 silent
  rw [waits] at same
  rw [requests, without] at pause
  exact ⟨pause, requests, without, here, empty .activate here, silent, same⟩

/-- Asked before an endpoint is known, the policy asks for no link, and yet the pause is doubled and has
begun: when an endpoint becomes known, the first attempt has to wait. -/
theorem backoff_doubled_without_attempt :
    let n := lonely.leafSteps (stranded.take 1)
    let m := n.leafStep .activate
    n.submits .activate = false ∧
    (n.leaf.retryInterval, n.leaf.nextAttempt) = (10000, none) ∧
    (m.leaf.retryInterval, m.leaf.nextAttempt) = (20000, some 10000) ∧
    (n.leafStep (.endpoints [⟨"tcp://10.0.0.1:7000"⟩])).submits .activate = true ∧
    (m.leafStep (.endpoints [⟨"tcp://10.0.0.1:7000"⟩])).submits .activate = false := by
  decide +kernel

end

end Node

end RingOverlay

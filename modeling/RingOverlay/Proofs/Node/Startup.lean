import RingOverlay.Proofs.Node.Bookkeeping
/-!
The books of a node when its loop starts. The loop hears of changes of the table from then on, but the
books are not brought in step with the table that it finds: what was wrong stays wrong until something
about it changes.
-/

set_option autoImplicit false
set_option relaxedAutoImplicit false

namespace RingOverlay.Node

section

variable {n : Node} {loop : TaskId} {l : LoopTask}

theorem tracked_start (table : n.table.Reachable)
    (policies : .unstructured ∈ n.overlords ∧ .managed ∈ n.overlords) (driven : n.DrivenBy loop l)
    (waiting : l.started = false ∧ l.stopping = false) (beats : n.config.timing.heartbeatMs ≠ 0) :
    ∃ l', (n.poll loop).Tracked (some n) loop l' ∧ l'.feed = .fresh := by
  have starts : n.poll loop =
      n.start.pollRunning loop { l with started := true, feed := .fresh, nextBeat := n.now } := by
    simp only [poll, driven.task?, pollLoop, waiting.1, Bool.false_eq_true, if_false, if_neg beats]
  have goesOn : ¬ l.stopping = true := by simp [waiting.2]
  rw [starts, pollRunning, if_neg goesOn]
  obtain ⟨due, nextBeat⟩ := beatsDue n.start.config.timing.heartbeatMs n.start.now n.now
  dsimp only
  -- What the policies do at the start and at the heartbeats that are due leaves the books as they are
  -- or writes down what the table says.
  have beaten : Follows loop (fun _ => none) n (Nat.repeat heartbeat due n.start) :=
    (follows_start n).trans (follows_heartbeats due n.start)
  have step : Follows loop (fun _ => none) n
      (if due = 0 then Nat.repeat heartbeat due n.start
        else (Nat.repeat heartbeat due n.start).wakeAt nextBeat loop) := by
    split
    · exact beaten
    · exact beaten.trans (follows_wakeAt ..)
  have agrees := n.agrees_self.follows step
  refine ⟨{ l with started := true, feed := .fresh, nextBeat }, ?_, rfl⟩
  refine tracked_of_fresh ?_ ?_ ((step.driven l driven).setLoop _) ⟨rfl, waiting.2⟩ rfl
    ⟨agrees.current, agrees.pins, agrees.word⟩
  · exact step.table ▸ table.arranged
  · exact step.overlords ▸ policies

/-- Take a node whose loop is about to start, with any books. After the start, whatever happens in
whatever order, an entry that is wrong when the loop has nothing to read was wrong at the start and
nothing about it has changed since. In particular books that fit the table at the start fit it
then. -/
theorem books_wrong_only_from_start (table : n.table.Reachable)
    (policies : .unstructured ∈ n.overlords ∧ .managed ∈ n.overlords) (driven : n.DrivenBy loop l)
    (waiting : l.started = false ∧ l.stopping = false) (beats : n.config.timing.heartbeatMs ≠ 0)
    (steps : List NodeStep) :
    ∃ l', ((n.poll loop).after steps).DrivenBy loop l' ∧ (l'.feed = .fresh →
      (((n.poll loop).after steps).Counted ∨
        ((n.poll loop).after steps).unstructured.current = n.unstructured.current ∧
          ((n.poll loop).after steps).links .unstructured = n.links .unstructured) ∧
      (∀ p ∈ ((n.poll loop).after steps).managed.pins,
        PinFits ((n.poll loop).after steps).table p ∨
          p ∈ n.managed.pins ∧ ((n.poll loop).after steps).isConnected p.1 = n.isConnected p.1) ∧
      (n.BooksFit → ((n.poll loop).after steps).BooksFit)) := by
  obtain ⟨first, started, -⟩ := tracked_start table policies driven waiting beats
  obtain ⟨l', tracked⟩ := started.after steps
  refine ⟨l', tracked.driven, fun quiet => ?_⟩
  obtain ⟨counted, fits⟩ := tracked.upToDate quiet
  generalize (n.poll loop).after steps = m at tracked counted fits ⊢
  have current : m.Counted ∨ m.unstructured.current = n.unstructured.current ∧
      m.links .unstructured = n.links .unstructured := by
    refine counted.imp_right ?_
    rintro ⟨s, start, same⟩
    cases start
    exact same
  have pins : ∀ p ∈ m.managed.pins, PinFits m.table p ∨
      p ∈ n.managed.pins ∧ m.isConnected p.1 = n.isConnected p.1 := by
    intro p hp
    refine (fits p hp).imp_right ?_
    rintro ⟨s, start, same⟩
    cases start
    exact same
  refine ⟨current, pins, fun books => ⟨?_, fun p hp => ?_⟩⟩
  · rcases current with counted | ⟨believed, links⟩
    · exact counted
    · exact (believed.trans books.current).trans links.symm
  · rcases pins p hp with fits | ⟨old, linked⟩
    · exact fits
    · have same : m.table.contains .structured p.1 = n.table.contains .structured p.1 := linked
      rw [PinFits, same]
      exact books.pins p old

/-- What happens to a node before its loop runs: two links come up, the peer of one is pinned, and
that link is lost. -/
def beforehand : List NodeStep :=
  [.add ⟨7, .floor 32, "unstructured", []⟩, .add ⟨8, .floor 80, "structured.managed", []⟩,
    .pin (.floor 80), .removeEdge 8]

def unobserved : Node := (create (.floor 2) {} .empty false).after beforehand

def comeback : List NodeStep :=
  [.add ⟨9, .floor 96, "unstructured", []⟩, .add ⟨10, .floor 80, "structured.managed", []⟩, .poll 0]

theorem books_wrong_only_from_start_unobserved :
    ((unobserved.run.poll 0).after comeback).Counted ∧
      ((unobserved.run.poll 0).after comeback).links .unstructured = 2 := by
  have idle : unobserved.tasks = [] := List.length_eq_zero_iff.mp (by decide +kernel)
  have driven := driven_run idle
  have first : unobserved.created = 0 := by decide +kernel
  rw [first] at driven
  have table : unobserved.run.table.Reachable :=
    ⟨[.add ⟨7, .floor 32, "unstructured", []⟩, .add ⟨8, .floor 80, "structured.managed", []⟩,
      .removeEdge 8], by decide +kernel⟩
  have policies : .unstructured ∈ unobserved.run.overlords ∧ .managed ∈ unobserved.run.overlords := by
    decide +kernel
  have beats : unobserved.run.config.timing.heartbeatMs ≠ 0 := by decide +kernel
  obtain ⟨l, driven, settled⟩ :=
    books_wrong_only_from_start table policies driven ⟨rfl, rfl⟩ beats comeback
  have quiet : (((unobserved.run.poll 0).after comeback).task? 0).bind feed? = some .fresh := by
    decide +kernel
  rw [driven.task?] at quiet
  obtain ⟨counted, -⟩ := settled (Option.some.inj quiet)
  have links : ((unobserved.run.poll 0).after comeback).links .unstructured = 2 := by decide +kernel
  refine ⟨counted.resolve_right fun same => ?_, links⟩
  have before : unobserved.run.links .unstructured = 1 := by decide +kernel
  omega

/-- A loop that has started, with nothing to read, beside books that do not fit the table. -/
theorem books_wrong_after_start :
    ((unobserved.run.poll 0).task? 0).bind feed? = some .fresh ∧
      (unobserved.run.poll 0).unstructured.current = 0 ∧
      (unobserved.run.poll 0).links .unstructured = 1 ∧
      (unobserved.run.poll 0).managed.pins = [(.floor 80, .on)] ∧
      (unobserved.run.poll 0).isConnected (.floor 80) = false := by
  decide +kernel

end

end RingOverlay.Node

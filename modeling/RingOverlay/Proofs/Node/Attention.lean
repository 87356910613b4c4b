import RingOverlay.Node.Sharing
import RingOverlay.Proofs.Node.Lateness
/-!
What a node's books say about one pinned peer, whatever happens to the links of others. Words about the
peer may lie in the loop's feed, and a later one may not have been sent yet; until the last of them is
handled the entry may be wrong.
-/

set_option autoImplicit false
set_option relaxedAutoImplicit false

namespace RingOverlay.Node

/-- The entry for a peer fits the table if no word about the peer is still to come, and otherwise the
last word that is to come is right. -/
structure AgreesAbout (a : RingAddress) (said : Option Bool) (n : Node) : Prop where
  pins : said = none → ∀ p ∈ n.managed.pins, p.1 = a → PinFits n.table p
  word : n.table.Confirms a said

structure Remains (loop : TaskId) (n m : Node) : Prop where
  table : m.table = n.table
  overlords : m.overlords = n.overlords
  driven : ∀ l, n.DrivenBy loop l → m.DrivenBy loop l

section

variable {a : RingAddress} {said later : Option Bool} {loop id : TaskId} {l : LoopTask} {n m k : Node}
  {s : NodeStep} {e : TableEvent} {word : RingAddress → Option Bool}

theorem Follows.remains (step : Follows loop word n m) : Remains loop n m :=
  ⟨step.table, step.overlords, step.driven⟩

theorem Remains.trans (first : Remains loop n m) (second : Remains loop m k) : Remains loop n k where
  table := second.table.trans first.table
  overlords := second.overlords.trans first.overlords
  driven l driven := second.driven l (first.driven l driven)

private theorem follows_resync (n : Node) : Follows loop word n n.resync :=
  .foldl follows_resyncOne n.overlords n

private theorem remains_events (n : Node) (es : List TableEvent) :
    Remains loop n (es.foldl handleEvent n) := by
  induction es generalizing n with
  | nil => exact ⟨rfl, rfl, fun _ driven => driven⟩
  | cons e es ih => exact (follows_handleEvent n e).remains.trans (ih _)

private theorem remains_feed (n : Node) (feed : EventFeed) : Remains loop n (n.handleFeed feed) := by
  unfold handleFeed
  split
  · have step : Follows loop (fun _ => none) n n.resync := follows_resync n
    exact step.remains
  · exact remains_events n feed.unread

theorem AgreesAbout.of_same (agrees : n.AgreesAbout a said) (table : m.table = n.table)
    (managed : m.managed = n.managed) : m.AgreesAbout a said where
  pins silent := by
    rw [managed, table]
    exact agrees.pins silent
  word := table ▸ agrees.word

theorem AgreesAbout.follows (agrees : n.AgreesAbout a said)
    (step : Follows loop (fun _ => none) n m) : m.AgreesAbout a said where
  pins silent p hp own := by
    rw [step.table]
    rcases step.pins p hp with old | fits | spoken
    · exact agrees.pins silent p old own
    · exact fits
    · cases spoken
  word := step.table ▸ agrees.word

theorem AgreesAbout.reported {u : ConnectionTable} {es : List TableEvent}
    (agrees : n.AgreesAbout a said) (change : n.table.Reported es u) :
    { n with table := u }.AgreesAbout a ((lastWord es a).or said) where
  pins silent p hp own := by
    rw [Option.or_eq_none_iff] at silent
    rw [PinFits, own, change.silence a silent.1, ← own]
    exact agrees.pins silent.2 p hp own
  word := agrees.word.reported change

theorem AgreesAbout.handleEvent (agrees : n.AgreesAbout a (said.or (e.word a)))
    (managed : .managed ∈ n.overlords) : (n.handleEvent e).AgreesAbout a said := by
  have step : Follows 0 e.word n (n.handleEvent e) := follows_handleEvent n e
  refine ⟨fun silent p hp own => ?_, step.table ▸ agrees.word.of_or⟩
  subst own silent
  rw [Option.none_or] at agrees
  rw [step.table]
  rcases pin_of_handleEvent managed agrees.word hp with fits | ⟨unsaid, old⟩
  · exact fits
  · exact agrees.pins unsaid p old rfl

private theorem AgreesAbout.events {unread : List TableEvent}
    (agrees : n.AgreesAbout a (later.or (lastWord unread a))) (managed : .managed ∈ n.overlords) :
    (unread.foldl Node.handleEvent n).AgreesAbout a later := by
  induction unread generalizing n with
  | nil => simpa [lastWord] using agrees
  | cons e es ih =>
    have step : Follows 0 e.word n (n.handleEvent e) := follows_handleEvent n e
    rw [lastWord_cons, ← Option.or_assoc] at agrees
    exact ih (agrees.handleEvent managed) (step.overlords ▸ managed)

theorem agreesAbout_resync (word : n.table.Confirms a later) (managed : .managed ∈ n.overlords) :
    n.resync.AgreesAbout a later := by
  have step : Follows 0 (fun _ => none) n n.resync := follows_resync n
  refine ⟨fun _ p hp _ => ?_, step.table ▸ word⟩
  rw [step.table]
  exact pin_of_resync managed hp

/-- The invariant of a node that one loop drives, as far as one peer is concerned: the words about the
peer that are to come are those in the loop's feed, unless some were lost, and a later one. -/
structure Attends (a : RingAddress) (later : Option Bool) (n : Node) (loop : TaskId)
    (l : LoopTask) : Prop where
  driven : n.DrivenBy loop l
  started : l.started = true
  stopping : l.stopping = false
  managed : .managed ∈ n.overlords
  pending : n.table.Confirms a later
  agrees : l.feed.missed = 0 → n.AgreesAbout a (later.or (lastWord l.feed.unread a))

private theorem Attends.moved {l' : LoopTask} (attends : n.Attends a later loop l)
    (table : m.table = n.table) (overlords : m.overlords = n.overlords) (driven : m.DrivenBy loop l')
    (started : l'.started = l.started) (stopping : l'.stopping = l.stopping)
    (agrees : l'.feed.missed = 0 → m.AgreesAbout a (later.or (lastWord l'.feed.unread a))) :
    m.Attends a later loop l' where
  driven := driven
  started := started.trans attends.started
  stopping := stopping.trans attends.stopping
  managed := overlords ▸ attends.managed
  pending := table ▸ attends.pending
  agrees := agrees

theorem Attends.follows (attends : n.Attends a later loop l)
    (step : Follows loop (fun _ => none) n m) : m.Attends a later loop l :=
  attends.moved step.table step.overlords (step.driven l attends.driven) rfl rfl
    fun whole => (attends.agrees whole).follows step

private theorem AgreesAbout.allRead (agrees : n.AgreesAbout a later) :
    n.AgreesAbout a (later.or (lastWord [] a)) := by
  simpa [lastWord] using agrees

theorem Attends.read (attends : n.Attends a later loop l) (id : TaskId) :
    ∃ l', (n.readNext id).Attends a later loop l' := by
  unfold readNext
  split
  · rename_i l' found
    obtain ⟨rfl, rfl⟩ := attends.driven.eq_of_task? found
    split
    · rename_i e feed next
      obtain ⟨whole, unread⟩ := EventFeed.next?_event next
      have agrees := attends.agrees whole
      rw [unread, lastWord_cons, ← Option.or_assoc] at agrees
      have driven := attends.driven.setLoop { l' with feed }
      have step : Follows id e.word (n.setTask id (.drive { l' with feed })) _ :=
        follows_handleEvent _ e
      have set : (n.setTask id (.drive { l' with feed })).AgreesAbout a
          ((later.or (lastWord feed.unread a)).or (e.word a)) := agrees.of_same rfl rfl
      exact ⟨_, attends.moved step.table step.overlords (step.driven _ driven) rfl rfl
        fun _ => set.handleEvent attends.managed⟩
    · have driven := attends.driven.setLoop { l' with feed := .fresh }
      have step : Follows id (fun _ => none) (n.setTask id (.drive { l' with feed := .fresh })) _ :=
        follows_resync _
      have looked : (n.setTask id (.drive { l' with feed := .fresh })).resync.AgreesAbout a later :=
        agreesAbout_resync attends.pending attends.managed
      exact ⟨_, attends.moved step.table step.overlords (step.driven _ driven) rfl rfl
        fun _ => looked.allRead⟩
    · exact ⟨_, attends⟩
  · exact ⟨l, attends⟩

private theorem Attends.handleFeed (attends : n.Attends a later loop l) :
    (n.handleFeed l.feed).AgreesAbout a later := by
  unfold Node.handleFeed
  split
  · exact agreesAbout_resync attends.pending attends.managed
  · rename_i whole
    exact (attends.agrees (not_not.mp whole)).events attends.managed

theorem Attends.poll_loop (attends : n.Attends a later loop l) :
    ∃ l', (n.poll loop).Attends a later loop l' := by
  have goesOn : ¬ l.stopping = true := by simp [attends.stopping]
  rw [attends.driven.poll_eq attends.started, pollRunning, if_neg goesOn]
  obtain ⟨beats, nextBeat⟩ := beatsDue n.config.timing.heartbeatMs n.now l.nextBeat
  dsimp only
  have beaten := attends.follows (follows_heartbeats beats n)
  have read : Remains loop (Nat.repeat heartbeat beats n) _ := remains_feed _ l.feed
  -- What follows the reading touches neither the links nor the books.
  have woken : Follows loop (fun _ => none) ((Nat.repeat heartbeat beats n).handleFeed l.feed)
      (if beats = 0 then (Nat.repeat heartbeat beats n).handleFeed l.feed
        else ((Nat.repeat heartbeat beats n).handleFeed l.feed).wakeAt nextBeat loop) := by
    split
    · exact .refl _
    · exact follows_wakeAt ..
  have caught := read.trans woken.remains
  have agrees := beaten.handleFeed.follows woken
  have driven := (caught.driven l beaten.driven).setLoop { l with feed := .fresh, nextBeat }
  refine ⟨{ l with feed := .fresh, nextBeat }, beaten.moved caught.table caught.overlords driven rfl rfl
    fun _ => AgreesAbout.allRead ?_⟩
  exact agrees.of_same rfl rfl

theorem Attends.step (attends : n.Attends a later loop l) (apart : s.call? = none) :
    ∃ l', (n.step s).Attends a later loop l' := by
  by_cases quiet : s.leavesFeed loop = true
  · exact ⟨l, attends.follows (follows_step attends.driven quiet)⟩
  · cases s with
    | add | removeEdge => cases apart
    | read id => exact attends.read id
    | poll id =>
      obtain rfl : id = loop := by simpa [NodeStep.leavesFeed] using quiet
      exact attends.poll_loop
    | _ => exact absurd rfl quiet

theorem Attends.reported {u : ConnectionTable} {es : List TableEvent}
    (attends : n.Attends a later loop l) (change : n.table.Reported es u) :
    { n with table := u }.Attends a ((lastWord es a).or later) loop l where
  driven := ⟨attends.driven.only, attends.driven.numbered⟩
  started := attends.started
  stopping := attends.stopping
  managed := attends.managed
  pending := attends.pending.reported change
  agrees whole := by
    rw [Option.or_assoc]
    exact (attends.agrees whole).reported change

theorem Attends.publish (attends : n.Attends a (later.or (e.word a)) loop l) :
    (n.publish e).Attends a later loop { l with feed := l.feed.push e } := by
  obtain ⟨driven, table, overlords, -, managed⟩ := attends.driven.publish_all attends.started [e]
  refine ⟨driven, attends.started, attends.stopping, ?_, ?_, fun whole => ?_⟩
  · exact overlords ▸ attends.managed
  · exact table ▸ attends.pending.of_or
  · obtain ⟨before, unread⟩ := EventFeed.unread_push whole
    have agrees := attends.agrees before
    have last : lastWord (l.feed.push e).unread a = (e.word a).or (lastWord l.feed.unread a) := by
      rw [unread, lastWord_append, lastWord_cons]
      rfl
    rw [Option.or_assoc, ← last] at agrees
    exact agrees.of_same table managed

theorem table_step (apart : s.call? = none) (n : Node) : (n.step s).table = n.table := by
  have keeps : (NodeMove.step s).changesTable = false := by
    cases s with
    | add | removeEdge => cases apart
    | _ => rfl
  exact (climbs_routine.move n (.step s) (allows_of_steady Steady.climbs n keeps)).table

end

end RingOverlay.Node

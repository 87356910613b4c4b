import RingOverlay.Node.Steps
import RingOverlay.Proofs.Node.Following
import RingOverlay.Proofs.Table.Reports
/-!
A node's books follow its table. Between a change of the table and the moment when the loop reads of
it, the books may lag behind; the invariant is that the last unread word about a peer is what the
table says, and that an entry about which nothing is unread fits the table already.
-/

set_option autoImplicit false
set_option relaxedAutoImplicit false

namespace RingOverlay

def NodeStep.leavesFeed (loop : TaskId) : NodeStep → Bool
  | .add _ | .removeEdge _ => false
  | .read id | .poll id => id != loop
  | _ => true

namespace Node

/-- The number of unstructured links that a node believes in is that of its table. -/
def Counted (n : Node) : Prop := n.unstructured.current = n.table.count .unstructured

/-- A node counts its unstructured links right, or it stands with them as at an earlier time. -/
def CountedSince (since : Option Node) (n : Node) : Prop :=
  n.Counted ∨ ∃ s ∈ since, n.unstructured.current = s.unstructured.current ∧
    n.table.count .unstructured = s.table.count .unstructured

/-- An entry for a peer fits the table, or entry and table are as at an earlier time. -/
def FitsSince (since : Option Node) (t : ConnectionTable) (p : RingAddress × PinState) : Prop :=
  PinFits t p ∨ ∃ s ∈ since, p ∈ s.managed.pins ∧
    t.contains .structured p.1 = s.table.contains .structured p.1

/-- The books of a node fit its table, up to events that are still unread and to what was wrong at an
earlier time and has not changed. -/
structure Agrees (since : Option Node) (n : Node) (unread : List TableEvent) : Prop where
  current : (∀ e ∈ unread, e.link.mainType ≠ .unstructured) → n.CountedSince since
  pins : ∀ p ∈ n.managed.pins, lastWord unread p.1 = none → FitsSince since n.table p
  word : ∀ a up, lastWord unread a = some up → n.table.contains .structured a = up

section

variable {loop : TaskId} {since : Option Node} {n m : Node} {unread : List TableEvent}

theorem Counted.follows {word : RingAddress → Option Bool} (step : Follows loop word n m)
    (counted : n.Counted) : m.Counted := by
  rw [Counted, step.table]
  exact step.current.elim (·.trans counted) id

theorem CountedSince.follows {word : RingAddress → Option Bool} (step : Follows loop word n m)
    (counted : n.CountedSince since) : m.CountedSince since := by
  rcases counted with counted | ⟨s, start, current, links⟩
  · exact Or.inl (counted.follows step)
  · rcases step.current with same | counted
    · exact Or.inr ⟨s, start, same.trans current, step.table ▸ links⟩
    · refine Or.inl ?_
      rw [Counted, step.table]
      exact counted

theorem Agrees.follows (agrees : n.Agrees since unread) (step : Follows loop (fun _ => none) n m) :
    m.Agrees since unread where
  current quiet := (agrees.current quiet).follows step
  pins p hp silent := by
    rw [step.table]
    rcases step.pins p hp with old | fits | spoken
    · exact agrees.pins p old silent
    · exact Or.inl fits
    · cases spoken
  word a up said := by
    rw [step.table]
    exact agrees.word a up said

theorem Agrees.reported {es : List TableEvent} (agrees : n.Agrees since unread)
    (change : n.table.Reported es m.table) (unstructured : m.unstructured = n.unstructured)
    (managed : m.managed = n.managed) : m.Agrees since (unread ++ es) where
  current quiet := by
    rw [CountedSince, Counted, unstructured,
      change.count fun e he => quiet e (List.mem_append_right _ he)]
    exact agrees.current fun e he => quiet e (List.mem_append_left _ he)
  pins p hp silent := by
    rw [lastWord_append, Option.or_eq_none_iff] at silent
    rw [managed] at hp
    rw [FitsSince, PinFits, change.silence p.1 silent.1]
    exact agrees.pins p hp silent.2
  word a := by
    have confirms : n.table.Confirms a (lastWord unread a) := agrees.word a
    rw [lastWord_append]
    exact confirms.reported change

def hear (e : TableEvent) (n : Node) (k : OverlordKind) : Node :=
  match e with
  | .connected c => n.linkUp c k
  | .disconnected c => n.linkDown c k

theorem handleEvent_eq (n : Node) (e : TableEvent) :
    n.handleEvent e = n.overlords.foldl (hear e) n := by
  cases e <;> rfl

def Told (word : RingAddress → Option Bool) (about : RingAddress → Prop) (n : Node) : Prop :=
  ∀ p ∈ n.managed.pins, about p.1 → PinFits n.table p ∨ word p.1 = some (p.2 == .on)

theorem Told.follows {word : RingAddress → Option Bool} {about : RingAddress → Prop}
    (step : Follows loop word n m) (told : n.Told word about) : m.Told word about := by
  intro p hp concerned
  rw [step.table]
  rcases step.pins p hp with old | new
  · exact told p old concerned
  · exact new

theorem Counted.activateUnstructured (counted : n.Counted) : n.activateUnstructured.Counted := by
  have step : Follows 0 (fun _ => none) n n.activateUnstructured := follows_activateUnstructured n
  exact counted.follows step

theorem counted_recount (n : Node) : n.recountUnstructured.Counted :=
  Counted.activateUnstructured rfl

theorem follows_linkUp (n : Node) (c : Connection) (k : OverlordKind) :
    Follows loop (TableEvent.connected c).word n (n.linkUp c k) := by
  cases k with
  | leaf =>
    simp only [linkUp]
    split
    · have trimmed : Follows loop (TableEvent.connected c).word n
          ({ n with leaf := n.leaf.resetBackoff n.config.leaf }.trimLeafs c.edge).2 := by
        refine .trans ?_ (follows_trimLeafs ..)
        exact .of_same rfl rfl rfl rfl rfl rfl
      split
      · exact trimmed.trans (follows_activateLeaf _)
      · exact trimmed
    · exact .refl n
  | unstructured =>
    simp only [linkUp]
    split
    · refine .trans ?_ (follows_activateUnstructured _)
      exact .of_count (UnstructuredOverlord.current_linkUp ..)
    · exact .refl n
  | managed =>
    simp only [linkUp]
    split
    · rename_i type
      refine .of_pins fun p hp => (ManagedOverlord.mem_setState hp).imp_right fun new => Or.inr ?_
      subst new
      exact TableEvent.word_eq_some_iff.mpr ⟨⟨type, rfl⟩, rfl⟩
    · exact .refl n
  | discovery => exact .refl n

theorem follows_linkDown (n : Node) (c : Connection) (k : OverlordKind) :
    Follows loop (TableEvent.disconnected c).word n (n.linkDown c k) := by
  cases k with
  | leaf =>
    simp only [linkDown]
    split
    · exact follows_activateLeaf n
    · exact .refl n
  | unstructured =>
    simp only [linkDown]
    split
    · exact follows_recountUnstructured n
    · exact .refl n
  | managed =>
    simp only [linkDown]
    split
    · rename_i type
      have down : Follows loop (TableEvent.disconnected c).word n
          { n with managed := (n.managed.linkDown c.address).2 } := by
        refine .of_pins fun p hp => (ManagedOverlord.mem_setState hp).imp_right fun new => Or.inr ?_
        subst new
        exact TableEvent.word_eq_some_iff.mpr ⟨⟨type, rfl⟩, rfl⟩
      split
      · exact down.trans (follows_startHandshake ..)
      · exact down
    · exact .refl n
  | discovery => exact .refl n

theorem follows_hear (e : TableEvent) (n : Node) (k : OverlordKind) :
    Follows loop e.word n (hear e n k) := by
  cases e with
  | connected c => exact follows_linkUp n c k
  | disconnected c => exact follows_linkDown n c k

theorem follows_handleEvent (n : Node) (e : TableEvent) : Follows loop e.word n (n.handleEvent e) := by
  rw [handleEvent_eq]
  exact .foldl (follows_hear e) n.overlords n

theorem counted_hear {e : TableEvent} (type : e.link.mainType = .unstructured) (n : Node) :
    (hear e n .unstructured).Counted := by
  cases e with
  | connected c =>
    simp only [hear, linkUp, if_pos (show c.mainType = _ from type)]
    refine Counted.activateUnstructured ?_
    exact UnstructuredOverlord.current_linkUp ..
  | disconnected c =>
    simp only [hear, linkDown, if_pos (show c.mainType = _ from type)]
    exact counted_recount n

theorem told_hear (e : TableEvent) (n : Node) :
    (hear e n .managed).Told e.word fun a => e.word a ≠ none := by
  intro p hp spoken
  obtain ⟨up, said⟩ := Option.ne_none_iff_exists'.mp spoken
  obtain ⟨⟨type, address⟩, rfl⟩ := TableEvent.word_eq_some_iff.mp said
  right
  rw [said]
  cases e with
  | connected c =>
    simp only [hear, linkUp, if_pos (show c.mainType = _ from type)] at hp
    have state := ManagedOverlord.state_of_mem_setState hp address.symm
    rw [state]
    rfl
  | disconnected c =>
    simp only [hear, linkDown, if_pos (show c.mainType = _ from type)] at hp
    have state : p.2 = .off := by
      split at hp <;> exact ManagedOverlord.state_of_mem_setState hp address.symm
    rw [state]
    rfl

/-- After an event an entry fits the table if the event is right about the peer. If it says nothing
about the peer, the entry may also be an old one. -/
theorem pin_of_handleEvent {e : TableEvent} (pins : .managed ∈ n.overlords) {p : RingAddress × PinState}
    (right : n.table.Confirms p.1 (e.word p.1)) (hp : p ∈ (n.handleEvent e).managed.pins) :
    PinFits n.table p ∨ e.word p.1 = none ∧ p ∈ n.managed.pins := by
  have each : ∀ n k, Follows 0 e.word n (hear e n k) := follows_hear e
  have step : Follows 0 e.word n (n.handleEvent e) := follows_handleEvent n e
  have told : (n.handleEvent e).Told e.word fun a => e.word a ≠ none := by
    rw [handleEvent_eq]
    exact Follows.establish each (fun _ _ => Told.follows) (told_hear e) pins n
  cases said : e.word p.1 with
  | none =>
    rcases step.pins p hp with old | fits | spoken
    · exact Or.inr ⟨rfl, old⟩
    · exact Or.inl fits
    · cases said.symm.trans spoken
  | some up =>
    left
    rcases told p hp (by simp [said]) with fits | spoken
    · exact step.table ▸ fits
    · obtain rfl : up = (p.2 == .on) := Option.some.inj (said.symm.trans spoken)
      simp [PinFits, right _ said]

theorem Agrees.handleEvent {e : TableEvent} (agrees : n.Agrees since (e :: unread))
    (counts : .unstructured ∈ n.overlords) (pins : .managed ∈ n.overlords) :
    (n.handleEvent e).Agrees since unread := by
  have each : ∀ n k, Follows 0 e.word n (hear e n k) := follows_hear e
  have step : Follows 0 e.word n (n.handleEvent e) := follows_handleEvent n e
  refine ⟨?_, ?_, ?_⟩
  · intro quiet
    by_cases type : e.link.mainType = .unstructured
    · rw [handleEvent_eq]
      exact Or.inl (Follows.establish each (fun _ _ => Counted.follows) (counted_hear type) counts n)
    · refine CountedSince.follows step (agrees.current ?_)
      intro f hf
      rcases List.mem_cons.mp hf with rfl | hf
      · exact type
      · exact quiet f hf
  · intro p hp silent
    -- Nothing else is unread about the peer, so what the event says is what the table says.
    have right : n.table.Confirms p.1 (e.word p.1) := fun up said =>
      agrees.word p.1 up (by simp [lastWord_cons, silent, said])
    rw [step.table]
    rcases pin_of_handleEvent pins right hp with fits | ⟨unsaid, old⟩
    · exact Or.inl fits
    · exact agrees.pins p old (by simp [lastWord_cons, silent, unsaid])
  · intro a up said
    rw [step.table]
    exact agrees.word a up (by simp [lastWord_cons, said])

theorem pin_of_resync (pins : .managed ∈ n.overlords) {p : RingAddress × PinState}
    (hp : p ∈ n.resync.managed.pins) : PinFits n.table p := by
  have each : ∀ n k, Follows 0 (fun _ => none) n (resyncOne n k) := follows_resyncOne
  have step : Follows 0 (fun _ => none) n n.resync := .foldl each n.overlords n
  have looked (n : Node) : (resyncOne n .managed).Told (fun _ => none) fun _ => True := by
    have step : Follows 0 (fun _ => none) { n with managed := n.managed.resync n.isConnected }
        (resyncOne n .managed) := follows_activateManaged _
    refine Told.follows step fun p hp _ => Or.inl ?_
    exact ManagedOverlord.on_iff_of_mem_resync hp
  have told : n.resync.Told (fun _ => none) fun _ => True :=
    Follows.establish each (fun _ _ => Told.follows) looked pins n
  rcases told p hp trivial with fits | spoken
  · exact step.table ▸ fits
  · cases spoken

theorem agrees_resync (counts : .unstructured ∈ n.overlords) (pins : .managed ∈ n.overlords) :
    n.resync.Agrees since [] := by
  have each : ∀ n k, Follows 0 (fun _ => none) n (resyncOne n k) := follows_resyncOne
  have step : Follows 0 (fun _ => none) n n.resync := .foldl each n.overlords n
  refine ⟨fun _ => Or.inl ?_, fun p hp _ => Or.inl ?_, fun _ _ said => by cases said⟩
  · have recounted (n : Node) : (resyncOne n .unstructured).Counted := counted_recount n
    exact Follows.establish each (fun _ _ => Counted.follows) recounted counts n
  · rw [step.table]
    exact pin_of_resync pins hp

/-- The books of a node fit its table: it counts the unstructured links right, and a pinned peer is
on exactly if there is a structured link to it. -/
structure BooksFit (n : Node) : Prop where
  current : n.Counted
  pins : ∀ p ∈ n.managed.pins, PinFits n.table p

/-- The invariant of a node that one loop drives: its books fit its table up to the events that the
loop has not read, unless some were lost, and up to what was wrong from the start. -/
structure Tracked (since : Option Node) (n : Node) (loop : TaskId) (l : LoopTask) : Prop where
  driven : n.DrivenBy loop l
  started : l.started = true
  stopping : l.stopping = false
  arranged : n.table.Arranged
  counts : .unstructured ∈ n.overlords
  pins : .managed ∈ n.overlords
  agrees : l.feed.missed = 0 → n.Agrees since l.feed.unread

variable {l : LoopTask}

private theorem Tracked.moved {l' : LoopTask} (tracked : n.Tracked since loop l)
    (table : m.table = n.table) (overlords : m.overlords = n.overlords) (driven : m.DrivenBy loop l')
    (started : l'.started = l.started) (stopping : l'.stopping = l.stopping)
    (agrees : l'.feed.missed = 0 → m.Agrees since l'.feed.unread) : m.Tracked since loop l' where
  driven := driven
  started := started.trans tracked.started
  stopping := stopping.trans tracked.stopping
  arranged := table ▸ tracked.arranged
  counts := overlords ▸ tracked.counts
  pins := overlords ▸ tracked.pins
  agrees := agrees

theorem Tracked.follows (tracked : n.Tracked since loop l) (step : Follows loop (fun _ => none) n m) :
    m.Tracked since loop l :=
  tracked.moved step.table step.overlords (step.driven l tracked.driven) rfl rfl
    fun whole => (tracked.agrees whole).follows step

theorem Tracked.reported {u : ConnectionTable} {es : List TableEvent} (tracked : n.Tracked since loop l)
    (arranged : u.Arranged) (change : n.table.Reported es u) :
    (es.foldl publish { n with table := u }).Tracked since loop
      { l with feed := es.foldl EventFeed.push l.feed } := by
  have driven : { n with table := u }.DrivenBy loop l := ⟨tracked.driven.only, tracked.driven.numbered⟩
  obtain ⟨drives, table, overlords, unstructured, managed⟩ := driven.publish_all tracked.started es
  refine ⟨drives, tracked.started, tracked.stopping, table ▸ arranged, ?_, ?_, fun whole => ?_⟩
  · rw [overlords]
    exact tracked.counts
  · rw [overlords]
    exact tracked.pins
  · obtain ⟨before, unread⟩ := EventFeed.foldl_push es whole
    rw [unread]
    exact (tracked.agrees before).reported (table ▸ change) unstructured managed

theorem Tracked.add (tracked : n.Tracked since loop l) (c : Connection) :
    ∃ l', (n.step (.add c)).Tracked since loop l' := by
  simp only [step, addLink]
  cases taken : n.table.add c with
  | error reason => exact ⟨l, tracked⟩
  | ok u =>
    have change := tracked.arranged.reported_add taken
    exact ⟨_, tracked.reported (tracked.arranged.add taken) change⟩

theorem Tracked.removeEdge (tracked : n.Tracked since loop l) (e : EdgeId) :
    ∃ l', (n.step (.removeEdge e)).Tracked since loop l' := by
  have told := tracked.reported tracked.arranged.removeEdge (tracked.arranged.reported_detach e)
  rw [List.foldl_map] at told
  exact ⟨_, told⟩

theorem Tracked.read (tracked : n.Tracked since loop l) (id : TaskId) :
    ∃ l', (n.readNext id).Tracked since loop l' := by
  unfold readNext
  split
  · rename_i l' found
    obtain ⟨rfl, rfl⟩ := tracked.driven.eq_of_task? found
    split
    · rename_i e feed next
      obtain ⟨whole, unread⟩ := EventFeed.next?_event next
      have driven := tracked.driven.setLoop { l' with feed }
      have agrees := unread ▸ tracked.agrees whole
      have step : Follows id e.word (n.setTask id (.drive { l' with feed })) _ :=
        follows_handleEvent _ e
      have handled : (n.setTask id (.drive { l' with feed })).Agrees since (e :: feed.unread) :=
        ⟨agrees.current, agrees.pins, agrees.word⟩
      exact ⟨_, tracked.moved step.table step.overlords (step.driven _ driven) rfl rfl
        fun _ => handled.handleEvent tracked.counts tracked.pins⟩
    · rename_i count feed next
      have driven := tracked.driven.setLoop { l' with feed := .fresh }
      have step : Follows id (fun _ => none) (n.setTask id (.drive { l' with feed := .fresh })) _ :=
        .foldl follows_resyncOne n.overlords _
      exact ⟨_, tracked.moved step.table step.overlords (step.driven _ driven) rfl rfl
        fun _ => agrees_resync tracked.counts tracked.pins⟩
    · exact ⟨_, tracked⟩
  · exact ⟨l, tracked⟩

private structure CaughtUp (since : Option Node) (loop : TaskId) (n m : Node) : Prop where
  table : m.table = n.table
  overlords : m.overlords = n.overlords
  driven : ∀ l, n.DrivenBy loop l → m.DrivenBy loop l
  agrees : m.Agrees since []

private theorem CaughtUp.follows {k : Node} (caught : CaughtUp since loop n m)
    (step : Follows loop (fun _ => none) m k) : CaughtUp since loop n k where
  table := step.table.trans caught.table
  overlords := step.overlords.trans caught.overlords
  driven l driven := step.driven l (caught.driven l driven)
  agrees := caught.agrees.follows step

private theorem caughtUp_events (counts : .unstructured ∈ n.overlords) (pins : .managed ∈ n.overlords)
    (agrees : n.Agrees since unread) : CaughtUp since loop n (unread.foldl Node.handleEvent n) := by
  induction unread generalizing n with
  | nil => exact ⟨rfl, rfl, fun _ driven => driven, agrees⟩
  | cons e es ih =>
    have step : Follows loop e.word n (n.handleEvent e) := follows_handleEvent n e
    have rest := ih (step.overlords ▸ counts) (step.overlords ▸ pins) (agrees.handleEvent counts pins)
    exact ⟨rest.table.trans step.table, rest.overlords.trans step.overlords,
      fun l driven => rest.driven l (step.driven l driven), rest.agrees⟩

private theorem caughtUp_resync (counts : .unstructured ∈ n.overlords)
    (pins : .managed ∈ n.overlords) : CaughtUp since loop n n.resync := by
  have step : Follows loop (fun _ => none) n n.resync := .foldl follows_resyncOne n.overlords n
  exact ⟨step.table, step.overlords, step.driven, agrees_resync counts pins⟩

private theorem Tracked.caughtUp_feed (tracked : n.Tracked since loop l) :
    CaughtUp since loop n (n.handleFeed l.feed) := by
  unfold handleFeed
  split
  · exact caughtUp_resync tracked.counts tracked.pins
  · rename_i whole
    exact caughtUp_events tracked.counts tracked.pins (tracked.agrees (not_not.mp whole))

theorem follows_heartbeats (beats : Nat) (n : Node) :
    Follows loop (fun _ => none) n (Nat.repeat Node.heartbeat beats n) := by
  induction beats with
  | zero => exact .refl n
  | succ beats ih => exact ih.trans (follows_heartbeat _)

theorem Tracked.pollRunning (tracked : n.Tracked since loop l) :
    ∃ l', (n.pollRunning loop l).Tracked since loop l' ∧ l'.feed = .fresh := by
  have goesOn : ¬ l.stopping = true := by simp [tracked.stopping]
  rw [Node.pollRunning, if_neg goesOn]
  obtain ⟨beats, nextBeat⟩ := beatsDue n.config.timing.heartbeatMs n.now l.nextBeat
  dsimp only
  have beaten := tracked.follows (follows_heartbeats beats n)
  have read := beaten.caughtUp_feed
  have caught : CaughtUp since loop (Nat.repeat Node.heartbeat beats n)
      (if beats = 0 then (Nat.repeat Node.heartbeat beats n).handleFeed l.feed
        else ((Nat.repeat Node.heartbeat beats n).handleFeed l.feed).wakeAt nextBeat loop) := by
    split
    · exact read
    · exact read.follows (follows_wakeAt ..)
  have driven := (caught.driven l beaten.driven).setLoop { l with feed := .fresh, nextBeat }
  refine ⟨{ l with feed := .fresh, nextBeat }, ?_, rfl⟩
  exact beaten.moved caught.table caught.overlords driven rfl rfl
    fun _ => ⟨caught.agrees.current, caught.agrees.pins, caught.agrees.word⟩

theorem Tracked.poll_loop (tracked : n.Tracked since loop l) :
    ∃ l', (n.poll loop).Tracked since loop l' ∧ l'.feed = .fresh := by
  rw [tracked.driven.poll_eq tracked.started]
  exact tracked.pollRunning

theorem follows_step {word : RingAddress → Option Bool} (driven : n.DrivenBy loop l) {s : NodeStep}
    (quiet : s.leavesFeed loop = true) : Follows loop word n (n.step s) := by
  have drives : ∃ l, n.DrivenBy loop l := ⟨l, driven⟩
  cases s with
  | add | removeEdge => cases quiet
  | read id =>
    have other : id ≠ loop := by simpa [NodeStep.leavesFeed] using quiet
    simp only [Node.step, readNext]
    split
    · rename_i found
      exact absurd (driven.eq_of_task? found).1 other
    · exact .refl n
  | poll id =>
    have other : id ≠ loop := by simpa [NodeStep.leavesFeed] using quiet
    cases found : n.task? id with
    | none =>
      simp only [Node.step, Node.poll, found]
      exact .refl n
    | some t =>
      have plain : isLoop t = false := by
        cases t with
        | drive l' => exact absurd (driven.eq_of_task? found).1 other
        | handshake | link | retry | query => rfl
      exact follows_poll found plain other
  | heartbeat => exact follows_heartbeat n
  | pin a => exact follows_pin n a
  | unpin a => exact follows_unpin n a
  | expire id => exact follows_expire drives id
  | deliver id e => exact follows_deliver drives id e
  | hangUp id => exact follows_hangUp drives id
  | finishLink id => exact follows_finishLink drives id
  | deliverFound id r => exact follows_deliverFound drives id r
  | endFound id => exact follows_endFound drives id
  | connect policy target request abort timeoutMs => exact follows_spawn rfl n
  | submit r => exact follows_submit n r
  | dispatch method args => exact follows_dispatch n method args
  | route incoming p => exact .of_same rfl rfl rfl rfl rfl rfl
  | advance ms => exact .of_same rfl rfl rfl rfl rfl rfl

theorem Tracked.step (tracked : n.Tracked since loop l) (s : NodeStep) :
    ∃ l', (n.step s).Tracked since loop l' := by
  by_cases quiet : s.leavesFeed loop = true
  · exact ⟨l, tracked.follows (follows_step tracked.driven quiet)⟩
  · cases s with
    | add c => exact tracked.add c
    | removeEdge e => exact tracked.removeEdge e
    | read id => exact tracked.read id
    | poll id =>
      obtain rfl : id = loop := by simpa [NodeStep.leavesFeed] using quiet
      exact tracked.poll_loop.imp fun _ => And.left
    | _ => exact absurd rfl quiet

theorem Tracked.after (tracked : n.Tracked since loop l) (steps : List NodeStep) :
    ∃ l', (n.after steps).Tracked since loop l' := by
  induction steps generalizing n l with
  | nil => exact ⟨l, tracked⟩
  | cons s steps ih =>
    obtain ⟨l', tracked⟩ := tracked.step s
    exact ih tracked

theorem tracked_of_fresh (table : n.table.Arranged)
    (policies : .unstructured ∈ n.overlords ∧ .managed ∈ n.overlords) (driven : n.DrivenBy loop l)
    (running : l.started = true ∧ l.stopping = false) (fresh : l.feed = .fresh)
    (agrees : n.Agrees since []) : n.Tracked since loop l := by
  refine ⟨driven, running.1, running.2, table, policies.1, policies.2, fun _ => ?_⟩
  rw [fresh]
  exact agrees

theorem agrees_self (n : Node) : n.Agrees (some n) [] where
  current _ := Or.inr ⟨n, rfl, rfl, rfl⟩
  pins p hp _ := Or.inr ⟨n, rfl, hp, rfl⟩
  word a up said := by cases said

private theorem tracked_of_books (table : n.table.Reachable)
    (policies : .unstructured ∈ n.overlords ∧ .managed ∈ n.overlords) (driven : n.DrivenBy loop l)
    (running : l.started = true ∧ l.stopping = false) (fresh : l.feed = .fresh) (books : n.BooksFit) :
    n.Tracked none loop l := by
  refine tracked_of_fresh table.arranged policies driven running fresh ⟨fun _ => ?_, fun p hp _ => ?_, ?_⟩
  · exact Or.inl books.current
  · exact Or.inl (books.pins p hp)
  · intro a up said
    cases said

theorem Tracked.upToDate (tracked : n.Tracked since loop l) (quiet : l.feed = .fresh) :
    n.CountedSince since ∧ ∀ p ∈ n.managed.pins, FitsSince since n.table p := by
  have agrees := tracked.agrees (by rw [quiet]; rfl)
  rw [quiet] at agrees
  exact ⟨agrees.current (by simp [EventFeed.fresh]), fun p hp => agrees.pins p hp rfl⟩

private theorem Tracked.booksFit (tracked : n.Tracked none loop l) (quiet : l.feed = .fresh) :
    n.BooksFit := by
  obtain ⟨current, pins⟩ := tracked.upToDate quiet
  refine ⟨current.resolve_right ?_, fun p hp => (pins p hp).resolve_right ?_⟩
  · rintro ⟨s, start, -⟩
    cases start
  · rintro ⟨s, start, -⟩
    cases start

/-- Take a node that one loop drives, whose books fit its table and whose loop has nothing to read.
Whatever happens to it in whatever order, its books fit its table whenever the loop has nothing to
read. -/
theorem books_follow_table (table : n.table.Reachable)
    (policies : .unstructured ∈ n.overlords ∧ .managed ∈ n.overlords) (driven : n.DrivenBy loop l)
    (running : l.started = true ∧ l.stopping = false) (fresh : l.feed = .fresh) (books : n.BooksFit)
    (steps : List NodeStep) :
    ∃ l', (n.after steps).DrivenBy loop l' ∧ (l'.feed = .fresh → (n.after steps).BooksFit) := by
  obtain ⟨l', tracked⟩ := (tracked_of_books table policies driven running fresh books).after steps
  exact ⟨l', tracked.driven, tracked.booksFit⟩

theorem books_fit_after_poll (table : n.table.Reachable)
    (policies : .unstructured ∈ n.overlords ∧ .managed ∈ n.overlords) (driven : n.DrivenBy loop l)
    (running : l.started = true ∧ l.stopping = false) (fresh : l.feed = .fresh) (books : n.BooksFit)
    (steps : List NodeStep) : ((n.after steps).poll loop).BooksFit := by
  obtain ⟨l', tracked⟩ := (tracked_of_books table policies driven running fresh books).after steps
  obtain ⟨l'', tracked, quiet⟩ := tracked.poll_loop
  exact tracked.booksFit quiet

end

def feed? : Task → Option EventFeed
  | .drive l => some l.feed
  | _ => none

/-- A node with one pinned peer, before it has any link. -/
def watchful : Node :=
  { bare (.floor 0) {} .empty with
    overlords := [.leaf, .unstructured, .managed]
    managed := ⟨true, [(.floor 256, .off)], 0⟩
    tasks := [(0, .drive ⟨true, .fresh, 0, false⟩)]
    created := 1 }

def linkingUp : List NodeStep :=
  [.add ⟨7, .floor 256, "structured.managed", []⟩, .add ⟨8, .floor 512, "unstructured", []⟩,
    .read 0, .heartbeat, .read 0]

theorem books_follow_table_watchful :
    watchful.BooksFit ∧ (watchful.after linkingUp).BooksFit ∧
      (watchful.after linkingUp).managed.pins = [(.floor 256, .on)] ∧
      (watchful.after linkingUp).unstructured.current = 1 := by
  have driven : watchful.DrivenBy 0 ⟨true, .fresh, 0, false⟩ := ⟨rfl, by decide⟩
  have start : watchful.BooksFit := by
    refine ⟨rfl, fun p member => ?_⟩
    obtain rfl := List.mem_singleton.mp member
    unfold PinFits
    decide +kernel
  obtain ⟨l, driven, fits⟩ := books_follow_table (n := watchful) ⟨[], rfl⟩ (by decide)
    driven ⟨rfl, rfl⟩ rfl start linkingUp
  have quiet : ((watchful.after linkingUp).task? 0).bind feed? = some .fresh := by decide +kernel
  rw [driven.task?] at quiet
  exact ⟨start, fits (Option.some.inj quiet), by decide +kernel, by decide +kernel⟩

end Node

end RingOverlay

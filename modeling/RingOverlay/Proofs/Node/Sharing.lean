import RingOverlay.Proofs.Node.Attention
import RingOverlay.Proofs.Table.Replay
/-!
Calls of a table that run beside each other. What subscribers are told are the changes of the table, but
not always in their order: a call that has changed the table can be overtaken by another one before it
sends its events. As long as no call changes the link of a type to a position while another one still
has to tell of that link, the events about the link come in the order of its changes, and a node's entry
for the peer is right in the end.
-/

set_option autoImplicit false
set_option relaxedAutoImplicit false

namespace RingOverlay.SharedNode

/-- Whether a step leaves the link of a type to a position alone as long as something about it is to be
sent. -/
def takesTurn (x : SharedNode) (k : MainType) (a : RingAddress) : SharedStep → Bool
  | .node s =>
    match s.call? with
    | some c => !(x.unsent.any (TableEvent.about k a) && (x.node.table.sent c).any (TableEvent.about k a))
    | none => true
  | _ => true

def takesTurns (x : SharedNode) (k : MainType) (a : RingAddress) : List SharedStep → Bool
  | [] => true
  | s :: steps => x.takesTurn k a s && (x.step s).takesTurns k a steps

section

variable {n : Node} {x : SharedNode} {c : TableCall} {call event : Nat} {e : TableEvent}
  {k : MainType} {a : RingAddress} {s : SharedStep} {loop : TaskId} {l : LoopTask}

theorem unsent_begin (x : SharedNode) (c : TableCall) :
    (x.begin c).unsent = x.unsent ++ x.node.table.sent c := by
  simp [unsent, begin]

theorem send_cases (x : SharedNode) (call event : Nat) :
    x.send call event = x ∨ ∃ e before after, x.unsent = before ++ e :: after ∧
      (x.send call event).unsent = before ++ after ∧
      (x.send call event).node = x.node.publish e ∧
      (x.send call event).changes = x.changes ∧
      (x.send call event).sent = x.sent ++ [e] ∧
      (x.send call event).feed = x.feed.push e ∧
      (x.send call event).received = x.received := by
  unfold send
  split
  · rename_i e found
    right
    obtain ⟨es, here, place⟩ := Option.bind_eq_some_iff.mp found
    obtain ⟨within, rfl⟩ := List.getElem?_eq_some_iff.mp place
    obtain ⟨inside, -⟩ := List.getElem?_eq_some_iff.mp here
    -- The events of the other calls stand before and after those of this one.
    obtain ⟨before, ds, after, split, rfl, taken⟩ := List.exists_of_modify (·.eraseIdx event) inside
    obtain rfl : ds = es := by
      rw [split, List.getElem?_append_right (Nat.le_refl _), Nat.sub_self] at here
      exact Option.some.inj here
    refine ⟨ds[event], before.flatten ++ ds.take event, ds.drop (event + 1) ++ after.flatten, ?_, ?_,
      rfl, rfl, rfl, rfl, rfl⟩
    · have whole : ds.take event ++ ds[event] :: ds.drop (event + 1) = ds := by
        rw [List.getElem_cons_drop, List.take_append_drop]
      rw [unsent, split, List.flatten_append, List.flatten_cons]
      nth_rewrite 1 [← whole]
      simp only [List.append_assoc, List.cons_append]
    · rw [unsent, taken, List.eraseIdx_eq_take_drop_succ]
      simp only [List.flatten_append, List.flatten_cons, List.append_assoc]
  · exact Or.inl rfl

/-- The books of a shared node: every change is told or to be told, the changes lead from the table at
first to the table now, and the other subscriber has heard all events since it came, unless some were
lost. -/
structure Accounts (n : Node) (x : SharedNode) : Prop where
  arranged : x.node.table.Arranged
  told : x.changes.Perm (x.sent ++ x.unsent)
  reported : n.table.Reported x.changes x.node.table
  replayed : n.table.links.replay? x.changes = some x.node.table.links
  heard : ∀ got, x.received = got.map .event → x.feed.missed = 0 → got ++ x.feed.unread <:+ x.sent

private theorem Accounts.begin (accounts : x.Accounts n) (c : TableCall) : (x.begin c).Accounts n where
  arranged := accounts.arranged.apply c
  told := by
    rw [unsent_begin, ← List.append_assoc]
    exact accounts.told.append_right _
  reported := accounts.reported.trans (accounts.arranged.reported_sent c)
  replayed := by
    have change := accounts.arranged.replay?_sent c (.refl _)
    rw [SharedNode.begin, LinkSet.replay?_append, accounts.replayed, Option.bind_some]
    exact change
  heard := accounts.heard

private theorem Accounts.send (accounts : x.Accounts n) (call event : Nat) :
    (x.send call event).Accounts n := by
  rcases x.send_cases call event with
    none | ⟨e, before, after, unsent, rest, node, changes, sent, feed, received⟩
  · rw [none]
    exact accounts
  · have table : (x.send call event).node.table = x.node.table := by
      rw [node]
      exact (Node.steady_routine.publish x.node e).table
    refine ⟨table ▸ accounts.arranged, ?_, ?_, ?_, fun got read whole => ?_⟩
    · rw [changes, sent, rest, List.append_assoc]
      refine accounts.told.trans (List.Perm.append_left _ ?_)
      rw [unsent]
      exact List.perm_middle
    · rw [changes, table]
      exact accounts.reported
    · rw [changes, table]
      exact accounts.replayed
    · rw [received] at read
      rw [feed] at whole
      obtain ⟨before, unread⟩ := EventFeed.unread_push whole
      obtain ⟨earlier, heard⟩ := accounts.heard got read before
      refine ⟨earlier, ?_⟩
      rw [feed, unread, sent, ← heard]
      simp only [List.append_assoc]

private theorem Accounts.receive (accounts : x.Accounts n) : x.receive.Accounts n := by
  unfold SharedNode.receive
  split
  · rename_i item feed next
    refine ⟨accounts.arranged, accounts.told, accounts.reported, accounts.replayed, ?_⟩
    intro got read whole
    obtain ⟨earlier, last, rfl, before, one⟩ := List.map_eq_append_iff.mp read.symm
    obtain ⟨e, rfl, rfl⟩ := List.map_eq_singleton_iff.mp one
    obtain ⟨whole, unread⟩ := EventFeed.next?_event next
    have heard := accounts.heard earlier before.symm whole
    rw [unread] at heard
    rw [List.append_assoc]
    exact heard
  · exact accounts

theorem Accounts.step (accounts : x.Accounts n) (s : SharedStep) : (x.step s).Accounts n := by
  cases s with
  | node s =>
    simp only [SharedNode.step]
    cases asked : s.call? with
    | some c => exact accounts.begin c
    | none =>
      have table := Node.table_step asked x.node
      exact ⟨table ▸ accounts.arranged, accounts.told, table ▸ accounts.reported,
        table ▸ accounts.replayed, accounts.heard⟩
  | send call event => exact accounts.send call event
  | subscribe =>
    refine ⟨accounts.arranged, accounts.told, accounts.reported, accounts.replayed, ?_⟩
    intro got read _
    obtain rfl : got = [] := List.map_eq_nil_iff.mp read.symm
    exact List.nil_suffix
  | receive => exact accounts.receive

theorem Accounts.run (accounts : x.Accounts n) (steps : List SharedStep) :
    (x.run steps).Accounts n := by
  induction steps generalizing x with
  | nil => exact accounts
  | cons s steps ih => exact ih (accounts.step s)

theorem accounts_resting (arranged : n.table.Arranged) : (resting n).Accounts n where
  arranged := arranged
  told := .refl _
  reported := .refl _
  replayed := rfl
  heard got read _ := by
    obtain rfl : got = [] := List.map_eq_nil_iff.mp read.symm
    exact List.nil_suffix

/-- At most one event about the link of a type to a position is unsent, and those that were sent are the
changes before it, in order. -/
structure InTurn (k : MainType) (a : RingAddress) (x : SharedNode) : Prop where
  single : (x.unsent.filter (TableEvent.about k a)).length ≤ 1
  order : x.changes.filter (TableEvent.about k a) =
    x.sent.filter (TableEvent.about k a) ++ x.unsent.filter (TableEvent.about k a)

private theorem filter_eq_nil_of_any {es : List TableEvent} {p : TableEvent → Bool}
    (none : es.any p = false) : es.filter p = [] :=
  List.filter_eq_nil_iff.mpr (List.any_eq_false.mp none)

private theorem InTurn.begin (inTurn : x.InTurn k a) (arranged : x.node.table.Arranged)
    (turn : !(x.unsent.any (TableEvent.about k a) &&
      (x.node.table.sent c).any (TableEvent.about k a))) : (x.begin c).InTurn k a := by
  refine ⟨?_, ?_⟩
  · rw [unsent_begin, List.filter_append, List.length_append]
    rw [Bool.not_and, Bool.or_eq_true, Bool.not_eq_true', Bool.not_eq_true'] at turn
    rcases turn with quiet | silent
    · rw [filter_eq_nil_of_any quiet, List.length_nil, Nat.zero_add]
      exact arranged.single_sent c k a
    · rw [filter_eq_nil_of_any silent, List.length_nil, Nat.add_zero]
      exact inTurn.single
  · change (x.changes ++ _).filter _ = x.sent.filter _ ++ _
    rw [unsent_begin, List.filter_append, List.filter_append, inTurn.order, List.append_assoc]

private theorem InTurn.send (inTurn : x.InTurn k a) (call event : Nat) :
    (x.send call event).InTurn k a := by
  obtain none | ⟨e, before, after, unsent, rest, -, changes, sent, -⟩ := x.send_cases call event
  · rw [none]
    exact inTurn
  · obtain ⟨single, order⟩ := inTurn
    rw [unsent] at single order
    have apart := filter_of_single single
    refine ⟨?_, ?_⟩
    · rw [apart, List.length_append] at single
      rw [rest]
      omega
    · rw [changes, sent, rest, order, apart, List.filter_append x.sent, List.append_assoc]

theorem InTurn.step (inTurn : x.InTurn k a) (arranged : x.node.table.Arranged)
    (turn : x.takesTurn k a s = true) : (x.step s).InTurn k a := by
  cases s with
  | node s =>
    simp only [SharedNode.step]
    simp only [takesTurn] at turn
    cases asked : s.call? with
    | some c =>
      rw [asked] at turn
      exact inTurn.begin arranged turn
    | none => exact ⟨inTurn.single, inTurn.order⟩
  | send call event => exact inTurn.send call event
  | subscribe => exact ⟨inTurn.single, inTurn.order⟩
  | receive =>
    simp only [SharedNode.step, receive]
    split
    · exact ⟨inTurn.single, inTurn.order⟩
    · exact inTurn

theorem InTurn.run (inTurn : x.InTurn k a) (accounts : x.Accounts n) {steps : List SharedStep}
    (turns : x.takesTurns k a steps = true) : (x.run steps).InTurn k a := by
  induction steps generalizing x with
  | nil => exact inTurn
  | cons s steps ih =>
    rw [takesTurns, Bool.and_eq_true] at turns
    exact ih (inTurn.step accounts.arranged turns.1) (accounts.step s) turns.2

theorem inTurn_resting (n : Node) : (resting n).InTurn k a := ⟨Nat.zero_le _, rfl⟩

/-- The loop of the node attends to a peer, the last word about which may be unsent. -/
def Attends (a : RingAddress) (loop : TaskId) (x : SharedNode) : Prop :=
  ∃ l, x.node.Attends a (lastWord x.unsent a) loop l

private theorem Attends.begin (attends : x.Attends a loop) (arranged : x.node.table.Arranged)
    (c : TableCall) : (x.begin c).Attends a loop := by
  obtain ⟨l, attends⟩ := attends
  refine ⟨l, ?_⟩
  rw [unsent_begin, lastWord_append]
  exact attends.reported (arranged.reported_sent c)

private theorem Attends.send (attends : x.Attends a loop) (inTurn : x.InTurn .structured a)
    (call event : Nat) : (x.send call event).Attends a loop := by
  obtain none | ⟨e, before, after, unsent, rest, node, -⟩ := x.send_cases call event
  · rw [none]
    exact attends
  · obtain ⟨l, attends⟩ := attends
    -- With one unsent event about the peer at most, sending it leaves nothing more to say.
    have single := inTurn.single
    rw [unsent] at single attends
    rw [lastWord_of_single single] at attends
    rw [Attends, rest, node]
    exact ⟨_, attends.publish⟩

theorem Attends.step (attends : x.Attends a loop) (accounts : x.Accounts n)
    (inTurn : x.InTurn .structured a) (s : SharedStep) : (x.step s).Attends a loop := by
  cases s with
  | node s =>
    simp only [SharedNode.step]
    cases asked : s.call? with
    | some c => exact attends.begin accounts.arranged c
    | none =>
      obtain ⟨l, attends⟩ := attends
      exact attends.step asked
  | send call event => exact attends.send inTurn call event
  | subscribe => exact attends
  | receive =>
    simp only [SharedNode.step, receive]
    split <;> exact attends

theorem Attends.run (attends : x.Attends a loop) (accounts : x.Accounts n)
    (inTurn : x.InTurn .structured a) {steps : List SharedStep}
    (turns : x.takesTurns .structured a steps = true) : (x.run steps).Attends a loop := by
  induction steps generalizing x with
  | nil => exact attends
  | cons s steps ih =>
    rw [takesTurns, Bool.and_eq_true] at turns
    exact ih (attends.step accounts inTurn s) (accounts.step s)
      (inTurn.step accounts.arranged turns.1) turns.2

/-- Take a node that one loop drives, whose loop has nothing to read and whose pinned peers are entered
right. Calls of its table run beside each other, other work of the node goes on, and another subscriber
comes, comes anew and reads, all in any order. Every change of the table is told once, and a subscriber
that loses no event hears of all since it came. Where no call changes the link of a type to a position
while another call has yet to tell of it, what was told of the link are its changes in order; and when
all was told, the last event about a structured link that such a subscriber has read is right, and so is
the entry for the peer once the loop has read all. -/
theorem events_follow_changes (table : n.table.Reachable) (policy : .managed ∈ n.overlords)
    (driven : n.DrivenBy loop l) (running : l.started = true ∧ l.stopping = false)
    (fresh : l.feed = .fresh) (pins : ∀ p ∈ n.managed.pins, PinFits n.table p)
    (steps : List SharedStep) :
    let x := (resting n).run steps
    x.changes.Perm (x.sent ++ x.unsent) ∧
    n.table.links.replay? x.changes = some x.node.table.links ∧
    (∀ got, x.received = got.map .event → x.feed.missed = 0 → got ++ x.feed.unread <:+ x.sent) ∧
    (∀ k a, (resting n).takesTurns k a steps = true →
      x.changes.filter (TableEvent.about k a) =
        x.sent.filter (TableEvent.about k a) ++ x.unsent.filter (TableEvent.about k a)) ∧
    (∀ a, (resting n).takesTurns .structured a steps = true →
      x.unsent.filter (TableEvent.about .structured a) = [] →
      (∀ got, x.received = got.map .event → x.feed = .fresh → ∀ up, lastWord got a = some up →
        x.node.isConnected a = up) ∧
      ∃ l', x.node.DrivenBy loop l' ∧ (l'.feed = .fresh →
        ∀ p ∈ x.node.managed.pins, p.1 = a → PinFits x.node.table p)) := by
  intro x
  have start := accounts_resting table.arranged
  have accounts : x.Accounts n := start.run steps
  have ordered (k : MainType) (a : RingAddress) (turns : (resting n).takesTurns k a steps = true) :
      x.InTurn k a := (inTurn_resting n).run start turns
  refine ⟨accounts.told, accounts.replayed, accounts.heard, fun k a turns => (ordered k a turns).order,
    fun a turns quiet => ⟨?_, ?_⟩⟩
  · intro got read whole up said
    obtain ⟨earlier, heard⟩ := accounts.heard got read (whole ▸ rfl)
    rw [whole, EventFeed.fresh, List.append_nil] at heard
    -- All changes of the link were told in order, so the last one read is the last one made.
    have last : lastWord x.changes a = some up := by
      rw [← lastWord_filter, (ordered _ a turns).order, quiet, List.append_nil, lastWord_filter, ← heard,
        lastWord_append, said, Option.some_or]
    exact accounts.reported.word a up last
  · have unsaid : n.table.Confirms a none := fun _ said => by cases said
    have attends : (resting n).Attends a loop :=
      ⟨l, driven, running.1, running.2, policy, unsaid,
        fun _ => fresh ▸ ⟨fun _ p hp _ => pins p hp, unsaid⟩⟩
    obtain ⟨l', attends⟩ := attends.run start (inTurn_resting n) turns
    refine ⟨l', attends.driven, fun idle => ?_⟩
    have agrees := attends.agrees (idle ▸ rfl)
    rw [idle, ← lastWord_filter, quiet] at agrees
    exact agrees.pins rfl

/-- Two calls run beside each other, one about the pinned peer and one about another one. The later one
tells first. -/
def sideBySide : List SharedStep :=
  [.node (.add ⟨7, .floor 256, "structured.managed", []⟩), .node (.add ⟨8, .floor 512, "structured", []⟩),
    .send 1 0, .receive, .send 0 0, .receive, .node (.poll 0)]

theorem events_follow_changes_side_by_side :
    ((resting .watchful).run sideBySide).node.managed.pins = [(.floor 256, .on)] ∧
    ∀ p ∈ ((resting .watchful).run sideBySide).node.managed.pins, p.1 = .floor 256 →
      PinFits ((resting .watchful).run sideBySide).node.table p := by
  have driven : Node.watchful.DrivenBy 0 ⟨true, .fresh, 0, false⟩ := ⟨rfl, by decide⟩
  have pins : ∀ p ∈ Node.watchful.managed.pins, PinFits Node.watchful.table p := by
    intro p member
    obtain rfl := List.mem_singleton.mp member
    unfold PinFits
    decide +kernel
  obtain ⟨-, -, -, -, settled⟩ := events_follow_changes (n := .watchful) ⟨[], rfl⟩ (by decide) driven
    ⟨rfl, rfl⟩ rfl pins sideBySide
  obtain ⟨-, l, driven, fits⟩ := settled (.floor 256) (by decide +kernel) (by decide +kernel)
  have idle : (((resting .watchful).run sideBySide).node.task? 0).bind Node.feed? = some .fresh := by
    decide +kernel
  rw [driven.task?] at idle
  exact ⟨by decide +kernel, fits (Option.some.inj idle)⟩

/-- A link to the pinned peer comes up and is lost again, and the call that removes it tells first. The
handshake that follows finds no link, and before it is tried again the other call tells. -/
def overtaking : List SharedStep :=
  [.node (.add ⟨7, .floor 256, "structured.managed", []⟩), .node (.removeEdge 7), .send 1 0, .receive,
    .node (.read 0), .node (.poll 1), .node (.hangUp 1), .node (.poll 1), .send 0 0, .receive,
    .node (.read 0), .node (.poll 2), .node (.expire 2), .node (.poll 2)]

/-- All calls have returned and all events are handled, but not in the order of the changes. The pinned
peer is on without a link, the node wants nothing more, and no task but the loop is left. -/
theorem pin_on_after_overtaking :
    (resting .watchful).takesTurns .structured (.floor 256) overtaking = false ∧
    ((resting .watchful).run overtaking).changes =
      [.connected ⟨7, .floor 256, "structured.managed", []⟩,
        .disconnected ⟨7, .floor 256, "structured.managed", []⟩] ∧
    ((resting .watchful).run overtaking).received =
      [.event (.disconnected ⟨7, .floor 256, "structured.managed", []⟩),
        .event (.connected ⟨7, .floor 256, "structured.managed", []⟩)] ∧
    ((resting .watchful).run overtaking).unsent = [] ∧
    ((resting .watchful).run overtaking).feed = .fresh ∧
    (((resting .watchful).run overtaking).node.task? 0).bind Node.feed? = some .fresh ∧
    ((resting .watchful).run overtaking).node.managed = ⟨true, [(.floor 256, .on)], 0⟩ ∧
    ((resting .watchful).run overtaking).node.isConnected (.floor 256) = false ∧
    ((resting .watchful).run overtaking).node.needs .managed = false ∧
    ((resting .watchful).run overtaking).node.tasks.map (·.1) = [0] := by
  decide +kernel

end

end RingOverlay.SharedNode

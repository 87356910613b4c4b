import RingOverlay.Proofs.Table.Reports
import RingOverlay.Table.Subscription
/-!
The events of a table tell its contents. Every call sends what it changes, link by link, so whoever has
heard all events since some moment, and makes the same changes to the contents of that moment, has the
contents of the table. A subscriber that keeps up hears all events.
-/

set_option autoImplicit false
set_option relaxedAutoImplicit false

namespace RingOverlay

namespace LinkSet

/-- The contents after an event, if the event fits them: a link can come up only where its type has
none to the position and none on the edge, and only a link that is there can be lost. -/
def hear? (s : LinkSet) : TableEvent → Option LinkSet
  | .connected c =>
    if ∃ d ∈ s, d.mainType = c.mainType ∧ (d.edge = c.edge ∨ d.address = c.address) then none
    else some (insert c s)
  | .disconnected c => if c ∈ s then some (s.erase c) else none

def replay? (s : LinkSet) (es : List TableEvent) : Option LinkSet := es.foldlM hear? s

section

variable {s u : LinkSet} {c : Connection} {es fs : List TableEvent}

theorem replay?_cons (s : LinkSet) (e : TableEvent) (es : List TableEvent) :
    s.replay? (e :: es) = (s.hear? e).bind (·.replay? es) := rfl

theorem replay?_append (s : LinkSet) (es fs : List TableEvent) :
    s.replay? (es ++ fs) = (s.replay? es).bind (·.replay? fs) := by
  rw [replay?, List.foldlM_append]
  rfl

theorem hear?_connected_of_add (taken : s.add c = .ok u) : s.hear? (.connected c) = some u := by
  rw [add_eq_ok taken, hear?, if_neg]
  rintro ⟨d, member, type, edge | address⟩
  · rw [add, if_pos ⟨d, member, type, edge⟩] at taken
    cases taken
  · unfold add at taken
    split_ifs at taken with used unconnected
    exact unconnected ⟨d, member, type, address⟩

theorem replay?_disconnected {gone : List Connection} (nodup : gone.Nodup)
    (present : ∀ c ∈ gone, c ∈ s) :
    s.replay? (gone.map .disconnected) = some (s \ gone.toFinset) := by
  induction gone generalizing s with
  | nil => simp [replay?]
  | cons c gone ih =>
    obtain ⟨once, nodup⟩ := List.nodup_cons.mp nodup
    have here : c ∈ s := present c List.mem_cons_self
    have later : ∀ d ∈ gone, d ∈ s.erase c := by
      intro d member
      refine Finset.mem_erase.mpr ⟨?_, present d (List.mem_cons_of_mem c member)⟩
      rintro rfl
      exact once member
    rw [List.map_cons, replay?_cons, hear?, if_pos here, Option.bind_some, ih nodup later,
      List.toFinset_cons, Finset.sdiff_insert, Finset.erase_sdiff_comm]

end

end LinkSet

namespace ConnectionTable

variable {t : ConnectionTable}

private theorem exists_links {cs : List Connection} {es : List TableEvent}
    (order : es.Perm (cs.map .disconnected)) :
    ∃ ds : List Connection, ds.Perm cs ∧ es = ds.map .disconnected := by
  refine ⟨es.map TableEvent.link, ?_, ?_⟩
  · have links := order.map TableEvent.link
    rw [List.map_map] at links
    exact links.trans (.of_eq (List.map_id cs))
  · rw [List.map_map, ← List.map_id es, List.map_map]
    refine List.map_congr_left fun e member => ?_
    obtain ⟨c, -, rfl⟩ := List.mem_map.mp (order.subset member)
    rfl

theorem Arranged.mem_detach (arranged : t.Arranged) (e : EdgeId) :
    (t.detach e).1.Nodup ∧ ∀ c, c ∈ (t.detach e).1 ↔ c ∈ t.links ∧ c.edge = e := by
  rw [detach_fst]
  exact arranged.answers.onEdge e

/-- What a call sends leads from the contents before it to those after it; the order in which the
links of an edge are reported is of no consequence. -/
theorem Arranged.replay?_sent (arranged : t.Arranged) (call : TableCall) {es : List TableEvent}
    (order : es.Perm (t.sent call)) : t.links.replay? es = some (t.apply call).links := by
  cases call with
  | add c =>
    have step := arranged.links_add c
    simp only [sent] at order
    cases taken : t.add c with
    | ok u =>
      rw [taken] at order step
      have heard : t.links.hear? (.connected c) = some u.links :=
        LinkSet.hear?_connected_of_add step.symm
      rw [List.perm_singleton.mp order, LinkSet.replay?_cons, heard, Option.bind_some,
        ConnectionTable.apply, taken]
      rfl
    | error reason =>
      rw [taken] at order
      rw [List.perm_nil.mp order, ConnectionTable.apply, taken]
      rfl
  | removeEdge e =>
    obtain ⟨nodup, members⟩ := arranged.mem_detach e
    obtain ⟨gone, rearranged, rfl⟩ := exists_links order
    have present : ∀ c ∈ gone, c ∈ t.links := fun c member =>
      ((members c).mp (rearranged.mem_iff.mp member)).1
    rw [LinkSet.replay?_disconnected (rearranged.nodup_iff.mpr nodup) present]
    congr 1
    change _ = (t.removeEdge e).links
    rw [links_removeEdge, LinkSet.removeEdge]
    ext c
    rw [Finset.mem_sdiff, List.mem_toFinset, rearranged.mem_iff, members, Finset.mem_filter]
    tauto

end ConnectionTable

namespace EventFeed

variable {f : EventFeed}

theorem backlog_push (f : EventFeed) (e : TableEvent) : (f.push e).backlog = f.backlog + 1 := by
  unfold push backlog
  split
  · simp only [List.length_append, List.length_singleton]
    omega
  · rename_i full
    simp only [List.length_append, List.length_drop, List.length_singleton]
    have : 0 < capacity := by decide
    omega

theorem backlog_foldl_push (f : EventFeed) (es : List TableEvent) :
    (es.foldl push f).backlog = f.backlog + es.length := by
  induction es generalizing f with
  | nil => rfl
  | cons e es ih =>
    rw [List.foldl_cons, ih, backlog_push, List.length_cons]
    omega

theorem foldl_push_of_room (whole : f.missed = 0) {es : List TableEvent}
    (room : f.unread.length + es.length ≤ capacity) :
    es.foldl push f = ⟨0, f.unread ++ es⟩ := by
  induction es generalizing f with
  | nil =>
    obtain ⟨missed, unread⟩ := f
    obtain rfl : missed = 0 := whole
    rw [List.foldl_nil, List.append_nil]
  | cons e es ih =>
    rw [List.length_cons] at room
    have free : f.unread.length < capacity := by omega
    have pushed : f.push e = { f with unread := f.unread ++ [e] } := if_pos free
    have later := ih (f := { f with unread := f.unread ++ [e] }) whole
    simp only [List.length_append, List.length_singleton, List.append_assoc,
      List.singleton_append] at later
    rw [List.foldl_cons, pushed]
    exact later (by omega)

end EventFeed

theorem WatchedTable.apply_eq (w : WatchedTable) (call : TableCall) : w.apply call =
    ⟨w.table.apply call, (w.table.sent call).foldl EventFeed.push w.feed⟩ := by
  cases call with
  | add c =>
    simp only [WatchedTable.apply, WatchedTable.add, ConnectionTable.apply, ConnectionTable.sent]
    cases w.table.add c <;> rfl
  | removeEdge e =>
    simp only [WatchedTable.apply, removeEdge, ConnectionTable.apply, ConnectionTable.removeEdge,
      ConnectionTable.sent, List.foldl_map]

namespace Subscription

/-- A subscriber that has lost nothing since certain contents: what it has read and what it has not
read yet leads from them to the contents of the table. -/
structure Informed (s : LinkSet) (x : Subscription) : Prop where
  arranged : x.watched.table.Arranged
  whole : x.watched.feed.missed = 0
  heard : ∃ got, x.received = got.map .event ∧
    s.replay? (got ++ x.watched.feed.unread) = some x.watched.table.links

section

variable {s : LinkSet} {x : Subscription} {t : ConnectionTable}

theorem informed_begin (arranged : t.Arranged) : (begin t).Informed t.links :=
  ⟨arranged, rfl, [], rfl, rfl⟩

theorem Informed.call (informed : x.Informed s) (call : TableCall)
    (room : (x.step (.call call)).watched.feed.backlog ≤ EventFeed.capacity) :
    (x.step (.call call)).Informed s := by
  obtain ⟨got, received, replayed⟩ := informed.heard
  have whole := informed.whole
  simp only [step, WatchedTable.apply_eq] at room ⊢
  rw [EventFeed.backlog_foldl_push, EventFeed.backlog, whole, Nat.zero_add] at room
  have told := EventFeed.foldl_push_of_room whole room
  refine ⟨informed.arranged.apply call, ?_, got, received, ?_⟩
  · rw [told]
  · have changed := informed.arranged.replay?_sent call (.refl _)
    rw [told, ← List.append_assoc, LinkSet.replay?_append, replayed, Option.bind_some]
    exact changed

theorem Informed.read (informed : x.Informed s) : (x.step .read).Informed s := by
  obtain ⟨got, received, replayed⟩ := informed.heard
  have whole := informed.whole
  cases unread : x.watched.feed.unread with
  | nil =>
    have rests : x.step .read = x := by simp [step, EventFeed.next?, whole, unread]
    rw [rests]
    exact informed
  | cons e rest =>
    have moves : x.step .read =
        ⟨{ x.watched with feed := { x.watched.feed with unread := rest } }, x.received ++ [.event e]⟩ := by
      simp [step, EventFeed.next?, whole, unread]
    rw [moves]
    refine ⟨informed.arranged, whole, got ++ [e], ?_, ?_⟩
    · rw [received, List.map_append, List.map_singleton]
    · rw [unread] at replayed
      rw [List.append_assoc]
      exact replayed

theorem Informed.run (informed : x.Informed s) {steps : List WatchStep}
    (kept_up : x.keepsUp steps = true) : (x.run steps).Informed s := by
  induction steps generalizing x with
  | nil => exact informed
  | cons w steps ih =>
    rw [keepsUp, Bool.and_eq_true, decide_eq_true_eq] at kept_up
    obtain ⟨room, kept_up⟩ := kept_up
    refine ih ?_ kept_up
    cases w with
    | call call => exact informed.call call room
    | read => exact informed.read

theorem table_run (x : Subscription) (steps : List WatchStep) :
    (x.run steps).watched.table = (steps.filterMap WatchStep.call?).foldl .apply x.watched.table := by
  induction steps generalizing x with
  | nil => rfl
  | cons w steps ih =>
    have rest := ih (x.step w)
    cases w with
    | call call =>
      have called : (WatchStep.call call).call? = some call := rfl
      have changed : (x.step (.call call)).watched.table = x.watched.table.apply call := by
        simp only [step, WatchedTable.apply_eq]
      rw [List.filterMap_cons_some called, List.foldl_cons, ← changed]
      exact rest
    | read =>
      have uncalled : WatchStep.read.call? = none := rfl
      rw [List.filterMap_cons_none uncalled]
      have same : (x.step .read).watched.table = x.watched.table := by
        simp only [step]
        split <;> rfl
      rw [same] at rest
      exact rest

/-- A subscriber comes after any calls, and further calls and its reads follow in any order, with never
more unread events than a feed holds. Then it loses nothing. The events that it has read, and after
them those that it has not read yet, lead from the contents of the table when it came to those of the
table now; each of them fits the contents just before it. A refused link is not told, a link that is
taken is told once, and so is every link on an edge that is removed. -/
theorem events_replay_table (calls : List TableCall) (steps : List WatchStep)
    (kept_up : (begin (ConnectionTable.after calls)).keepsUp steps = true) :
    let x := (begin (ConnectionTable.after calls)).run steps
    x.watched.table = ConnectionTable.after (calls ++ steps.filterMap WatchStep.call?) ∧
    x.watched.feed.missed = 0 ∧
    (∃ got, x.received = got.map .event ∧
      (ConnectionTable.after calls).links.replay? (got ++ x.watched.feed.unread) =
        some x.watched.table.links) ∧
    (∀ c reason, x.watched.table.add c = .error reason → x.step (.call (.add c)) = x) ∧
    (∀ c u, x.watched.table.add c = .ok u →
      (x.step (.call (.add c))).watched = ⟨u, x.watched.feed.push (.connected c)⟩) ∧
    (∀ e, ∃ gone : List Connection, gone.Nodup ∧
      (∀ c, c ∈ gone ↔ c ∈ x.watched.table.links ∧ c.edge = e) ∧
      x.watched.removeEdge e = (gone, ⟨x.watched.table.removeEdge e,
        (gone.map TableEvent.disconnected).foldl EventFeed.push x.watched.feed⟩) ∧
      ∀ es, es.Perm (gone.map .disconnected) →
        x.watched.table.links.replay? es = some (x.watched.table.removeEdge e).links) := by
  intro x
  have informed : x.Informed (ConnectionTable.after calls).links :=
    (informed_begin (ConnectionTable.arranged_after calls)).run kept_up
  refine ⟨?_, informed.whole, informed.heard, ?_, ?_, ?_⟩
  · rw [ConnectionTable.after, List.foldl_append]
    exact table_run _ steps
  · intro c reason refused
    simp [step, WatchedTable.apply, WatchedTable.add, refused, Except.map]
  · intro c u taken
    simp [step, WatchedTable.apply, WatchedTable.add, taken, Except.map]
  · intro e
    obtain ⟨nodup, members⟩ := informed.arranged.mem_detach e
    refine ⟨(x.watched.table.detach e).1, nodup, members, ?_, ?_⟩
    · rw [WatchedTable.removeEdge, List.foldl_map]
      rfl
    · intro es order
      exact informed.arranged.replay?_sent (.removeEdge e) order

def nearLink : List TableCall := [.add ⟨1, .floor 8, "structured.near", []⟩]

def sharedEdge : List WatchStep :=
  [.call (.add ⟨1, .floor 8, "unstructured", []⟩), .read, .call (.add ⟨1, .floor 6, "structured", []⟩),
    .call (.removeEdge 1), .read, .read, .read]

theorem events_replay_table_sharedEdge :
    (begin (ConnectionTable.after nearLink)).keepsUp sharedEdge = true ∧
    ∃ got, ((begin (ConnectionTable.after nearLink)).run sharedEdge).received = got.map .event ∧
      got.length = 3 ∧ (ConnectionTable.after nearLink).links.replay? got = some ∅ := by
  have kept_up : (begin (ConnectionTable.after nearLink)).keepsUp sharedEdge = true := by
    decide +kernel
  have read : ((begin (ConnectionTable.after nearLink)).run sharedEdge).watched.feed.unread = [] := by
    decide +kernel
  have bare : ((begin (ConnectionTable.after nearLink)).run sharedEdge).watched.table.links = ∅ := by
    decide +kernel
  have length : ((begin (ConnectionTable.after nearLink)).run sharedEdge).received.length = 3 := by
    decide +kernel
  have heard := (events_replay_table nearLink sharedEdge kept_up).2.2.1
  generalize (begin (ConnectionTable.after nearLink)).run sharedEdge = x at *
  obtain ⟨got, received, replayed⟩ := heard
  rw [read, List.append_nil, bare] at replayed
  rw [received, List.length_map] at length
  exact ⟨kept_up, got, received, length, replayed⟩

end

end Subscription

end RingOverlay

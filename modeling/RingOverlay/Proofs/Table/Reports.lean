import RingOverlay.Proofs.Table.Contents
import RingOverlay.Table.Feed
/-!
What table events tell about structured links to a peer and about the number of unstructured links.
Every change of a table is reported: the last word about a peer is what the table says after the
change, and where no word is said nothing has changed.
-/

set_option autoImplicit false
set_option relaxedAutoImplicit false

namespace RingOverlay

def TableEvent.link : TableEvent → Connection
  | .connected c => c
  | .disconnected c => c

def TableEvent.isUp : TableEvent → Bool
  | .connected _ => true
  | .disconnected _ => false

def TableEvent.about (k : MainType) (a : RingAddress) (e : TableEvent) : Bool :=
  decide (e.link.mainType = k ∧ e.link.address = a)

/-- What an event says about the structured link to a peer, if anything. -/
def TableEvent.word (e : TableEvent) (a : RingAddress) : Option Bool :=
  if e.link.mainType = .structured ∧ e.link.address = a then some e.isUp else none

theorem TableEvent.word_eq_some_iff {e : TableEvent} {a : RingAddress} {up : Bool} :
    e.word a = some up ↔ (e.link.mainType = .structured ∧ e.link.address = a) ∧ e.isUp = up := by
  simp [TableEvent.word]

theorem TableEvent.word_eq_none_iff {e : TableEvent} {a : RingAddress} :
    e.word a = none ↔ e.about .structured a = false := by
  simp [TableEvent.word, TableEvent.about]

/-- What the latest of several events says about the structured link to a peer. -/
def lastWord (es : List TableEvent) (a : RingAddress) : Option Bool :=
  (es.filterMap (·.word a)).getLast?

theorem lastWord_eq_none_iff {es : List TableEvent} {a : RingAddress} :
    lastWord es a = none ↔ ∀ e ∈ es, e.word a = none := by
  rw [lastWord, List.getLast?_eq_none_iff, List.filterMap_eq_nil_iff]

theorem lastWord_filter (es : List TableEvent) (a : RingAddress) :
    lastWord (es.filter (TableEvent.about .structured a)) a = lastWord es a := by
  rw [lastWord, List.filterMap_filter, lastWord]
  congr 1
  refine List.filterMap_congr fun e _ => ?_
  split
  · rfl
  · rename_i other
    exact (TableEvent.word_eq_none_iff.mpr (Bool.eq_false_iff.mpr other)).symm

theorem exists_of_lastWord {es : List TableEvent} {a : RingAddress} {up : Bool}
    (h : lastWord es a = some up) : ∃ e ∈ es, e.word a = some up :=
  List.mem_filterMap.mp (List.mem_of_getLast? h)

theorem lastWord_append (es fs : List TableEvent) (a : RingAddress) :
    lastWord (es ++ fs) a = (lastWord fs a).or (lastWord es a) := by
  simp [lastWord, List.getLast?_append]

theorem lastWord_cons (e : TableEvent) (es : List TableEvent) (a : RingAddress) :
    lastWord (e :: es) a = (lastWord es a).or (e.word a) := by
  have single : lastWord [e] a = e.word a := by
    cases said : e.word a <;> simp [lastWord, said]
  rw [← List.singleton_append, lastWord_append, single]

theorem filter_of_single {p : TableEvent → Bool} {before after : List TableEvent} {e : TableEvent}
    (single : ((before ++ e :: after).filter p).length ≤ 1) :
    (before ++ e :: after).filter p = [e].filter p ++ (before ++ after).filter p := by
  cases kind : p e with
  | false => simp [kind]
  | true =>
    simp only [List.filter_append, List.filter_cons_of_pos kind, List.length_append,
      List.length_cons] at single
    have early : before.filter p = [] := List.length_eq_zero_iff.mp (by omega)
    simp [kind, early]

/-- An event is taken out of several, among which no two are about the structured link to a peer. -/
theorem lastWord_of_single {before after : List TableEvent} {e : TableEvent} {a : RingAddress}
    (single : ((before ++ e :: after).filter (TableEvent.about .structured a)).length ≤ 1) :
    lastWord (before ++ e :: after) a = (lastWord (before ++ after) a).or (e.word a) := by
  rw [← lastWord_filter, filter_of_single single, ← List.filter_append, lastWord_filter,
    List.singleton_append, lastWord_cons]

namespace ConnectionTable

structure Reported (t : ConnectionTable) (es : List TableEvent) (u : ConnectionTable) : Prop where
  word : ∀ a up, lastWord es a = some up → u.contains .structured a = up
  silence : ∀ a, lastWord es a = none → u.contains .structured a = t.contains .structured a
  count : (∀ e ∈ es, e.link.mainType ≠ .unstructured) →
    u.count .unstructured = t.count .unstructured

/-- A table is as a word about the structured link to a peer says, if there is a word. -/
def Confirms (t : ConnectionTable) (a : RingAddress) (said : Option Bool) : Prop :=
  ∀ up, said = some up → t.contains .structured a = up

variable {t u : ConnectionTable} {c : Connection} {e : EdgeId}

theorem Confirms.of_or {a : RingAddress} {said late : Option Bool}
    (confirms : t.Confirms a (late.or said)) : t.Confirms a late := by
  rintro up rfl
  exact confirms up rfl

theorem Confirms.reported {a : RingAddress} {said : Option Bool} {es : List TableEvent}
    (confirms : t.Confirms a said) (change : t.Reported es u) :
    u.Confirms a ((lastWord es a).or said) := by
  intro up told
  cases late : lastWord es a with
  | some w =>
    obtain rfl : w = up := by simpa [late] using told
    exact change.word a w late
  | none =>
    rw [change.silence a late]
    exact confirms up (by simpa [late] using told)

theorem Reported.refl (t : ConnectionTable) : t.Reported [] t where
  word a up said := by cases said
  silence _ _ := rfl
  count _ := rfl

theorem Reported.trans {v : ConnectionTable} {es fs : List TableEvent} (first : t.Reported es u)
    (second : u.Reported fs v) : t.Reported (es ++ fs) v where
  word a := by
    have confirms : u.Confirms a (lastWord es a) := first.word a
    rw [lastWord_append]
    exact confirms.reported second
  silence a silent := by
    rw [lastWord_append, Option.or_eq_none_iff] at silent
    rw [second.silence a silent.1, first.silence a silent.2]
  count others := by
    rw [second.count fun e he => others e (List.mem_append_right _ he),
      first.count fun e he => others e (List.mem_append_left _ he)]

private theorem contains_congr (ht : t.Arranged) (hu : u.Arranged) {k : MainType} {a : RingAddress}
    (same : ∀ c, c.mainType = k → c.address = a → (c ∈ u.links ↔ c ∈ t.links)) :
    u.contains k a = t.contains k a := by
  rw [Bool.eq_iff_iff, hu.contains_iff, ht.contains_iff]
  constructor
  · rintro ⟨c, member, type, address⟩
    exact ⟨c, (same c type address).mp member, type, address⟩
  · rintro ⟨c, member, type, address⟩
    exact ⟨c, (same c type address).mpr member, type, address⟩

theorem Arranged.reported_add (arranged : t.Arranged) (taken : t.add c = .ok u) :
    t.Reported [.connected c] u := by
  have after : u.Arranged := arranged.add taken
  have links : u.links = insert c t.links := by
    have step := arranged.links_add c
    rw [taken] at step
    exact LinkSet.add_eq_ok step.symm
  refine ⟨?_, ?_, ?_⟩
  · intro a up said
    obtain ⟨e, member, said⟩ := exists_of_lastWord said
    rw [List.mem_singleton.mp member, TableEvent.word_eq_some_iff] at said
    obtain ⟨⟨type, address⟩, rfl⟩ := said
    exact after.contains_iff.mpr ⟨c, links ▸ Finset.mem_insert_self .., type, address⟩
  · intro a silent
    refine contains_congr arranged after fun d type address => ?_
    have other : d ≠ c := by
      rintro rfl
      have said := lastWord_eq_none_iff.mp silent _ (List.mem_singleton_self _)
      simp [TableEvent.word, TableEvent.link, type, address] at said
    rw [links, Finset.mem_insert, or_iff_right other]
  · intro others
    obtain ⟨-, i, -, rfl⟩ := add_ok taken
    have type : MainType.unstructured ≠ c.mainType := fun same =>
      others _ (List.mem_singleton_self _) same.symm
    rw [count, count, view_setView_of_ne type]

theorem Arranged.reported_detach (arranged : t.Arranged) (e : EdgeId) :
    t.Reported ((t.detach e).1.map .disconnected) (t.detach e).2 := by
  have after : (t.removeEdge e).Arranged := arranged.removeEdge
  have gone (c : Connection) : c ∈ (t.detach e).1 ↔ c ∈ t.links ∧ c.edge = e := by
    rw [detach_fst, mem_onEdge]
  have kept (c : Connection) : c ∈ (t.removeEdge e).links ↔ c ∈ t.links ∧ c.edge ≠ e := by
    rw [links_removeEdge, LinkSet.removeEdge, Finset.mem_filter]
  refine ⟨?_, ?_, ?_⟩
  · intro a up said
    obtain ⟨ev, member, said⟩ := exists_of_lastWord said
    obtain ⟨c, left, rfl⟩ := List.mem_map.mp member
    obtain ⟨⟨type, address⟩, rfl⟩ := TableEvent.word_eq_some_iff.mp said
    rw [TableEvent.isUp, Bool.eq_false_iff]
    -- A link to this peer that stays would be the same as the one that went: there is never a second.
    intro linked
    obtain ⟨d, stays, sameType, sameAddress⟩ := after.contains_iff.mp linked
    have first := arranged.get?_eq_some_iff.mpr ⟨((gone c).mp left).1, type, address⟩
    have second := arranged.get?_eq_some_iff.mpr ⟨((kept d).mp stays).1, sameType, sameAddress⟩
    obtain rfl : c = d := Option.some.inj (first.symm.trans second)
    exact ((kept c).mp stays).2 ((gone c).mp left).2
  · intro a silent
    refine contains_congr arranged after fun d type address => ?_
    refine (kept d).trans (and_iff_left_of_imp fun member onEdge => ?_)
    have said := lastWord_eq_none_iff.mp silent _
      (List.mem_map_of_mem ((gone d).mpr ⟨member, onEdge⟩))
    simp [TableEvent.word, TableEvent.link, type, address] at said
  · intro others
    have all : ∀ c ∈ (t.view .unstructured).connections, (!(c.edge == e)) = true := by
      intro c member
      have type := (arranged .unstructured).typed c member
      have stays : c ∉ (t.detach e).1 := fun left => others _ (List.mem_map_of_mem left) type
      rw [gone, not_and] at stays
      simpa using stays (arranged.mem_view.mp member).1
    have same : ((t.removeEdge e).view .unstructured).connections =
        (t.view .unstructured).connections := by
      rw [view_removeEdge, RingView.detach_snd_connections]
      exact List.filter_eq_self.mpr all
    exact congrArg List.length same

theorem Arranged.reported_sent (arranged : t.Arranged) (call : TableCall) :
    t.Reported (t.sent call) (t.apply call) := by
  cases call with
  | add c =>
    simp only [sent, ConnectionTable.apply]
    cases taken : t.add c with
    | ok u => exact arranged.reported_add taken
    | error reason => exact .refl t
  | removeEdge e => exact arranged.reported_detach e

theorem Arranged.single_sent (arranged : t.Arranged) (call : TableCall) (k : MainType)
    (a : RingAddress) : ((t.sent call).filter (TableEvent.about k a)).length ≤ 1 := by
  cases call with
  | add c =>
    refine (List.length_filter_le ..).trans ?_
    simp only [sent]
    cases t.add c <;> simp
  | removeEdge e =>
    have nodup : (t.detach e).1.Nodup := detach_fst ▸ (arranged.answers.onEdge e).1
    simp only [sent, List.filter_map, List.length_map]
    rw [← List.toFinset_card_of_nodup (nodup.filter _), Finset.card_le_one]
    intro c hc d hd
    have link (c : Connection)
        (member : c ∈ ((t.detach e).1.filter (TableEvent.about k a ∘ TableEvent.disconnected)).toFinset) :
        t.get? k a = some c := by
      rw [List.mem_toFinset, List.mem_filter, detach_fst, mem_onEdge] at member
      exact arranged.get?_eq_some_iff.mpr ⟨member.1.1, of_decide_eq_true member.2⟩
    exact Option.some.inj ((link c hc).symm.trans (link d hd))

end ConnectionTable

theorem EventFeed.foldl_push {f : EventFeed} (es : List TableEvent)
    (whole : (es.foldl push f).missed = 0) :
    f.missed = 0 ∧ (es.foldl push f).unread = f.unread ++ es := by
  induction es generalizing f with
  | nil => exact ⟨whole, (List.append_nil _).symm⟩
  | cons e es ih =>
    obtain ⟨pushed, unread⟩ := ih whole
    by_cases room : f.unread.length < capacity
    · simp only [push, if_pos room] at pushed unread
      exact ⟨pushed, by simpa [push, room] using unread⟩
    · simp [push, room] at pushed

theorem EventFeed.unread_push {f : EventFeed} {e : TableEvent} (whole : (f.push e).missed = 0) :
    f.missed = 0 ∧ (f.push e).unread = f.unread ++ [e] :=
  foldl_push [e] whole

theorem EventFeed.next?_event {f g : EventFeed} {e : TableEvent} (h : f.next? = some (.event e, g)) :
    f.missed = 0 ∧ f.unread = e :: g.unread := by
  unfold next? at h
  split at h
  · cases h
  · rename_i whole
    cases unread : f.unread with
    | nil => simp [unread] at h
    | cons d rest =>
      simp only [unread, Option.some.injEq, Prod.mk.injEq, FeedItem.event.injEq] at h
      obtain ⟨rfl, rfl⟩ := h
      exact ⟨not_not.mp whole, rfl⟩

theorem EventFeed.next?_of_whole {f g : EventFeed} {item : FeedItem} (whole : f.missed = 0)
    (h : f.next? = some (item, g)) : ∃ e, item = .event e ∧ f.unread = e :: g.unread := by
  cases item with
  | event e => exact ⟨e, rfl, (next?_event h).2⟩
  | lagged count =>
    rw [next?, if_neg (not_not.mpr whole)] at h
    split at h <;> cases h

end RingOverlay

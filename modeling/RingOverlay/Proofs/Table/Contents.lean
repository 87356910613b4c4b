import Mathlib.Data.Finset.Card
import Mathlib.Data.List.Nodup
import RingOverlay.Proofs.Table.Arrangement
/-!
What a table holds. Beside the table stands a plain finite set of links that is changed by the same
calls. The main statement is that the table answers every question as a look-up in that set, and
that the set consists of the links that were taken in and whose edge has not been removed since.
-/

set_option autoImplicit false
set_option relaxedAutoImplicit false

namespace RingOverlay

/-- A finite set of links, in no order and not apart by type. -/
abbrev LinkSet := Finset Connection

namespace LinkSet

/-- Takes in a link, unless its type already has a link on the edge or, failing that, to the
position. -/
def add (s : LinkSet) (c : Connection) : Except TableError LinkSet :=
  if ∃ d ∈ s, d.mainType = c.mainType ∧ d.edge = c.edge then
    .error (.edgeInUse c.edge c.mainType)
  else if ∃ d ∈ s, d.mainType = c.mainType ∧ d.address = c.address then
    .error (.alreadyConnected c.address c.mainType)
  else .ok (insert c s)

def removeEdge (s : LinkSet) (e : EdgeId) : LinkSet := s.filter (·.edge ≠ e)

def apply (s : LinkSet) : TableCall → LinkSet
  | .add c =>
    match s.add c with
    | .ok s => s
    | .error _ => s
  | .removeEdge e => s.removeEdge e

/-- The set that calls lead to from the empty one. -/
def after (calls : List TableCall) : LinkSet := calls.foldl apply ∅

theorem add_eq_ok {s u : LinkSet} {c : Connection} (h : s.add c = .ok u) : u = insert c s := by
  unfold add at h
  split_ifs at h
  cases h
  rfl

theorem after_concat (calls : List TableCall) (call : TableCall) :
    after (calls ++ [call]) = (after calls).apply call := by
  simp only [after, List.foldl_append, List.foldl_cons, List.foldl_nil]

end LinkSet

/-- The part of a full type string before the first dot. -/
def Connection.typePrefix (c : Connection) : List Char :=
  c.connectionType.toList.takeWhile (· != '.')

theorem Connection.mainType_eq_iff (c : Connection) (k : MainType) :
    c.mainType = k ↔
      c.typePrefix = k.name.toList ∨ k = .unknown ∧ ∀ j : MainType, c.typePrefix ≠ j.name.toList := by
  have names : ∀ j l : MainType, j.name.toList = l.name.toList → j = l := by
    intro j l
    cases j <;> cases l <;> decide
  have value : c.mainType = if c.typePrefix = MainType.leaf.name.toList then .leaf
      else if c.typePrefix = MainType.structured.name.toList then .structured
      else if c.typePrefix = MainType.unstructured.name.toList then .unstructured
      else .unknown := rfl
  constructor
  · rintro rfl
    rw [value]
    split_ifs with leaf structured unstructured
    · exact Or.inl leaf
    · exact Or.inl structured
    · exact Or.inl unstructured
    · by_cases unknown : c.typePrefix = MainType.unknown.name.toList
      · exact Or.inl unknown
      · refine Or.inr ⟨rfl, fun j => ?_⟩
        cases j <;> assumption
  · rintro (named | ⟨rfl, unnamed⟩)
    · rw [value, named]
      split_ifs with leaf structured unstructured
      · exact (names _ _ leaf).symm
      · exact (names _ _ structured).symm
      · exact (names _ _ unstructured).symm
      · cases k
        · exact absurd rfl leaf
        · exact absurd rfl structured
        · exact absurd rfl unstructured
        · rfl
    · rw [value, if_neg (unnamed _), if_neg (unnamed _), if_neg (unnamed _)]

namespace ConnectionTable

def links (t : ConnectionTable) : LinkSet :=
  (MainType.all.flatMap fun k => (t.view k).connections).toFinset

/-- A table answers every question as a look-up in a set of links, and its searches by halving find
every link of the set. -/
structure Answers (t : ConnectionTable) (s : LinkSet) : Prop where
  view : ∀ k c, c ∈ (t.view k).connections ↔ c ∈ s ∧ c.mainType = k
  search : ∀ c ∈ s, ∃ i, (t.view c.mainType).position c.address = .found i ∧
    (t.view c.mainType).connections[i]? = some c
  get? : ∀ k a c, t.get? k a = some c ↔ c ∈ s ∧ c.mainType = k ∧ c.address = a
  contains : ∀ k a, t.contains k a = true ↔ ∃ c ∈ s, c.mainType = k ∧ c.address = a
  count : ∀ k, t.count k = (s.filter (·.mainType = k)).card
  size : t.size = s.card
  onEdge : ∀ e, (t.onEdge e).Nodup ∧ ∀ c, c ∈ t.onEdge e ↔ c ∈ s ∧ c.edge = e

/-- A link stands after calls if one of them took it in and none since has removed its edge. -/
def Standing (calls : List TableCall) (c : Connection) : Prop :=
  ∃ before since, calls = before ++ .add c :: since ∧ (∃ u, (after before).add c = .ok u) ∧
    .removeEdge c.edge ∉ since

section

variable {t : ConnectionTable} {calls : List TableCall} {c d : Connection} {e : EdgeId} {k : MainType}

private theorem mem_all (k : MainType) : k ∈ MainType.all := by
  cases k <;> decide

theorem mem_links : c ∈ t.links ↔ ∃ k, c ∈ (t.view k).connections := by
  simp only [links, List.mem_toFinset, List.mem_flatMap]
  exact ⟨fun ⟨k, _, hc⟩ => ⟨k, hc⟩, fun ⟨k, hc⟩ => ⟨k, mem_all k, hc⟩⟩

theorem Arranged.mem_view (arranged : t.Arranged) :
    c ∈ (t.view k).connections ↔ c ∈ t.links ∧ c.mainType = k := by
  rw [mem_links]
  constructor
  · intro hc
    exact ⟨⟨k, hc⟩, (arranged k).typed c hc⟩
  · rintro ⟨⟨j, hc⟩, rfl⟩
    rw [(arranged j).typed c hc]
    exact hc

private theorem Arranged.nodup_flatMap (arranged : t.Arranged) :
    (MainType.all.flatMap fun k => (t.view k).connections).Nodup := by
  rw [List.nodup_flatMap]
  refine ⟨fun k _ => (arranged k).nodup, ?_⟩
  have distinct : MainType.all.Pairwise (· ≠ ·) := by decide
  refine distinct.imp ?_
  intro j k different c hj hk
  exact different (((arranged j).typed c hj).symm.trans ((arranged k).typed c hk))

private theorem Arranged.count_eq (arranged : t.Arranged) (k : MainType) :
    t.count k = (t.links.filter (·.mainType = k)).card := by
  have same : t.links.filter (·.mainType = k) = (t.view k).connections.toFinset := by
    ext c
    rw [Finset.mem_filter, List.mem_toFinset, arranged.mem_view]
  rw [same, List.toFinset_card_of_nodup (arranged k).nodup]
  rfl

private theorem Arranged.size_eq (arranged : t.Arranged) : t.size = t.links.card := by
  rw [links, List.toFinset_card_of_nodup arranged.nodup_flatMap, List.length_flatMap]
  rfl

theorem mem_onEdge : c ∈ t.onEdge e ↔ c ∈ t.links ∧ c.edge = e := by
  simp only [onEdge, List.mem_flatMap, RingView.mem_onEdge, mem_links]
  constructor
  · rintro ⟨k, -, hc, same⟩
    exact ⟨⟨k, hc⟩, same⟩
  · rintro ⟨⟨k, hc⟩, same⟩
    exact ⟨k, mem_all k, hc, same⟩

private theorem Arranged.nodup_onEdge (arranged : t.Arranged) (e : EdgeId) : (t.onEdge e).Nodup := by
  have filtered : t.onEdge e =
      (MainType.all.flatMap fun k => (t.view k).connections).filter (·.edge == e) :=
    List.filter_flatMap.symm
  rw [filtered]
  exact arranged.nodup_flatMap.filter _

theorem Arranged.get?_eq_some_iff (arranged : t.Arranged) {a : RingAddress} :
    t.get? k a = some c ↔ c ∈ t.links ∧ c.mainType = k ∧ c.address = a := by
  rw [get?, RingView.find?_eq_some_iff (arranged k).ascending, arranged.mem_view, and_assoc]

theorem Arranged.contains_iff (arranged : t.Arranged) {a : RingAddress} :
    t.contains k a = true ↔ ∃ c ∈ t.links, c.mainType = k ∧ c.address = a := by
  rw [contains, Option.isSome_iff_exists]
  simp only [arranged.get?_eq_some_iff]

theorem Arranged.answers (arranged : t.Arranged) : t.Answers t.links where
  view _ _ := arranged.mem_view
  search c hc := by
    have member := arranged.mem_view.mpr ⟨hc, rfl⟩
    obtain ⟨i, hi⟩ := List.mem_iff_getElem?.mp member
    exact ⟨i, (RingView.position_eq_found_iff (arranged _).ascending).mpr ⟨c, hi, rfl⟩, hi⟩
  get? _ _ _ := arranged.get?_eq_some_iff
  contains _ _ := arranged.contains_iff
  count := arranged.count_eq
  size := arranged.size_eq
  onEdge e := ⟨arranged.nodup_onEdge e, fun _ => mem_onEdge⟩

theorem links_empty : empty.links = ∅ := by
  ext c
  simp [mem_links, view_empty, RingView.empty]

theorem Arranged.hasEdge_iff (arranged : t.Arranged) :
    (t.view k).hasEdge e = true ↔ ∃ d ∈ t.links, d.mainType = k ∧ d.edge = e := by
  simp only [RingView.hasEdge_iff, arranged.mem_view, and_assoc]

theorem links_setView_insert {i : Nat} :
    (t.setView c.mainType ((t.view c.mainType).insert i c)).links = insert c t.links := by
  ext d
  rw [Finset.mem_insert, mem_links, mem_links]
  constructor
  · rintro ⟨k, hd⟩
    by_cases same : k = c.mainType
    · subst same
      rw [view_setView_self, RingView.mem_insert] at hd
      exact hd.imp_right fun hd => ⟨_, hd⟩
    · rw [view_setView_of_ne same] at hd
      exact Or.inr ⟨k, hd⟩
  · rintro (rfl | ⟨k, hd⟩)
    · refine ⟨d.mainType, ?_⟩
      rw [view_setView_self, RingView.mem_insert]
      exact Or.inl rfl
    · refine ⟨k, ?_⟩
      by_cases same : k = c.mainType
      · subst same
        rw [view_setView_self, RingView.mem_insert]
        exact Or.inr hd
      · rw [view_setView_of_ne same]
        exact hd

theorem Arranged.links_add (arranged : t.Arranged) (c : Connection) :
    (t.add c).map links = LinkSet.add t.links c := by
  unfold LinkSet.add
  rcases add_cases t c with ⟨used, refused⟩ | ⟨free, ⟨i, found⟩, refused⟩ | ⟨free, i, place, taken⟩
  · rw [if_pos (arranged.hasEdge_iff.mp used), refused]
    rfl
  · have unused : ¬ ∃ d ∈ t.links, d.mainType = c.mainType ∧ d.edge = c.edge := by
      rw [← arranged.hasEdge_iff, free]
      decide
    obtain ⟨d, hd, same⟩ := RingView.position_found found
    have member := arranged.mem_view.mp (List.mem_of_getElem? hd)
    rw [if_neg unused, if_pos ⟨d, member.1, member.2, same⟩, refused]
    rfl
  · have unused : ¬ ∃ d ∈ t.links, d.mainType = c.mainType ∧ d.edge = c.edge := by
      rw [← arranged.hasEdge_iff, free]
      decide
    have unconnected : ¬ ∃ d ∈ t.links, d.mainType = c.mainType ∧ d.address = c.address := by
      rintro ⟨d, hd, type, same⟩
      exact RingView.ne_of_position_insertAt (arranged _).ascending place
        (arranged.mem_view.mpr ⟨hd, type⟩) same
    rw [if_neg unused, if_neg unconnected, taken]
    exact congrArg Except.ok links_setView_insert

theorem links_removeEdge : (t.removeEdge e).links = LinkSet.removeEdge t.links e := by
  ext c
  rw [LinkSet.removeEdge, Finset.mem_filter, mem_links, mem_links]
  simp only [view_removeEdge, RingView.mem_detach]
  exact exists_and_right

theorem Arranged.links_apply (arranged : t.Arranged) (call : TableCall) :
    (t.apply call).links = LinkSet.apply t.links call := by
  cases call with
  | add c =>
    have step := arranged.links_add c
    simp only [ConnectionTable.apply, LinkSet.apply]
    rw [← step]
    cases t.add c <;> rfl
  | removeEdge e => exact links_removeEdge

theorem links_after (calls : List TableCall) : (after calls).links = LinkSet.after calls := by
  induction calls using List.reverseRecOn with
  | nil => exact links_empty
  | append_singleton calls call ih =>
    rw [after_concat, LinkSet.after_concat, (arranged_after calls).links_apply, ih]

theorem standing_concat {call : TableCall} :
    Standing (calls ++ [call]) c ↔
      Standing calls c ∧ call ≠ .removeEdge c.edge ∨
        call = .add c ∧ ∃ u, (after calls).add c = .ok u := by
  constructor
  · rintro ⟨before, since, split, taken, kept⟩
    rcases List.eq_nil_or_concat since with rfl | ⟨since, last, rfl⟩
    · obtain ⟨rfl, same⟩ := List.append_inj' split rfl
      cases same
      exact Or.inr ⟨rfl, taken⟩
    · rw [List.concat_eq_append] at split kept
      rw [← List.cons_append, ← List.append_assoc] at split
      obtain ⟨rfl, same⟩ := List.append_inj' split rfl
      cases same
      rw [List.mem_append, not_or, List.mem_singleton] at kept
      exact Or.inl ⟨⟨before, since, rfl, taken, kept.1⟩, Ne.symm kept.2⟩
  · rintro (⟨⟨before, since, rfl, taken, kept⟩, other⟩ | ⟨rfl, taken⟩)
    · refine ⟨before, since ++ [call], by simp, taken, ?_⟩
      rw [List.mem_append, not_or, List.mem_singleton]
      exact ⟨kept, Ne.symm other⟩
    · exact ⟨calls, [], rfl, taken, List.not_mem_nil⟩

theorem mem_after_iff_standing (calls : List TableCall) (c : Connection) :
    c ∈ LinkSet.after calls ↔ Standing calls c := by
  induction calls using List.reverseRecOn with
  | nil =>
    refine ⟨fun hc => absurd hc (Finset.notMem_empty c), ?_⟩
    rintro ⟨before, since, split, -⟩
    cases before <;> cases split
  | append_singleton calls call ih =>
    rw [LinkSet.after_concat, standing_concat, ← ih]
    cases call with
    | add d =>
      have step := (arranged_after calls).links_add d
      rw [links_after] at step
      simp only [LinkSet.apply, ← step]
      cases taken : (after calls).add d with
      | ok u =>
        rw [taken] at step
        have grown : u.links = insert d (LinkSet.after calls) := LinkSet.add_eq_ok step.symm
        change c ∈ u.links ↔ _
        rw [grown, Finset.mem_insert]
        constructor
        · rintro (rfl | member)
          · exact Or.inr ⟨rfl, u, taken⟩
          · exact Or.inl ⟨member, by simp⟩
        · rintro (⟨member, -⟩ | ⟨same, -⟩)
          · exact Or.inr member
          · cases same
            exact Or.inl rfl
      | error reason =>
        change c ∈ LinkSet.after calls ↔ _
        refine ⟨fun member => Or.inl ⟨member, by simp⟩, ?_⟩
        rintro (⟨member, -⟩ | ⟨same, u, other⟩)
        · exact member
        · cases same
          rw [taken] at other
          cases other
    | removeEdge e =>
      simp [LinkSet.apply, LinkSet.removeEdge, eq_comm]

/-- After every history of calls a table is arranged by type, position and edge; it answers as the
set of links that the same calls lead to, which are the links that were taken in and whose edge has
not been removed since. It takes and refuses further links as that set does, a refused link changes
nothing, and the removal of an edge tells the links that were found on it. -/
theorem after_refines_linkSet (calls : List TableCall) :
    (after calls).Arranged ∧
    (∀ k, ∀ c ∈ ((after calls).view k).connections,
      c.typePrefix = k.name.toList ∨ k = .unknown ∧ ∀ j : MainType, c.typePrefix ≠ j.name.toList) ∧
    (after calls).Answers (LinkSet.after calls) ∧
    (∀ c, c ∈ LinkSet.after calls ↔ Standing calls c) ∧
    (∀ c, ((after calls).add c).map links = (LinkSet.after calls).add c) ∧
    (∀ c reason, (after calls).add c = .error reason → after (calls ++ [.add c]) = after calls) ∧
    (∀ e, ((after calls).detach e).1 = (after calls).onEdge e ∧
      ((after calls).detach e).2 = after (calls ++ [.removeEdge e])) := by
  have arranged := arranged_after calls
  refine ⟨arranged, ?_, ?_, mem_after_iff_standing calls, ?_, ?_, ?_⟩
  · intro k c hc
    exact (c.mainType_eq_iff k).mp ((arranged k).typed c hc)
  · rw [← links_after]
    exact arranged.answers
  · intro c
    rw [← links_after]
    exact arranged.links_add c
  · intro c reason refused
    rw [after_concat]
    simp only [apply, refused]
  · intro e
    rw [after_concat]
    exact ⟨detach_fst, rfl⟩

end

end ConnectionTable

end RingOverlay

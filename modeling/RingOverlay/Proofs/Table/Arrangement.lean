import Mathlib.Data.List.Induction
import Mathlib.Data.List.Nodup
import RingOverlay.Proofs.Table.Search
import RingOverlay.Table.History
/-!
How a table is arranged. Under every type stand links of that type only, in strictly ascending order
of position, and no two of them share an edge. Both ways of changing a table keep this, so it holds
after every history of calls.
-/

set_option autoImplicit false
set_option relaxedAutoImplicit false

namespace RingOverlay

namespace RingView

structure Arranged (v : RingView) (k : MainType) : Prop where
  ascending : v.Ascending
  edges : (v.connections.map (·.edge)).Nodup
  typed : ∀ c ∈ v.connections, c.mainType = k

section

variable {v : RingView} {k : MainType} {c d : Connection} {e : EdgeId} {i : Nat}

theorem arranged_empty (k : MainType) : empty.Arranged k :=
  ⟨ascending_empty, List.nodup_nil, by simp [empty]⟩

theorem hasEdge_iff : v.hasEdge e = true ↔ ∃ c ∈ v.connections, c.edge = e := by
  simp [hasEdge]

theorem insert_perm : (v.insert i c).connections.Perm (c :: v.connections) := by
  refine List.perm_middle.trans (List.Perm.cons c ?_)
  rw [List.take_append_drop]

theorem mem_insert : d ∈ (v.insert i c).connections ↔ d = c ∨ d ∈ v.connections := by
  rw [insert_perm.mem_iff, List.mem_cons]

theorem Ascending.insert (ascending : v.Ascending) (h : v.position c.address = .insertAt i) :
    (v.insert i c).Ascending := by
  obtain ⟨inside, parted⟩ := position_insertAt ascending h
  have below : ∀ d ∈ v.connections.take i, d.address.value < c.address.value := by
    intro d hd
    obtain ⟨j, hj, rfl⟩ := List.mem_take_iff_getElem.mp hd
    exact (parted j _ (List.getElem?_eq_getElem (by omega))).1 (by omega)
  have beyond : ∀ d ∈ v.connections.drop i, c.address.value < d.address.value := by
    intro d hd
    obtain ⟨j, hj, rfl⟩ := List.mem_drop_iff_getElem.mp hd
    exact (parted (i + j) _ (List.getElem?_eq_getElem (by omega))).2 (by omega)
  unfold Ascending RingView.insert
  rw [List.pairwise_append, List.pairwise_cons]
  refine ⟨ascending.sublist (List.take_sublist _ _),
    ⟨beyond, ascending.sublist (List.drop_sublist _ _)⟩, ?_⟩
  intro x hx y hy
  rcases List.mem_cons.mp hy with rfl | hy
  · exact below x hx
  · exact Nat.lt_trans (below x hx) (beyond y hy)

theorem Arranged.insert (arranged : v.Arranged c.mainType) (free : v.hasEdge c.edge = false)
    (h : v.position c.address = .insertAt i) : (v.insert i c).Arranged c.mainType where
  ascending := arranged.ascending.insert h
  edges := by
    rw [(insert_perm.map _).nodup_iff, List.map_cons, List.nodup_cons]
    refine ⟨?_, arranged.edges⟩
    intro used
    obtain ⟨d, hd, same⟩ := List.mem_map.mp used
    rw [hasEdge_iff.mpr ⟨d, hd, same⟩] at free
    cases free
  typed d hd := by
    rcases mem_insert.mp hd with rfl | hd
    · rfl
    · exact arranged.typed d hd

theorem detach_fst : (v.detach e).1 = v.onEdge e := by
  simp [detach, onEdge, List.partition_eq_filter_filter]

theorem detach_snd_connections :
    (v.detach e).2.connections = v.connections.filter (fun c => !(c.edge == e)) := by
  simp [detach, List.partition_eq_filter_filter, Function.comp_def]

theorem mem_detach : c ∈ (v.detach e).2.connections ↔ c ∈ v.connections ∧ c.edge ≠ e := by
  simp [detach_snd_connections]

theorem Arranged.detach (arranged : v.Arranged k) : ((v.detach e).2).Arranged k := by
  have sub : (v.detach e).2.connections.Sublist v.connections := by
    rw [detach_snd_connections]
    exact List.filter_sublist
  exact ⟨arranged.ascending.sublist sub, arranged.edges.sublist (sub.map _),
    fun c hc => arranged.typed c (sub.subset hc)⟩

theorem mem_onEdge : c ∈ v.onEdge e ↔ c ∈ v.connections ∧ c.edge = e := by
  simp [onEdge]

theorem Arranged.nodup (arranged : v.Arranged k) : v.connections.Nodup :=
  List.Nodup.of_map _ arranged.edges

end

end RingView

namespace ConnectionTable

def Arranged (t : ConnectionTable) : Prop := ∀ k, (t.view k).Arranged k

section

variable {t u : ConnectionTable} {c : Connection} {e : EdgeId} {k j : MainType} {v : RingView}

theorem view_empty : empty.view k = .empty := by
  cases k <;> rfl

theorem view_setView_self : (t.setView k v).view k = v := by
  cases k <;> rfl

theorem view_setView_of_ne (h : j ≠ k) : (t.setView k v).view j = t.view j := by
  cases k <;> cases j <;> first | rfl | exact absurd rfl h

theorem detach_fst : (t.detach e).1 = t.onEdge e := by
  simp [detach, onEdge, MainType.all, RingView.detach_fst, setView, view]

theorem view_removeEdge : (t.removeEdge e).view k = ((t.view k).detach e).2 := by
  cases k <;> rfl

theorem add_cases (t : ConnectionTable) (c : Connection) :
    ((t.view c.mainType).hasEdge c.edge = true ∧ t.add c = .error (.edgeInUse c.edge c.mainType)) ∨
    ((t.view c.mainType).hasEdge c.edge = false ∧
      (∃ i, (t.view c.mainType).position c.address = .found i) ∧
      t.add c = .error (.alreadyConnected c.address c.mainType)) ∨
    ((t.view c.mainType).hasEdge c.edge = false ∧
      ∃ i, (t.view c.mainType).position c.address = .insertAt i ∧
        t.add c = .ok (t.setView c.mainType ((t.view c.mainType).insert i c))) := by
  cases used : (t.view c.mainType).hasEdge c.edge with
  | true => exact Or.inl ⟨rfl, by simp [add, used]⟩
  | false =>
    cases place : (t.view c.mainType).position c.address with
    | found i => exact Or.inr (Or.inl ⟨rfl, ⟨i, rfl⟩, by simp [add, used, place]⟩)
    | insertAt i => exact Or.inr (Or.inr ⟨rfl, i, rfl, by simp [add, used, place]⟩)

/-- A link that is taken stands among those of its type where the search told; all else stays. -/
theorem add_ok (h : t.add c = .ok u) :
    (t.view c.mainType).hasEdge c.edge = false ∧
      ∃ i, (t.view c.mainType).position c.address = .insertAt i ∧
        u = t.setView c.mainType ((t.view c.mainType).insert i c) := by
  rcases add_cases t c with ⟨-, refused⟩ | ⟨-, -, refused⟩ | ⟨free, i, place, taken⟩
  · rw [refused] at h
    cases h
  · rw [refused] at h
    cases h
  · rw [taken] at h
    cases h
    exact ⟨free, i, place, rfl⟩

theorem count_add (h : t.add c = .ok u) (k : MainType) :
    u.count k = t.count k + if c.mainType = k then 1 else 0 := by
  obtain ⟨-, i, -, rfl⟩ := add_ok h
  by_cases type : c.mainType = k
  · subst type
    rw [count, view_setView_self, if_pos rfl]
    simp [count, RingView.insert, RingView.size]
    omega
  · rw [count, view_setView_of_ne (Ne.symm type), if_neg type]
    rfl

theorem count_removeEdge_le (t : ConnectionTable) (e : EdgeId) (k : MainType) :
    (t.removeEdge e).count k ≤ t.count k := by
  rw [count, view_removeEdge, RingView.size, RingView.detach_snd_connections]
  exact List.length_filter_le ..

theorem arranged_empty : empty.Arranged := by
  intro k
  rw [view_empty]
  exact RingView.arranged_empty k

theorem Arranged.add (arranged : t.Arranged) (h : t.add c = .ok u) : u.Arranged := by
  obtain ⟨free, i, place, rfl⟩ := add_ok h
  intro k
  by_cases same : k = c.mainType
  · subst same
    rw [view_setView_self]
    exact (arranged _).insert free place
  · rw [view_setView_of_ne same]
    exact arranged k

theorem Arranged.removeEdge (arranged : t.Arranged) : (t.removeEdge e).Arranged := by
  intro k
  rw [view_removeEdge]
  exact (arranged k).detach

theorem Arranged.apply (arranged : t.Arranged) (call : TableCall) : (t.apply call).Arranged := by
  cases call with
  | add c =>
    simp only [ConnectionTable.apply]
    split
    case h_1 u h => exact arranged.add h
    case h_2 => exact arranged
  | removeEdge e => exact arranged.removeEdge

theorem after_concat (calls : List TableCall) (call : TableCall) :
    after (calls ++ [call]) = (after calls).apply call := by
  simp only [after, List.foldl_append, List.foldl_cons, List.foldl_nil]

theorem arranged_after (calls : List TableCall) : (after calls).Arranged := by
  induction calls using List.reverseRecOn with
  | nil => exact arranged_empty
  | append_singleton calls call ih =>
    rw [after_concat]
    exact ih.apply call

theorem Reachable.arranged (h : t.Reachable) : t.Arranged := by
  obtain ⟨calls, rfl⟩ := h
  exact arranged_after calls

end

end ConnectionTable

end RingOverlay

import Mathlib.Data.List.Nodup
import RingOverlay.Link.Setup
/-!
The map of link attempts: what `put` and `erase` leave of it, and all that admitting a request or
finishing a worker can do.
-/

set_option autoImplicit false
set_option relaxedAutoImplicit false

namespace RingOverlay

theorem lookup_filter_ne {α β : Type} [DecidableEq α] (entries : List (α × β)) (k j : α) :
    (entries.filter (·.1 != k)).lookup j = if j = k then none else entries.lookup j := by
  induction entries with
  | nil => simp
  | cons entry entries ih =>
    obtain ⟨l, x⟩ := entry
    by_cases gone : l = k
    · rw [List.filter_cons_of_neg (by simp [gone]), ih]
      by_cases here : j = k
      · rw [if_pos here, if_pos here]
      · have apart : (j == l) = false := beq_false_of_ne (gone ▸ here)
        rw [if_neg here, if_neg here, List.lookup_cons, apart]
    · rw [List.filter_cons_of_pos (by simpa using gone), List.lookup_cons, List.lookup_cons]
      by_cases here : j = l
      · simp [here, gone]
      · have apart : (j == l) = false := beq_false_of_ne here
        rw [apart]
        exact ih

namespace LinkAttempts

section

variable {a : LinkAttempts} {j k : AttemptKey} {q : List LinkRequest}
  {entry : AttemptKey × List LinkRequest}

theorem mem_erase : entry ∈ (a.erase k).running ↔ entry ∈ a.running ∧ entry.1 ≠ k := by
  simp [erase]

theorem mem_put :
    entry ∈ (a.put k q).running ↔ entry = (k, q) ∨ entry ∈ a.running ∧ entry.1 ≠ k := by
  rw [put, List.mem_cons, mem_erase]

theorem queue?_erase_self : (a.erase k).queue? k = none := by
  rw [queue?, erase, lookup_filter_ne, if_pos rfl]

theorem queue?_erase_of_ne (h : j ≠ k) : (a.erase k).queue? j = a.queue? j := by
  rw [queue?, erase, lookup_filter_ne, if_neg h, queue?]

theorem queue?_put_self : (a.put k q).queue? k = some q := by
  simp [queue?, put]

theorem queue?_put_of_ne (h : j ≠ k) : (a.put k q).queue? j = a.queue? j := by
  have other : (j == k) = false := by simpa using h
  rw [← queue?_erase_of_ne (a := a) h]
  simp only [queue?, put, List.lookup_cons, other]

theorem mem_of_queue? (h : a.queue? k = some q) : (k, q) ∈ a.running := by
  obtain ⟨before, after, split, -⟩ := List.lookup_eq_some_iff.mp h
  rw [split]
  exact List.mem_append_right _ (List.mem_cons_self ..)

theorem queue?_ne_none_of_mem (h : entry ∈ a.running) : a.queue? entry.1 ≠ none := by
  intro none_there
  have := List.lookup_eq_none_iff.mp none_there entry h
  simp at this

theorem nodup_erase (h : (a.running.map (·.1)).Nodup) : ((a.erase k).running.map (·.1)).Nodup :=
  h.sublist (List.filter_sublist.map _)

theorem nodup_put (h : (a.running.map (·.1)).Nodup) : ((a.put k q).running.map (·.1)).Nodup := by
  rw [put, List.map_cons, List.nodup_cons]
  refine ⟨?_, nodup_erase h⟩
  intro member
  obtain ⟨entry, there, same⟩ := List.mem_map.mp member
  exact (mem_erase.mp there).2 same

end

theorem submit_cases (a : LinkAttempts) (here : RingAddress) (table : ConnectionTable)
    (r : LinkRequest) :
    (r.key? = none ∧ a.submit here table r = (.started, a, some ⟨none, r⟩)) ∨
    ∃ k, r.key? = some k ∧
      ((k.target = here ∧ a.submit here table r = (.rejected .connectToSelf, a, none)) ∨
      (k.target ≠ here ∧ table.hasKey k = true ∧
        a.submit here table r = (.alreadyConnected, a, none)) ∨
      (k.target ≠ here ∧ table.hasKey k = false ∧ ∃ q, a.queue? k = some q ∧
        a.submit here table r = (.queued (q.length + 1), a.put k (q ++ [r]), none)) ∨
      (k.target ≠ here ∧ table.hasKey k = false ∧ a.queue? k = none ∧
        a.submit here table r = (.started, a.put k [], some ⟨some k, r⟩))) := by
  cases target : r.target with
  | none => exact Or.inl ⟨by simp [LinkRequest.key?, target], by simp [submit, target]⟩
  | some peer =>
    refine Or.inr ⟨⟨peer, r.mainType⟩, by simp [LinkRequest.key?, target], ?_⟩
    by_cases own : peer = here
    · exact Or.inl ⟨own, by simp [submit, target, own]⟩
    · refine Or.inr ?_
      cases up : table.hasKey ⟨peer, r.mainType⟩ with
      | true => exact Or.inl ⟨own, rfl, by simp [submit, submitKeyed, target, own, up]⟩
      | false =>
        refine Or.inr ?_
        cases queue : a.queue? ⟨peer, r.mainType⟩ with
        | some q =>
          exact Or.inl ⟨own, rfl, q, rfl, by simp [submit, submitKeyed, target, own, up, queue]⟩
        | none => exact Or.inr ⟨own, rfl, rfl, by simp [submit, submitKeyed, target, own, up, queue]⟩

theorem finish_cases (a : LinkAttempts) (table : ConnectionTable) (k : AttemptKey) :
    (a.queue? k = none ∧ a.finish table k = (a, none)) ∨
    ∃ q, a.queue? k = some q ∧
      ((table.hasKey k = true ∧ a.finish table k = (a.erase k, none)) ∨
      (table.hasKey k = false ∧ q = [] ∧ a.finish table k = (a.erase k, none)) ∨
      (table.hasKey k = false ∧ ∃ r rest, q = r :: rest ∧
        a.finish table k = (a.put k rest, some ⟨some k, r⟩))) := by
  cases queue : a.queue? k with
  | none => exact Or.inl ⟨rfl, by simp [finish, queue]⟩
  | some q =>
    refine Or.inr ⟨q, rfl, ?_⟩
    cases up : table.hasKey k with
    | true => exact Or.inl ⟨rfl, by simp [finish, queue, up]⟩
    | false =>
      refine Or.inr ?_
      cases q with
      | nil => exact Or.inl ⟨rfl, rfl, by simp [finish, queue, up]⟩
      | cons r rest => exact Or.inr ⟨rfl, r, rest, rfl, by simp [finish, queue, up]⟩

end LinkAttempts

end RingOverlay

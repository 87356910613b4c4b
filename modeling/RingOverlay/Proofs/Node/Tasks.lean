import RingOverlay.Node.Basic
import RingOverlay.Proofs.Link.Attempts
/-!
Looking up a task by its number, after the tasks have changed.
-/

set_option autoImplicit false
set_option relaxedAutoImplicit false

namespace RingOverlay.Node

variable {n : Node} {id i : TaskId} {t u : Task}

theorem mem_of_task? (found : n.task? id = some t) : (id, t) ∈ n.tasks := by
  obtain ⟨before, after, split, -⟩ := List.lookup_eq_some_iff.mp found
  rw [split]
  exact List.mem_append_right _ List.mem_cons_self

theorem task?_of_setTask (n : Node) (i : TaskId) (t : Task) (id : TaskId) :
    (n.setTask i t).task? id = if id = i then (n.task? id).map fun _ => t else n.task? id := by
  rw [task?, task?, setTask]
  induction n.tasks with
  | nil => simp
  | cons u us ih =>
    obtain ⟨j, u⟩ := u
    by_cases here : id = j
    · subst here
      by_cases own : id = i <;> simp [own]
    · have apart : (id == j) = false := beq_false_of_ne here
      by_cases own : j = i
      · simp only [List.map_cons, if_pos own, List.lookup_cons, apart]
        exact ih
      · simp only [List.map_cons, if_neg own, List.lookup_cons, apart]
        exact ih

theorem task?_of_endTask (n : Node) (i id : TaskId) :
    (n.endTask i).task? id = if id = i then none else n.task? id := by
  rw [task?, endTask, lookup_filter_ne, task?]

theorem task?_of_wake (n : Node) (i id : TaskId) : (n.wake i).task? id = n.task? id := by
  unfold wake
  split <;> rfl

theorem task?_of_spawnResting (old : id < n.created) (t : Task) :
    (n.spawnResting t).task? id = n.task? id := by
  have apart : (id == n.created) = false := beq_false_of_ne (Nat.ne_of_lt old)
  simp [task?, spawnResting, List.lookup_append, List.lookup_cons, apart]

end RingOverlay.Node

import RingOverlay.Node.Events
import RingOverlay.Proofs.Node.Tasks
/-!
The one loop of a node among its tasks. No other task has the loop's number, so whatever happens to
the other tasks leaves it alone, and a table event goes to its feed exactly once.
-/

set_option autoImplicit false
set_option relaxedAutoImplicit false

namespace RingOverlay.Node

/-- Of all tasks of a node exactly one is a loop or has a given number, and it is this loop. -/
structure DrivenBy (n : Node) (loop : TaskId) (l : LoopTask) : Prop where
  only : n.tasks.filter (fun t => t.1 == loop || isLoop t.2) = [(loop, .drive l)]
  numbered : loop < n.created

section

variable {n : Node} {loop id : TaskId} {l : LoopTask} {t : Task}

theorem driven_run (idle : n.tasks = []) : n.run.DrivenBy n.created ⟨false, .fresh, 0, false⟩ where
  only := by simp [Node.run, Node.spawn, idle]
  numbered := Nat.lt_succ_self _

theorem DrivenBy.task? (driven : n.DrivenBy loop l) : n.task? loop = some (.drive l) := by
  obtain ⟨before, after, split, apart, -⟩ := List.filter_eq_cons_iff.mp driven.only
  refine List.lookup_eq_some_iff.mpr ⟨before, after, split, ?_⟩
  intro p hp
  have other := apart p hp
  simp only [Bool.or_eq_true, not_or, beq_iff_eq] at other
  simpa [bne_iff_ne] using Ne.symm other.1

theorem DrivenBy.ne_of_task? (driven : n.DrivenBy loop l) (found : n.task? id = some t)
    (plain : isLoop t = false) : id ≠ loop := by
  rintro rfl
  rw [driven.task?] at found
  cases found
  cases plain

theorem DrivenBy.eq_of_task? {l' : LoopTask} (driven : n.DrivenBy loop l)
    (found : n.task? id = some (.drive l')) : id = loop ∧ l' = l := by
  have member : (id, Task.drive l') ∈ n.tasks.filter (fun t => t.1 == loop || isLoop t.2) := by
    refine List.mem_filter.mpr ⟨mem_of_task? found, ?_⟩
    simp [isLoop]
  rw [driven.only, List.mem_singleton] at member
  cases member
  exact ⟨rfl, rfl⟩

theorem DrivenBy.unique {l' : LoopTask} (driven : n.DrivenBy loop l) (same : n.DrivenBy loop l') :
    l = l' :=
  (same.eq_of_task? driven.task?).2

theorem DrivenBy.spawnResting (driven : n.DrivenBy loop l) (plain : isLoop t = false) :
    (n.spawnResting t).DrivenBy loop l where
  only := by
    have fresh : (n.created == loop) = false :=
      beq_eq_false_iff_ne.mpr (Nat.ne_of_gt driven.numbered)
    simp [Node.spawnResting, List.filter_append, driven.only, fresh, plain]
  numbered := Nat.lt_succ_of_lt driven.numbered

theorem DrivenBy.spawn (driven : n.DrivenBy loop l) (plain : isLoop t = false) :
    (n.spawn t).DrivenBy loop l :=
  ⟨(driven.spawnResting plain).only, (driven.spawnResting plain).numbered⟩

private theorem DrivenBy.plain_of_ne (driven : n.DrivenBy loop l) {u : TaskId × Task}
    (member : u ∈ n.tasks) (other : u.1 ≠ loop) : isLoop u.2 = false := by
  cases kind : isLoop u.2 with
  | false => rfl
  | true =>
    have found : u ∈ n.tasks.filter (fun t => t.1 == loop || isLoop t.2) := by
      simp [List.mem_filter, member, kind]
    rw [driven.only, List.mem_singleton] at found
    exact absurd (congrArg Prod.fst found) other

private theorem filter_setTask
    (same : ∀ u ∈ n.tasks, u.1 = id → (id == loop || isLoop t) = (u.1 == loop || isLoop u.2)) :
    (n.setTask id t).tasks.filter (fun t => t.1 == loop || isLoop t.2) =
      (n.tasks.filter fun t => t.1 == loop || isLoop t.2).map
        fun u => if u.1 = id then (u.1, t) else u := by
  rw [Node.setTask, List.filter_map]
  congr 1
  refine List.filter_congr fun u hu => ?_
  by_cases here : u.1 = id
  · simpa [here] using same u hu here
  · simp [here]

theorem DrivenBy.setTask (driven : n.DrivenBy loop l) (other : id ≠ loop) (plain : isLoop t = false) :
    (n.setTask id t).DrivenBy loop l where
  only := by
    rw [filter_setTask, driven.only]
    · simp [Ne.symm other]
    · rintro u member rfl
      rw [plain, driven.plain_of_ne member other]
  numbered := driven.numbered

theorem DrivenBy.endTask (driven : n.DrivenBy loop l) (other : id ≠ loop) :
    (n.endTask id).DrivenBy loop l where
  only := by
    have swapped : (n.endTask id).tasks.filter (fun t => t.1 == loop || isLoop t.2) =
        (n.tasks.filter fun t => t.1 == loop || isLoop t.2).filter (·.1 != id) := by
      simp only [Node.endTask, List.filter_filter, Bool.and_comm]
    rw [swapped, driven.only]
    simp [Ne.symm other]
  numbered := driven.numbered

theorem DrivenBy.setLoop (driven : n.DrivenBy loop l) (l' : LoopTask) :
    (n.setTask loop (.drive l')).DrivenBy loop l' where
  only := by
    rw [filter_setTask, driven.only]
    · simp
    · rintro u - rfl
      simp
  numbered := driven.numbered

theorem DrivenBy.wake (driven : n.DrivenBy loop l) (id : TaskId) : (n.wake id).DrivenBy loop l := by
  unfold Node.wake
  split
  · exact driven
  · exact ⟨driven.only, driven.numbered⟩

theorem DrivenBy.foldl_loops {f : Node → TaskId × Task → Node} (driven : n.DrivenBy loop l)
    (other : ∀ m u, isLoop u.2 = false → f m u = m) : n.tasks.foldl f n = f n (loop, .drive l) := by
  have loops : n.tasks.filter (isLoop ·.2) = [(loop, .drive l)] := by
    have among : ∀ u ∈ n.tasks,
        isLoop u.2 = (isLoop u.2 && (u.1 == loop || isLoop u.2)) := by
      intro u _
      cases isLoop u.2 <;> simp
    rw [List.filter_congr among, ← List.filter_filter, driven.only]
    rfl
  have plain (m : Node) (u : TaskId × Task) : f m u = if isLoop u.2 then f m u else m := by
    split
    · rfl
    · rename_i kind
      exact other m u (Bool.not_eq_true _ ▸ kind)
  calc n.tasks.foldl f n
      = (n.tasks.filter (isLoop ·.2)).foldl f n := by
        rw [List.foldl_filter]
        congr 1
        funext m u
        exact plain m u
    _ = f n (loop, .drive l) := by
        rw [loops]
        rfl

theorem DrivenBy.publish_eq (driven : n.DrivenBy loop l) (started : l.started = true) (e : TableEvent) :
    n.publish e = n.resume loop (.drive { l with feed := l.feed.push e }) := by
  rw [publish, driven.foldl_loops fun m u kind => ?_]
  · exact if_pos started
  · obtain ⟨id, t⟩ := u
    cases t with
    | drive => cases kind
    | handshake | link | retry | query => rfl

theorem DrivenBy.shutdown_eq (driven : n.DrivenBy loop l) :
    n.shutdown.2 = n.resume loop (.drive { l with stopping := true }) := by
  rw [shutdown, driven.foldl_loops fun m u kind => ?_]
  obtain ⟨id, t⟩ := u
  cases t with
  | drive => cases kind
  | handshake | link | retry | query => rfl

theorem DrivenBy.publish (driven : n.DrivenBy loop l) (started : l.started = true) (e : TableEvent) :
    (n.publish e).DrivenBy loop { l with feed := l.feed.push e } := by
  rw [driven.publish_eq started]
  exact (driven.setLoop _).wake loop

theorem DrivenBy.poll_eq (driven : n.DrivenBy loop l) (started : l.started = true) :
    n.poll loop = n.pollRunning loop l := by
  simp only [poll, driven.task?]
  exact if_pos started

theorem DrivenBy.publish_all (driven : n.DrivenBy loop l) (started : l.started = true)
    (es : List TableEvent) :
    (es.foldl Node.publish n).DrivenBy loop { l with feed := es.foldl EventFeed.push l.feed } ∧
      (es.foldl Node.publish n).table = n.table ∧
      (es.foldl Node.publish n).overlords = n.overlords ∧
      (es.foldl Node.publish n).unstructured = n.unstructured ∧
      (es.foldl Node.publish n).managed = n.managed := by
  induction es generalizing n l with
  | nil => exact ⟨driven, rfl, rfl, rfl, rfl⟩
  | cons e es ih =>
    obtain ⟨drives, table, overlords, unstructured, managed⟩ := ih (driven.publish started e) started
    have same : (n.publish e).table = n.table ∧ (n.publish e).overlords = n.overlords ∧
        (n.publish e).unstructured = n.unstructured ∧ (n.publish e).managed = n.managed := by
      rw [driven.publish_eq started]
      unfold Node.resume Node.wake
      split <;> exact ⟨rfl, rfl, rfl, rfl⟩
    exact ⟨drives, table.trans same.1, overlords.trans same.2.1, unstructured.trans same.2.2.1,
      managed.trans same.2.2.2⟩

end

end RingOverlay.Node

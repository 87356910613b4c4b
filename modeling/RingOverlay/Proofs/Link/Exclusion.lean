import Mathlib.Data.List.Perm.Basic
import RingOverlay.Proofs.Link.Moves
import RingOverlay.Proofs.Table.Contents
/-!
One worker at a time. At every point of every run the workers under way are exactly one for each key
in the map of attempts; what waits for a key belongs to it, nothing leads to the node itself, and a
worker is started only while the table has no link for its key.
-/

set_option autoImplicit false
set_option relaxedAutoImplicit false

namespace RingOverlay

theorem LinkRequest.key?_eq_some_iff {r : LinkRequest} {k : AttemptKey} :
    r.key? = some k ↔ r.target = some k.target ∧ r.mainType = k.type := by
  rw [LinkRequest.key?, Option.map_eq_some_iff]
  constructor
  · rintro ⟨target, same, rfl⟩
    exact ⟨same, rfl⟩
  · rintro ⟨same, type⟩
    exact ⟨k.target, same, by rw [type]⟩

/-- A table has a link of the key's type to its target. -/
def ConnectionTable.Holds (t : ConnectionTable) (k : AttemptKey) : Prop :=
  ∃ c ∈ t.links, c.mainType = k.type ∧ c.address = k.target

instance (t : ConnectionTable) (k : AttemptKey) : Decidable (t.Holds k) :=
  inferInstanceAs (Decidable (∃ c ∈ t.links, c.mainType = k.type ∧ c.address = k.target))

theorem ConnectionTable.Arranged.hasKey_iff {t : ConnectionTable} (arranged : t.Arranged)
    (k : AttemptKey) : t.hasKey k = true ↔ t.Holds k :=
  arranged.contains_iff

namespace LinkSetup

/-- What every setup keeps: its table is arranged, and its attempts are a map with one worker for
each key, none of them for the node itself, and only requests of that key waiting behind it. -/
structure Consistent (s : LinkSetup) : Prop where
  table : s.table.Arranged
  keys : (s.attempts.running.map (·.1)).Nodup
  busy : ∀ k, s.busy k = if s.attempts.isActive k then 1 else 0
  queued : ∀ entry ∈ s.attempts.running, ∀ r ∈ entry.2, r.key? = some entry.1
  away : ∀ entry ∈ s.attempts.running, entry.1.target ≠ s.here
  handed : ∀ w ∈ s.workers, ∀ k, w.key = some k → w.request.key? = some k

section

variable {s : LinkSetup} {w : LinkWork} {j k : AttemptKey} {q : List LinkRequest} {i : Nat}

theorem consistent_fresh (here : RingAddress) : (fresh here).Consistent where
  table := ConnectionTable.arranged_empty
  keys := List.nodup_nil
  busy _ := rfl
  queued := by simp [fresh, LinkAttempts.empty]
  away := by simp [fresh, LinkAttempts.empty]
  handed := by simp [fresh]

private theorem countP_eraseIdx_add {p : LinkWork → Bool} {ws : List LinkWork}
    (h : ws[i]? = some w) : (ws.eraseIdx i).countP p + (if p w then 1 else 0) = ws.countP p := by
  obtain ⟨inside, rfl⟩ := List.getElem?_eq_some_iff.mp h
  rw [← (List.getElem_cons_eraseIdx_perm inside).countP_eq, List.countP_cons]

theorem busy_eraseIdx (h : s.workers[i]? = some w) (j : AttemptKey) :
    (s.workers.eraseIdx i).countP (·.key = some j) + (if w.key = some j then 1 else 0) = s.busy j := by
  unfold busy
  simpa using countP_eraseIdx_add (p := (·.key = some j)) h

private theorem Consistent.busy_of_queue? (consistent : s.Consistent)
    (h : s.attempts.queue? k = some q) : s.busy k = 1 := by
  rw [consistent.busy, LinkAttempts.isActive, h]
  rfl

private theorem Consistent.busy_of_none (consistent : s.Consistent)
    (h : s.attempts.queue? k = none) : s.busy k = 0 := by
  rw [consistent.busy, LinkAttempts.isActive, h]
  rfl

theorem Consistent.busy_le_one (consistent : s.Consistent) (k : AttemptKey) : s.busy k ≤ 1 := by
  rw [consistent.busy k]
  split
  · exact Nat.le_refl 1
  · exact Nat.zero_le 1

private theorem Consistent.withWorkers (consistent : s.Consistent) {ws : List LinkWork}
    (busy : ∀ j, ws.countP (·.key = some j) = s.busy j)
    (handed : ∀ w ∈ ws, ∀ j, w.key = some j → w.request.key? = some j) :
    ({ s with workers := ws } : LinkSetup).Consistent where
  table := consistent.table
  keys := consistent.keys
  busy j := (busy j).trans (consistent.busy j)
  queued := consistent.queued
  away := consistent.away
  handed := handed

private theorem Consistent.put (consistent : s.Consistent) {ws : List LinkWork}
    (away : k.target ≠ s.here) (keyed : ∀ r ∈ q, r.key? = some k)
    (busy : ∀ j, ws.countP (·.key = some j) = if j = k then 1 else s.busy j)
    (handed : ∀ w ∈ ws, ∀ j, w.key = some j → w.request.key? = some j) :
    ({ s with attempts := s.attempts.put k q, workers := ws } : LinkSetup).Consistent where
  table := consistent.table
  keys := LinkAttempts.nodup_put consistent.keys
  busy j := by
    refine (busy j).trans ?_
    unfold LinkAttempts.isActive
    by_cases same : j = k
    · rw [same, LinkAttempts.queue?_put_self, if_pos rfl]
      rfl
    · rw [LinkAttempts.queue?_put_of_ne same, if_neg same, consistent.busy j]
      rfl
  queued entry member := by
    rcases LinkAttempts.mem_put.mp member with rfl | ⟨member, -⟩
    · exact keyed
    · exact consistent.queued entry member
  away entry member := by
    rcases LinkAttempts.mem_put.mp member with rfl | ⟨member, -⟩
    · exact away
    · exact consistent.away entry member
  handed := handed

private theorem Consistent.erase (consistent : s.Consistent) {ws : List LinkWork}
    (busy : ∀ j, ws.countP (·.key = some j) = if j = k then 0 else s.busy j)
    (handed : ∀ w ∈ ws, ∀ j, w.key = some j → w.request.key? = some j) :
    ({ s with attempts := s.attempts.erase k, workers := ws } : LinkSetup).Consistent where
  table := consistent.table
  keys := LinkAttempts.nodup_erase consistent.keys
  busy j := by
    refine (busy j).trans ?_
    unfold LinkAttempts.isActive
    by_cases same : j = k
    · rw [same, LinkAttempts.queue?_erase_self, if_pos rfl]
      rfl
    · rw [LinkAttempts.queue?_erase_of_ne same, if_neg same, consistent.busy j]
      rfl
  queued entry member := consistent.queued entry (LinkAttempts.mem_erase.mp member).1
  away entry member := consistent.away entry (LinkAttempts.mem_erase.mp member).1
  handed := handed

private theorem Consistent.queued_of_queue? (consistent : s.Consistent)
    (h : s.attempts.queue? k = some q) : ∀ r ∈ q, r.key? = some k :=
  consistent.queued (k, q) (LinkAttempts.mem_of_queue? h)

private theorem Consistent.away_of_queue? (consistent : s.Consistent)
    (h : s.attempts.queue? k = some q) : k.target ≠ s.here :=
  consistent.away (k, q) (LinkAttempts.mem_of_queue? h)

private theorem Consistent.handed_eraseIdx (consistent : s.Consistent) (i : Nat) :
    ∀ w ∈ s.workers.eraseIdx i, ∀ j, w.key = some j → w.request.key? = some j :=
  fun w member => consistent.handed w (List.mem_of_mem_eraseIdx member)

private theorem handed_concat {ws : List LinkWork}
    (handed : ∀ w ∈ ws, ∀ j, w.key = some j → w.request.key? = some j)
    (key : ∀ j, w.key = some j → w.request.key? = some j) :
    ∀ v ∈ ws ++ [w], ∀ j, v.key = some j → v.request.key? = some j := by
  intro v member
  rcases List.mem_append.mp member with member | member
  · exact handed v member
  · obtain rfl := List.mem_singleton.mp member
    exact key

theorem busy_concat (ws : List LinkWork) (w : LinkWork) (j : AttemptKey) :
    (ws ++ [w]).countP (·.key = some j) =
      ws.countP (·.key = some j) + if w.key = some j then 1 else 0 := by
  rw [List.countP_append, List.countP_singleton]
  simp only [decide_eq_true_eq]

private theorem Consistent.busy_ended (consistent : s.Consistent) (found : s.workers[i]? = some w)
    (key : w.key = some k) (queue : s.attempts.queue? k = some q) (j : AttemptKey) :
    (s.workers.eraseIdx i).countP (·.key = some j) = if j = k then 0 else s.busy j := by
  have single := consistent.busy_of_queue? queue
  have count := busy_eraseIdx found j
  rw [key] at count
  by_cases same : j = k
  · subst same
    rw [if_pos rfl] at count ⊢
    omega
  · have other : some k ≠ some j := fun h => same (Option.some.inj h).symm
    rw [if_neg other] at count
    rw [if_neg same]
    omega

theorem Consistent.move (consistent : s.Consistent) {x : SetupStep} {report : SetupReport}
    {u : LinkSetup} (move : Move s x report u) : u.Consistent := by
  cases move with
  | @untargeted r free =>
    refine consistent.withWorkers (fun j => ?_) (handed_concat consistent.handed fun j h => by cases h)
    exact busy_concat s.workers ⟨none, r⟩ j
  | own => exact consistent
  | connected => exact consistent
  | @queued r k q key away down queue =>
    refine consistent.put away ?_ (fun j => ?_) consistent.handed
    · intro x member
      rcases List.mem_append.mp member with member | member
      · exact consistent.queued_of_queue? queue x member
      · obtain rfl := List.mem_singleton.mp member
        exact key
    · by_cases same : j = k
      · rw [same, if_pos rfl]
        exact consistent.busy_of_queue? queue
      · rw [if_neg same]
        rfl
  | @started r k key away down queue =>
    refine consistent.put away (by simp) (fun j => ?_)
      (handed_concat consistent.handed fun j h => by cases h; exact key)
    refine (busy_concat s.workers ⟨some k, r⟩ j).trans ?_
    have idle := consistent.busy_of_none queue
    by_cases same : j = k
    · subst same
      rw [if_pos rfl, if_pos rfl]
      change s.busy j + 1 = 1
      omega
    · rw [if_neg same, if_neg fun h => same (Option.some.inj h).symm]
      rfl
  | absent => exact consistent
  | @unkeyed i result w found free =>
    refine consistent.withWorkers (fun j => ?_) (consistent.handed_eraseIdx i)
    have count := busy_eraseIdx found j
    simpa [free] using count
  | @stray i result w k found key queue =>
    have idle := consistent.busy_of_none queue
    have count := busy_eraseIdx found k
    rw [if_pos key] at count
    omega
  | @dropped i result w k q found key queue up =>
    exact consistent.erase (consistent.busy_ended found key queue) (consistent.handed_eraseIdx i)
  | @drained i result w k found key queue down =>
    exact consistent.erase (consistent.busy_ended found key queue) (consistent.handed_eraseIdx i)
  | @next i result w k r rest found key queue down =>
    have keyed := consistent.queued_of_queue? queue
    refine consistent.put (consistent.away_of_queue? queue)
      (fun x member => keyed x (List.mem_cons_of_mem r member)) (fun j => ?_)
      (handed_concat (consistent.handed_eraseIdx i) fun j h => by cases h; exact keyed r (by simp))
    refine (busy_concat (s.workers.eraseIdx i) ⟨some k, r⟩ j).trans ?_
    rw [consistent.busy_ended found key queue]
    by_cases same : j = k
    · subst same
      rw [if_pos rfl, if_pos rfl, if_pos rfl]
    · rw [if_neg same, if_neg same, if_neg fun h => same (Option.some.inj h).symm, Nat.add_zero]
  | @changed call =>
    exact { consistent with table := consistent.table.apply call }

theorem Consistent.step (consistent : s.Consistent) (x : SetupStep) : (s.step x).1.Consistent :=
  consistent.move (step_move s x)

theorem Consistent.run (consistent : s.Consistent) (steps : List SetupStep) :
    (s.run steps).Consistent := by
  induction steps generalizing s with
  | nil => exact consistent
  | cons x steps ih => exact ih (consistent.step x)

theorem Move.here_eq {x : SetupStep} {report : SetupReport} {u : LinkSetup}
    (move : Move s x report u) : u.here = s.here := by
  cases move <;> rfl

theorem here_run (s : LinkSetup) (steps : List SetupStep) : (s.run steps).here = s.here := by
  induction steps generalizing s with
  | nil => rfl
  | cons x steps ih => exact (ih (s.step x).1).trans (step_move s x).here_eq

theorem Consistent.of_mem_history (consistent : s.Consistent) {steps : List SetupStep}
    {line : SetupRecord} (member : line ∈ s.history steps) :
    line.before.Consistent ∧ Move line.before line.step line.report line.after := by
  induction steps generalizing s with
  | nil => cases member
  | cons x steps ih =>
    rcases List.mem_cons.mp member with rfl | member
    · exact ⟨consistent, step_move s x⟩
    · exact ih (consistent.step x) member

theorem Consistent.not_holds_of_started (consistent : s.Consistent) {x : SetupStep}
    {report : SetupReport} {u : LinkSetup} (move : Move s x report u)
    (started : report.started = some w) (key : w.key = some k) : ¬ s.table.Holds k := by
  rw [← consistent.table.hasKey_iff]
  cases move with
  | untargeted => cases started; cases key
  | started _ _ down => cases started; cases key; simp [down]
  | next _ _ _ down => cases started; cases key; simp [down]
  | own | connected | queued | absent | unkeyed | stray | dropped | drained | changed => cases started

theorem Consistent.running_eq_nil (consistent : s.Consistent) (idle : ∀ w ∈ s.workers, w.key = none) :
    s.attempts.running = [] := by
  rw [List.eq_nil_iff_forall_not_mem]
  intro entry member
  have active : s.attempts.isActive entry.1 = true := by
    rw [LinkAttempts.isActive, Option.isSome_iff_ne_none]
    exact LinkAttempts.queue?_ne_none_of_mem member
  have one := consistent.busy entry.1
  rw [active, if_pos rfl] at one
  obtain ⟨w, there, key⟩ := List.countP_pos_iff.mp (Nat.lt_of_lt_of_eq Nat.zero_lt_one one.symm)
  rw [idle w there] at key
  simp at key

theorem Consistent.away_of_worker (consistent : s.Consistent) (member : w ∈ s.workers)
    (key : w.key = some k) : k.target ≠ s.here := by
  have some_busy : 0 < s.busy k := List.countP_pos_iff.mpr ⟨w, member, by simpa using key⟩
  rw [consistent.busy] at some_busy
  cases queue : s.attempts.queue? k with
  | none => simp [LinkAttempts.isActive, queue] at some_busy
  | some q => exact consistent.away_of_queue? queue

/-- In every run the attempts are a map in which exactly the keys with a worker under way stand, one
worker for each; what waits for a key names its peer and type, no worker and no waiting request
leads to the node itself, and no worker is started for a key while the table has a link for it. So
without a worker for any key the map is empty. -/
theorem one_worker_for_each_key (here : RingAddress) (steps : List SetupStep) :
    (((fresh here).run steps).attempts.running.map (·.1)).Nodup ∧
    (∀ k, ((fresh here).run steps).busy k =
      if ((fresh here).run steps).attempts.isActive k then 1 else 0) ∧
    (∀ k queue, (k, queue) ∈ ((fresh here).run steps).attempts.running →
      ∀ r ∈ queue, r.target = some k.target ∧ r.mainType = k.type ∧ r.target ≠ some here) ∧
    (∀ w ∈ ((fresh here).run steps).workers, ∀ k, w.key = some k →
      w.request.target = some k.target ∧ w.request.mainType = k.type ∧ k.target ≠ here) ∧
    (∀ line ∈ (fresh here).history steps, ∀ w k, line.report.started = some w → w.key = some k →
      ¬ line.before.table.Holds k) ∧
    ((∀ w ∈ ((fresh here).run steps).workers, w.key = none) →
      ((fresh here).run steps).attempts.running = []) := by
  have consistent := (consistent_fresh here).run steps
  have home : ((fresh here).run steps).here = here := here_run (fresh here) steps
  refine ⟨consistent.keys, consistent.busy, ?_, ?_, ?_, consistent.running_eq_nil⟩
  · intro k queue member r waiting
    obtain ⟨target, type⟩ := LinkRequest.key?_eq_some_iff.mp (consistent.queued _ member r waiting)
    refine ⟨target, type, fun own => ?_⟩
    rw [target] at own
    exact consistent.away _ member ((Option.some.inj own).trans home.symm)
  · intro w member k key
    obtain ⟨target, type⟩ := LinkRequest.key?_eq_some_iff.mp (consistent.handed w member k key)
    refine ⟨target, type, fun own => ?_⟩
    exact consistent.away_of_worker member key (own.trans home.symm)
  · intro line member w k started key
    obtain ⟨before, move⟩ := (consistent_fresh here).of_mem_history member
    exact before.not_holds_of_started move started key

end

end LinkSetup

end RingOverlay

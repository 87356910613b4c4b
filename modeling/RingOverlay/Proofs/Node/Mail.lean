import RingOverlay.Proofs.Node.Routine
/-!
What a handshake has to read. It grows by what comes in for the handshake, and is read when the
handshake is polled. Nothing else that happens to a node touches it, and the number of a handshake that
is over is not given out again.
-/

set_option autoImplicit false
set_option relaxedAutoImplicit false

namespace RingOverlay.Node

def mail? (n : Node) (id : TaskId) : Option (HandshakeOwner × List RpcEvent) :=
  (n.task? id).bind Task.mail

/-- A node has become another one. A handshake that there was before has nothing new to read, unless it
is over. -/
structure Undisturbed (id : TaskId) (n m : Node) : Prop where
  here : m.here = n.here
  created : n.created ≤ m.created
  mail : id < n.created → ∀ x, m.mail? id = some x → n.mail? id = some x

section

variable {n m k : Node} {id i : TaskId} {t u : Task} {owner : HandshakeOwner} {inbox : List RpcEvent}

theorem mail?_eq_some_iff : n.mail? id = some (owner, inbox) ↔
    ∃ h, n.task? id = some (.handshake h) ∧ h.owner = owner ∧ h.inbox = inbox := by
  constructor
  · intro mail
    obtain ⟨t, found, own⟩ := Option.bind_eq_some_iff.mp mail
    cases t with
    | handshake h =>
      cases own
      exact ⟨h, found, rfl, rfl⟩
    | link | retry | query | drive => cases own
  · rintro ⟨h, found, rfl, rfl⟩
    rw [mail?, found]
    rfl

theorem mail?_setTask_self (found : n.task? id = some u) (t : Task) :
    (n.setTask id t).mail? id = t.mail := by
  rw [mail?, task?_of_setTask, if_pos rfl, found]
  rfl

theorem mail?_resume_self (found : n.task? id = some u) (t : Task) :
    (n.resume id t).mail? id = t.mail := by
  rw [← mail?_setTask_self found t, mail?, resume, task?_of_wake, mail?]

theorem mail?_setTask_of_ne (apart : i ≠ id) (t : Task) : (n.setTask i t).mail? id = n.mail? id := by
  rw [mail?, task?_of_setTask, if_neg (Ne.symm apart), mail?]

theorem mail?_endTask_self (n : Node) (id : TaskId) : (n.endTask id).mail? id = none := by
  rw [mail?, task?_of_endTask, if_pos rfl]
  rfl

theorem mail?_endTask_of_ne (apart : i ≠ id) : (n.endTask i).mail? id = n.mail? id := by
  rw [mail?, task?_of_endTask, if_neg (Ne.symm apart), mail?]

theorem mail?_spawnResting (old : id < n.created) (t : Task) :
    (n.spawnResting t).mail? id = n.mail? id := by
  rw [mail?, task?_of_spawnResting old, mail?]

/-! What leaves a handshake undisturbed. -/

theorem Undisturbed.trans (first : Undisturbed id n m) (second : Undisturbed id m k) :
    Undisturbed id n k where
  here := second.here.trans first.here
  created := Nat.le_trans first.created second.created
  mail old x later := first.mail old x (second.mail (Nat.lt_of_lt_of_le old first.created) x later)

theorem Undisturbed.of_same (here : m.here = n.here) (tasks : m.tasks = n.tasks)
    (created : m.created = n.created) : Undisturbed id n m := by
  have same : m.mail? id = n.mail? id := by rw [mail?, task?, tasks, mail?, task?]
  exact ⟨here, Nat.le_of_eq created.symm, fun _ x later => same.symm.trans later⟩

theorem Undisturbed.ended (undisturbed : Undisturbed id n m) (old : id < n.created)
    (ended : n.mail? id = none) : m.mail? id = none := by
  refine Option.eq_none_iff_forall_not_mem.mpr fun x later => ?_
  have before := undisturbed.mail old x later
  rw [ended] at before
  cases before

theorem undisturbed_spawnResting (n : Node) (t : Task) : Undisturbed id n (n.spawnResting t) where
  here := rfl
  created := Nat.le_succ _
  mail old _ later := (mail?_spawnResting old t).symm.trans later

theorem undisturbed_setTask_of_ne (apart : i ≠ id) (n : Node) (t : Task) :
    Undisturbed id n (n.setTask i t) :=
  ⟨rfl, Nat.le_refl _, fun _ _ later => (mail?_setTask_of_ne apart t).symm.trans later⟩

theorem undisturbed_routine (id : TaskId) : CountingRoutine (Undisturbed id) where
  refl _ := .of_same rfl rfl rfl
  trans := Undisturbed.trans
  aside {n m} same := by
    have kept {α : Type} (f : Node → α) (looked : ∀ n, f n.core = f n) : f m = f n := by
      rw [← looked m, ← looked n, same]
    exact .of_same (kept Node.here fun _ => rfl) (kept Node.tasks fun _ => rfl)
      (kept Node.created fun _ => rfl)
  act _ _ _ := .of_same rfl rfl rfl
  spawnResting n t _ := undisturbed_spawnResting n t
  setTask n i t u found _ mail := by
    by_cases own : i = id
    · subst own
      refine ⟨rfl, Nat.le_refl _, fun _ x later => ?_⟩
      rw [mail?_setTask_self found, mail] at later
      rw [mail?, found]
      exact later
    · exact undisturbed_setTask_of_ne own n t
  setIdle n i t other := by
    by_cases own : i = id
    · subst own
      refine ⟨rfl, Nat.le_refl _, fun _ x later => ?_⟩
      rw [mail?, task?_of_setTask, if_pos rfl] at later
      cases found : n.task? i with
      | none =>
        rw [found] at later
        cases later
      | some u =>
        rw [found] at later
        exact absurd (other.symm.trans later) nofun
    · exact undisturbed_setTask_of_ne own n t
  endTask n i := by
    refine ⟨rfl, Nat.le_refl _, fun _ x later => ?_⟩
    by_cases own : i = id
    · subst own
      rw [mail?_endTask_self] at later
      cases later
    · exact (mail?_endTask_of_ne own).symm.trans later
  attend _ _ _ _ := .of_same rfl rfl rfl
  mark _ _ _ := .of_same rfl rfl rfl
  seek n a _ := (undisturbed_spawnResting n _).trans (.of_same rfl rfl rfl)
  recount _ := .of_same rfl rfl rfl
  rise _ := .of_same rfl rfl rfl

theorem undisturbed_pollHandshake (apart : i ≠ id) (n : Node) (h : HandshakeTask) :
    Undisturbed id n (n.pollHandshake i h) := by
  have routine := undisturbed_routine id
  have heard := routine.turn h n
  simp only [pollHandshake]
  generalize h.turn n.here (n.shouldAbort h.abort) (handleReply h.owner) n = turned at heard ⊢
  obtain ⟨turn, m⟩ := turned
  refine heard.trans ?_
  cases turn with
  | call k =>
    have asked : Undisturbed id m ((m.act (.invoke i h.exchange.target h.exchange.request)).wakeAt
        (m.now + h.timeoutMs) i) := .of_same rfl rfl rfl
    exact asked.trans (undisturbed_setTask_of_ne apart _ _)
  | rest k => exact undisturbed_setTask_of_ne apart m _
  | done r => exact (routine.endTask m i).trans (routine.finishHandshake ..)

theorem undisturbed_move {s : NodeMove} (n : Node)
    (polled : ∀ h, n.task? id = some (.handshake h) → s ≠ .step (.poll id))
    (received : ∀ h e, n.task? id = some (.handshake h) → s ≠ .step (.deliver id e)) :
    Undisturbed id n (n.move s) := by
  refine (undisturbed_routine id).move n s ?_
  unfold Allows
  split
  · exact fun _ _ => .of_same rfl rfl rfl
  · exact .of_same rfl rfl rfl
  · exact .of_same rfl rfl rfl
  · intro h found
    refine undisturbed_pollHandshake ?_ n h
    rintro rfl
    exact polled h found rfl
  · intro h found
    refine undisturbed_setTask_of_ne ?_ n _
    rintro rfl
    exact received h _ found rfl
  · trivial

end

end RingOverlay.Node

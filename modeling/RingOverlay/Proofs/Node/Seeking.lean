import RingOverlay.Proofs.Node.Routine
/-!
The handshakes of the policy for pinned peers with one peer. While the peer is not pinned, nothing that
a node does starts such a handshake, and no connect call is made but by a handshake that is polled.
-/

set_option autoImplicit false
set_option relaxedAutoImplicit false

namespace RingOverlay.Node

/-- A task with its number, if it is a handshake of the policy for pinned peers with a peer: its number,
and whether it has made its call. -/
def seeker? (a : RingAddress) (t : TaskId × Task) : Option (TaskId × Bool) :=
  t.2.stage.bind fun s => if s.1 = a then some (t.1, s.2) else none

/-- The handshakes of the policy for pinned peers with a peer. -/
def seeking (n : Node) (a : RingAddress) : List (TaskId × Bool) := n.tasks.filterMap (seeker? a)

structure Numbered (n : Node) : Prop where
  unique : (n.tasks.map (·.1)).Nodup
  given : ∀ i ∈ n.tasks.map (·.1), i < n.created

section

variable {a b : RingAddress} {n m k : Node} {id : TaskId} {t u : Task}

theorem fst_of_seeker? {v : TaskId × Task} {s : TaskId × Bool} (seeks : seeker? a v = some s) :
    s.1 = v.1 := by
  obtain ⟨stage, -, same⟩ := Option.bind_eq_some_iff.mp seeks
  split at same
  · cases same
    rfl
  · cases same

theorem Sound.toNumbered (sound : n.Sound) : n.Numbered := by
  have numbers : n.chases.map (·.1) = n.tasks.map (·.1) := by simp [chases, Function.comp_def]
  refine ⟨numbers ▸ sound.unique, fun i member => ?_⟩
  rw [← numbers] at member
  obtain ⟨k, there, rfl⟩ := List.mem_map.mp member
  exact sound.numbered k there

theorem Numbered.congr (numbered : n.Numbered) (tasks : m.tasks = n.tasks)
    (created : m.created = n.created) : m.Numbered :=
  ⟨tasks ▸ numbered.unique, tasks ▸ created ▸ numbered.given⟩

theorem Numbered.spawnResting (numbered : n.Numbered) (t : Task) : (n.spawnResting t).Numbered := by
  have numbers : (n.spawnResting t).tasks.map (·.1) = n.tasks.map (·.1) ++ [n.created] := by
    simp [Node.spawnResting]
  refine ⟨?_, fun i member => ?_⟩
  · rw [numbers]
    refine List.Nodup.append numbered.unique (List.nodup_singleton _) fun i old new => ?_
    rw [List.mem_singleton] at new
    exact Nat.ne_of_lt (numbered.given i old) new
  · rw [numbers, List.mem_append, List.mem_singleton] at member
    rcases member with old | rfl
    · exact Nat.lt_succ_of_lt (numbered.given i old)
    · exact Nat.lt_succ_self _

theorem Numbered.setTask (numbered : n.Numbered) (id : TaskId) (t : Task) :
    (n.setTask id t).Numbered := by
  have numbers : (n.setTask id t).tasks.map (·.1) = n.tasks.map (·.1) := by
    simp only [Node.setTask, List.map_map]
    refine List.map_congr_left fun u _ => ?_
    simp only [Function.comp_apply]
    split <;> rfl
  exact ⟨numbers ▸ numbered.unique, numbers ▸ numbered.given⟩

theorem Numbered.endTask (numbered : n.Numbered) (id : TaskId) : (n.endTask id).Numbered := by
  have fewer : ((n.endTask id).tasks.map (·.1)).Sublist (n.tasks.map (·.1)) :=
    List.filter_sublist.map _
  exact ⟨numbered.unique.sublist fewer, fun i member => numbered.given i (fewer.subset member)⟩

theorem Numbered.eq_of_mem (numbered : n.Numbered) (found : n.task? id = some u)
    (member : (id, t) ∈ n.tasks) : t = u :=
  congrArg Prod.snd (List.inj_on_of_nodup_map numbered.unique member (mem_of_task? found) rfl)

theorem seeking_spawnResting (n : Node) (t : Task) (other : ∀ called, t.stage ≠ some (a, called)) :
    (n.spawnResting t).seeking a = n.seeking a := by
  have none_more : seeker? a (n.created, t) = none := by
    cases stage : t.stage with
    | none => simp [seeker?, stage]
    | some s =>
      obtain ⟨b, called⟩ := s
      have apart : b ≠ a := by
        rintro rfl
        exact other called stage
      simp [seeker?, stage, apart]
  rw [seeking, Node.spawnResting, List.filterMap_append, List.filterMap_cons_none none_more]
  exact List.append_nil _

theorem seeking_setTask (numbered : n.Numbered) (found : n.task? id = some u)
    (same : t.stage = u.stage) : (n.setTask id t).seeking a = n.seeking a := by
  rw [seeking, Node.setTask, List.filterMap_map]
  refine List.filterMap_congr fun v member => ?_
  obtain ⟨i, v⟩ := v
  by_cases here : i = id
  · subst here
    obtain rfl := numbered.eq_of_mem found member
    simp [seeker?, same]
  · simp [here]

theorem seeking_endTask (n : Node) (a : RingAddress) (id : TaskId) :
    (n.endTask id).seeking a = (n.seeking a).filter (·.1 != id) := by
  rw [seeking, Node.endTask, List.filterMap_filter, seeking, List.filter_filterMap]
  refine List.filterMap_congr fun u _ => ?_
  unfold seeker?
  -- The filter comes after the look at the task on one side and before it on the other.
  cases u.2.stage with
  | none => simp
  | some s =>
    by_cases about : s.1 = a
    · by_cases here : u.1 = id <;> simp [about, here, Option.filter]
    · simp [about]

theorem seeking_setIdle (n : Node) (a : RingAddress) (id : TaskId) (other : t.stage = none) :
    (n.setTask id t).seeking a = (n.seeking a).filter (·.1 != id) := by
  rw [← seeking_endTask, seeking, Node.setTask, List.filterMap_map, seeking, Node.endTask,
    List.filterMap_filter]
  refine List.filterMap_congr fun u _ => ?_
  by_cases here : u.1 = id
  · simp [here, seeker?, other]
  · simp [here]

/-- A node has made no connect call, whatever else it has asked for. -/
def Mute (n m : Node) : Prop :=
  ∃ new, m.actions = n.actions ++ new ∧ ∀ x ∈ new, x.isInvoke = false

theorem mute_of_actions (same : m.actions = n.actions) : Mute n m :=
  ⟨[], same.trans (List.append_nil _).symm, fun _ member => absurd member List.not_mem_nil⟩

theorem mute_act (n : Node) {x : NodeAction} (silent : x.isInvoke = false) : Mute n (n.act x) :=
  ⟨[x], rfl, List.forall_mem_singleton.mpr silent⟩

theorem Mute.trans (first : Mute n m) (second : Mute m k) : Mute n k := by
  obtain ⟨xs, here, quiet⟩ := first
  obtain ⟨ys, there, quiet'⟩ := second
  refine ⟨xs ++ ys, ?_, fun x member => ?_⟩
  · rw [there, here, List.append_assoc]
  · exact (List.mem_append.mp member).elim (quiet x) (quiet' x)

/-- A node has become another one without connect calls, and while a peer is not pinned the handshakes
with it have become no more. -/
structure Dwindles (a : RingAddress) (n m : Node) : Prop where
  numbered : n.Numbered → m.Numbered
  unpinned : n.managed.state? a = none → m.managed.state? a = none
  seeking : n.Numbered → n.managed.state? a = none → (m.seeking a).Sublist (n.seeking a)
  silent : Mute n m

theorem Dwindles.trans (first : Dwindles a n m) (second : Dwindles a m k) : Dwindles a n k where
  numbered numbered := second.numbered (first.numbered numbered)
  unpinned unpinned := second.unpinned (first.unpinned unpinned)
  seeking numbered unpinned :=
    (second.seeking (first.numbered numbered) (first.unpinned unpinned)).trans
      (first.seeking numbered unpinned)
  silent := first.silent.trans second.silent

theorem Dwindles.of_same (tasks : m.tasks = n.tasks) (created : m.created = n.created)
    (actions : m.actions = n.actions)
    (unpinned : n.managed.state? a = none → m.managed.state? a = none) : Dwindles a n m where
  numbered numbered := numbered.congr tasks created
  unpinned := unpinned
  seeking _ _ := by
    rw [Node.seeking, tasks]
    exact .refl _
  silent := mute_of_actions actions

private theorem Dwindles.of_tasks (managed : m.managed = n.managed) (actions : m.actions = n.actions)
    (numbered : n.Numbered → m.Numbered)
    (seeking : n.Numbered → n.managed.state? a = none → (m.seeking a).Sublist (n.seeking a)) :
    Dwindles a n m where
  numbered := numbered
  unpinned unpinned := managed ▸ unpinned
  seeking := seeking
  silent := mute_of_actions actions

theorem Dwindles.setTask (n : Node) (found : n.task? id = some u) (same : t.stage = u.stage) :
    Dwindles a n (n.setTask id t) := by
  refine .of_tasks rfl rfl (·.setTask id t) fun numbered _ => ?_
  rw [seeking_setTask numbered found same]

theorem dwindles_routine (a : RingAddress) : CountingRoutine (Dwindles a) where
  refl _ := .of_same rfl rfl rfl id
  trans := Dwindles.trans
  aside {n m} same := by
    have kept {α : Type} (f : Node → α) (looked : ∀ n, f n.core = f n) : f m = f n := by
      rw [← looked m, ← looked n, same]
    refine .of_same (kept Node.tasks fun _ => rfl) (kept Node.created fun _ => rfl)
      (kept Node.actions fun _ => rfl) ?_
    rw [kept Node.managed fun _ => rfl]
    exact id
  act n x silent :=
    ⟨fun numbered => numbered.congr rfl rfl, id, fun _ _ => .refl _, mute_act n silent⟩
  spawnResting n t other := by
    refine .of_tasks rfl rfl (·.spawnResting t) fun _ _ => ?_
    rw [seeking_spawnResting n t fun called => by simp [other]]
  setTask n id t u found same _ := .setTask n found same
  setIdle n id t other := by
    refine .of_tasks rfl rfl (·.setTask id t) fun _ _ => ?_
    rw [seeking_setIdle n a id (Task.stage_of_mail other)]
    exact List.filter_sublist
  endTask n id := by
    refine .of_tasks rfl rfl (·.endTask id) fun _ _ => ?_
    rw [seeking_endTask]
    exact List.filter_sublist
  attend _ _ _ _ := .of_same rfl rfl rfl id
  mark _ _ fewer := .of_same rfl rfl rfl (fewer a)
  seek n b pinned := by
    refine .of_tasks rfl rfl ?_ fun _ unpinned => ?_
    · exact fun numbered => (numbered.spawnResting _).congr rfl rfl
    · have apart : b ≠ a := by
        rintro rfl
        exact pinned unpinned
      have kept : (n.connectPinned b).seeking a = n.seeking a := by
        refine seeking_spawnResting n _ fun called stage => apart ?_
        cases stage
        rfl
      rw [kept]
  recount _ := .of_same rfl rfl rfl id
  rise _ := .of_same rfl rfl rfl id

end

end RingOverlay.Node

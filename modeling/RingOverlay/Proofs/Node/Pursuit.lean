import RingOverlay.Node.Moves
import RingOverlay.Proofs.Node.Bookkeeping
import RingOverlay.Proofs.Overlord.Pins
import RingOverlay.Proofs.Overlord.Pursuit
/-!
The pursuit of a pinned peer within a node: the tasks that belong to it, and what happens to it in a
move. All machinery of a node but the policy for pinned peers runs beside it.
-/

set_option autoImplicit false
set_option relaxedAutoImplicit false

namespace RingOverlay

inductive Chase where
  | connector (a : RingAddress)
  | retry (a : RingAddress)
  deriving DecidableEq, Repr

def Task.chase : Task → Option Chase
  | .handshake h =>
    if h.owner = .managed then h.exchange.target.exactAddress.map .connector else none
  | .retry a _ _ => some (.retry a)
  | .link _ _ | .query _ | .drive _ => none

theorem Task.exists_handshake {t : Task} {a : RingAddress} (chase : t.chase = some (.connector a)) :
    ∃ h, t = .handshake h := by
  cases t with
  | handshake h => exact ⟨h, rfl⟩
  | retry b pausing due => cases chase
  | link | query | drive => cases chase

theorem Task.exists_retry {t : Task} {a : RingAddress} (chase : t.chase = some (.retry a)) :
    ∃ pausing due, t = .retry a pausing due := by
  cases t with
  | handshake h =>
    simp only [Task.chase] at chase
    split at chase
    · cases named : h.exchange.target.exactAddress <;> rw [named] at chase <;> cases chase
    · cases chase
  | retry b pausing due =>
    cases chase
    exact ⟨pausing, due, rfl⟩
  | link | query | drive => cases chase

def Task.isCalling : Task → Bool
  | .handshake h => h.calling
  | _ => false

namespace Node

/-- The handshakes of the policy for pinned peers with a peer. -/
def connectors (n : Node) (a : RingAddress) : Nat :=
  n.tasks.countP (·.2.chase = some (.connector a))

/-- The retries with a peer that wait for the end of a pause. -/
def retries (n : Node) (a : RingAddress) : Nat := n.tasks.countP (·.2.chase = some (.retry a))

/-- The handshakes of the policy for pinned peers with a peer that have made their call. -/
def outstanding (n : Node) (a : RingAddress) : Nat :=
  n.tasks.countP fun t => t.2.chase = some (.connector a) && t.2.isCalling

def pursuit (n : Node) (a : RingAddress) : Pursuit :=
  ⟨n.connectors a, n.retries a, n.managed.state? a⟩

section Events

/-- What happens to a pursuit when a policy is told something, where `es` is what the policy for
pinned peers makes of it. -/
def toldTo (k : OverlordKind) (es : List PinEvent) : List PinEvent := if k = .managed then es else []

def told (n : Node) (es : List PinEvent) : List PinEvent := n.overlords.flatMap (toldTo · es)

def spoken (a : RingAddress) (e : TableEvent) : List PinEvent :=
  match e.word a with
  | some true => [.word .up]
  | some false => [.word .down]
  | none => []

def dueCheck (n : Node) : List PinEvent :=
  if (n.managed.beginCheck? n.config.managed n.now).isSome then [.word .check] else []

def feedEvents (n : Node) (a : RingAddress) (feed : EventFeed) : List PinEvent :=
  if feed.missed ≠ 0 then n.told [.word .resync]
  else feed.unread.flatMap fun e => n.told (spoken a e)

def runningEvents (n : Node) (a : RingAddress) (l : LoopTask) : List PinEvent :=
  if l.stopping then []
  else
    (List.replicate (beatsDue n.config.timing.heartbeatMs n.now l.nextBeat).1
      (n.told n.dueCheck)).flatten ++ n.feedEvents a l.feed

def handshakeEvents (n : Node) (a : RingAddress) (h : HandshakeTask) : List PinEvent :=
  if (Task.handshake h).chase = some (.connector a) then
    match (h.turn n.here (n.shouldAbort h.abort) (handleReply h.owner) n).1 with
    | .done _ => [.finish (n.isConnected a)]
    | .call _ | .rest _ => []
  else []

def pollEvents (n : Node) (a : RingAddress) (id : TaskId) : List PinEvent :=
  match n.task? id with
  | some (.handshake h) => n.handshakeEvents a h
  | some (.retry b _ due) => if b = a ∧ due then [.fire n.managed.active] else []
  | some (.drive l) =>
    if l.started then n.runningEvents a l
    else if n.config.timing.heartbeatMs = 0 then []
    else n.told [.word .activate] ++
      n.start.runningEvents a { l with started := true, feed := .fresh, nextBeat := n.now }
  | some (.link _ _) | some (.query _) | none => []

/-- What is said about a peer when a loop reads the next item of its feed. -/
def readEvents (n : Node) (a : RingAddress) (id : TaskId) : List PinEvent :=
  match n.task? id with
  | some (.drive l) =>
    match l.feed.next? with
    | some (.event e, _) => n.told (spoken a e)
    | some (.lagged _, _) => n.told [.word .resync]
    | none => []
  | _ => []

def pinEvents (n : Node) (a : RingAddress) : NodeMove → List PinEvent
  | .step (.pin b) => if b = a then [.word .set] else []
  | .step (.unpin b) => if b = a then [.word .unset] else []
  | .step .heartbeat => n.told n.dueCheck
  | .step (.read id) => n.readEvents a id
  | .step (.poll id) => n.pollEvents a id
  | .activate k => toldTo k [.word .activate]
  | .beat k => toldTo k n.dueCheck
  | .resync k => toldTo k [.word .resync]
  | .linkUp c k => toldTo k (spoken a (.connected c))
  | .linkDown c k => toldTo k (spoken a (.disconnected c))
  | .step _ | .run | .shutdown | .switch _ _ => []

/-- What happens to the pursuit of a peer in several moves. -/
def history (n : Node) (a : RingAddress) : List NodeMove → List PinEvent
  | [] => []
  | s :: ms => n.pinEvents a s ++ (n.move s).history a ms

end Events

def chases (n : Node) : List (TaskId × Option Chase) := n.tasks.map fun t => (t.1, t.2.chase)

def chasing (n : Node) : List (TaskId × Option Chase) := n.chases.filter (·.2.isSome)

structure Sound (n : Node) : Prop where
  numbered : ∀ k ∈ n.chases, k.1 < n.created
  unique : (n.chases.map (·.1)).Nodup
  distinct : n.managed.Distinct

section Counting

variable {n m : Node} {a : RingAddress} {id : TaskId} {t : Task} {c : Option Chase}

private theorem countP_chases (n : Node) (c : Chase) :
    n.chases.countP (·.2 = some c) = n.tasks.countP (·.2.chase = some c) := by
  rw [chases, List.countP_map]
  rfl

private theorem countP_chasing (n : Node) (c : Chase) :
    n.chasing.countP (·.2 = some c) = n.tasks.countP (·.2.chase = some c) := by
  rw [← countP_chases, chasing, List.countP_filter]
  refine List.countP_congr fun k _ => ?_
  simp only [Bool.and_eq_true, decide_eq_true_eq]
  constructor
  · exact And.left
  · intro same
    exact ⟨same, by rw [same]; rfl⟩

theorem pursuit_congr (chasing : m.chasing = n.chasing)
    (state : m.managed.state? a = n.managed.state? a) : m.pursuit a = n.pursuit a := by
  simp only [pursuit, connectors, retries, ← countP_chasing, chasing, state]

theorem mem_chases (found : n.task? id = some t) : (id, t.chase) ∈ n.chases :=
  List.mem_map.mpr ⟨(id, t), mem_of_task? found, rfl⟩

theorem Sound.eq_of_mem {d : Option Chase} (sound : n.Sound) (first : (id, c) ∈ n.chases)
    (second : (id, d) ∈ n.chases) : c = d :=
  congrArg Prod.snd (List.inj_on_of_nodup_map sound.unique first second rfl)

private theorem perm_of_mem {ks : List (TaskId × Option Chase)} (unique : (ks.map (·.1)).Nodup)
    (member : (id, c) ∈ ks) : ks.Perm ((id, c) :: ks.filter (·.1 != id)) := by
  induction ks with
  | nil => cases member
  | cons k ks ih =>
    rw [List.map_cons, List.nodup_cons] at unique
    obtain ⟨apart, rest⟩ := unique
    by_cases here : k.1 = id
    · have absent : ∀ u ∈ ks, u.1 ≠ id := by
        intro u hu same
        rw [here, ← same] at apart
        exact apart (List.mem_map_of_mem hu)
      obtain rfl : k = (id, c) := by
        rcases List.mem_cons.mp member with first | later
        · exact first.symm
        · exact absurd rfl (absent _ later)
      rw [List.filter_cons_of_neg (by simp), List.filter_eq_self.mpr]
      intro u hu
      exact bne_iff_ne.mpr (absent u hu)
    · have later : (id, c) ∈ ks := by
        rcases List.mem_cons.mp member with rfl | later
        · exact absurd rfl here
        · exact later
      rw [List.filter_cons_of_pos (by simpa using here)]
      exact ((ih rest later).cons k).trans (.swap ..)

theorem chases_spawnResting (n : Node) (t : Task) :
    (n.spawnResting t).chases = n.chases ++ [(n.created, t.chase)] := by
  simp [chases, spawnResting]

theorem chases_spawn (n : Node) (t : Task) :
    (n.spawn t).chases = n.chases ++ [(n.created, t.chase)] := by
  simp [chases, spawn]

theorem chases_endTask (n : Node) (id : TaskId) :
    (n.endTask id).chases = n.chases.filter (·.1 != id) := by
  simp only [chases, endTask, List.filter_map]
  rfl

theorem chases_setTask (same : ∀ c, (id, c) ∈ n.chases → c = t.chase) :
    (n.setTask id t).chases = n.chases := by
  simp only [chases, setTask, List.map_map]
  refine List.map_congr_left fun u member => ?_
  obtain ⟨i, u⟩ := u
  by_cases here : i = id
  · subst here
    have kind := same u.chase (List.mem_map_of_mem member)
    simp [kind]
  · simp [here]

theorem Sound.setTask (sound : n.Sound) (same : ∀ c, (id, c) ∈ n.chases → c = t.chase) :
    (n.setTask id t).Sound := by
  have kept := chases_setTask same
  refine ⟨?_, ?_, sound.distinct⟩
  · rw [kept]
    exact sound.numbered
  · rw [kept]
    exact sound.unique

theorem Sound.spawnResting (sound : n.Sound) (t : Task) : (n.spawnResting t).Sound := by
  have grown := chases_spawnResting n t
  refine ⟨?_, ?_, sound.distinct⟩
  · intro k member
    rw [grown, List.mem_append, List.mem_singleton] at member
    rcases member with old | rfl
    · exact Nat.lt_succ_of_lt (sound.numbered k old)
    · exact Nat.lt_succ_self _
  · rw [grown, List.map_append]
    refine List.Nodup.append sound.unique (List.nodup_singleton _) ?_
    intro i old new
    obtain rfl := List.mem_singleton.mp new
    obtain ⟨k, member, same⟩ := List.mem_map.mp old
    exact absurd (sound.numbered k member) (same ▸ Nat.lt_irrefl _)

theorem Sound.spawn (sound : n.Sound) (t : Task) : (n.spawn t).Sound :=
  ⟨(sound.spawnResting t).numbered, (sound.spawnResting t).unique, sound.distinct⟩

theorem Sound.endTask (sound : n.Sound) (id : TaskId) : (n.endTask id).Sound := by
  have fewer := chases_endTask n id
  refine ⟨?_, ?_, sound.distinct⟩
  · intro k member
    rw [fewer] at member
    exact sound.numbered k (List.mem_of_mem_filter member)
  · rw [fewer]
    exact sound.unique.sublist (List.filter_sublist.map _)

theorem Sound.countP_endTask (sound : n.Sound) (member : (id, c) ∈ n.chases) (d : Chase) :
    n.tasks.countP (·.2.chase = some d) =
      (n.endTask id).tasks.countP (·.2.chase = some d) + if c = some d then 1 else 0 := by
  rw [← countP_chases, ← countP_chases, chases_endTask,
    (perm_of_mem sound.unique member).countP_eq, List.countP_cons]
  simp only [decide_eq_true_eq]

end Counting

end Node

end RingOverlay

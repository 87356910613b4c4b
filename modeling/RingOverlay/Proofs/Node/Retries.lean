import RingOverlay.Proofs.Node.Pursuing
/-!
How many handshakes with a pinned peer there can be. Each word that rouses the policy may start one,
and only a handshake that ended is followed by another one. So handshakes may overlap, but no more of
them than the policy was roused, and left alone they come to an end.
-/

set_option autoImplicit false
set_option relaxedAutoImplicit false

namespace RingOverlay

namespace Handshake

variable {σ : Type} {here : RingAddress} {owner : ConnectRequest → σ → Bool × σ}
  {h k : Handshake} {abort : Bool} {s : σ}

private theorem calling_of_turn (turned : (h.turn here abort owner s).1 = .call k ∨
    (h.turn here abort owner s).1 = .rest k) : k.calling = true := by
  unfold turn at turned
  split at turned
  · rename_i calling
    generalize h.exchange.listen here owner h.inbox s = heard at turned
    obtain ⟨ending, exchange, s⟩ := heard
    simp only at turned
    split at turned
    · rcases turned with turned | turned <;> cases turned
    · rcases turned with turned | turned
      · cases turned
      · cases turned
        exact calling
  · split at turned
    · rcases turned with turned | turned <;> cases turned
    · rcases turned with turned | turned
      · cases turned
        rfl
      · cases turned

private theorem exists_done_of_expired (calling : h.calling = true) (expired : h.expired = true)
    (s : σ) : ∃ r, (h.turn here abort owner s).1 = .done r := by
  have silence : ∃ e, h.silence = some e := by
    rw [Handshake.silence, expired]
    split
    · exact ⟨_, rfl⟩
    · exact ⟨_, rfl⟩
  obtain ⟨e, silence⟩ := silence
  unfold turn
  rw [if_pos calling]
  generalize h.exchange.listen here owner h.inbox s = heard
  obtain ⟨ending, exchange, s⟩ := heard
  cases ending with
  | none =>
    simp only [Option.orElse_none, silence]
    exact ⟨_, rfl⟩
  | some e => exact ⟨_, rfl⟩

end Handshake

namespace Node

/-- Nothing is said to the policy for pinned peers about a peer. -/
def Silent (n : Node) (a : RingAddress) (ms : List NodeMove) : Prop :=
  ∀ e ∈ n.history a ms, e.isWord = false

/-- A node without tasks that has pinned no peer yet. -/
structure Fresh (n : Node) : Prop where
  tasks : n.tasks = []
  pins : n.managed.pins = []

/-- A node that has come about by moves of a fresh one. -/
def Reachable (n : Node) : Prop := ∃ start ms, Fresh start ∧ n = start.moved ms

section

variable {n : Node} {a : RingAddress} {id : TaskId} {c : Option Chase}

theorem Fresh.sound (fresh : n.Fresh) : n.Sound := by
  have empty : n.chases = [] := by rw [chases, fresh.tasks, List.map_nil]
  refine ⟨?_, ?_, ?_⟩
  · intro k member
    rw [empty] at member
    cases member
  · rw [empty]
    exact List.nodup_nil
  · rw [ManagedOverlord.Distinct, fresh.pins]
    exact List.nodup_nil

theorem Reachable.sound (reached : n.Reachable) : n.Sound := by
  obtain ⟨start, ms, fresh, rfl⟩ := reached
  exact (passes_moved (a := start.here) fresh.sound ms).sound

theorem outstanding_le (n : Node) (a : RingAddress) : n.outstanding a ≤ n.connectors a := by
  refine List.countP_mono_left fun t _ counted => ?_
  simp only [Bool.and_eq_true] at counted
  exact counted.1

private theorem exists_task? (member : (id, c) ∈ n.chases) : ∃ t, n.task? id = some t := by
  cases found : n.task? id with
  | some t => exact ⟨t, rfl⟩
  | none =>
    obtain ⟨u, there, same⟩ := List.mem_map.mp member
    obtain rfl : u.1 = id := congrArg Prod.fst same
    have apart := List.lookup_eq_none_iff.mp found u there
    simp at apart

private theorem task?_setTask (t : Task) (member : (id, c) ∈ n.chases) :
    (n.setTask id t).task? id = some t := by
  obtain ⟨u, found⟩ := exists_task? member
  rw [task?_of_setTask, if_pos rfl, found, Option.map_some]

private theorem task?_resume (t : Task) (member : (id, c) ∈ n.chases) :
    (n.resume id t).task? id = some t := by
  rw [resume, task?_of_wake]
  exact task?_setTask t member

private theorem finish_event {h : HandshakeTask} {r : HandshakeReport}
    (found : n.task? id = some (.handshake h))
    (chase : (Task.handshake h).chase = some (.connector a))
    (done : (h.turn n.here (n.shouldAbort h.abort) (handleReply h.owner) n).1 = .done r) :
    n.pollEvents a id = [.finish (n.isConnected a)] := by
  simp only [pollEvents, found, handshakeEvents, if_pos chase, done]

private theorem polled_of_turn {h : HandshakeTask} {k : Handshake}
    (found : n.task? id = some (.handshake h))
    (turned : (h.turn n.here (n.shouldAbort h.abort) (handleReply h.owner) n).1 = .call k ∨
      (h.turn n.here (n.shouldAbort h.abort) (handleReply h.owner) n).1 = .rest k) :
    (n.poll id).task? id = some (.handshake { h with toHandshake := k }) ∧
      n.pollEvents a id = [] := by
  have kept := (beside_turn h n).kept _ (mem_chases found)
  simp only [poll, pollEvents, found, pollHandshake, handshakeEvents]
  generalize h.turn n.here (n.shouldAbort h.abort) (handleReply h.owner) n = x at *
  obtain ⟨turn, m⟩ := x
  rcases turned with rfl | rfl
  · refine ⟨?_, ite_self _⟩
    exact task?_setTask (n := (m.act _).wakeAt _ id) _ kept
  · exact ⟨task?_setTask _ kept, ite_self _⟩

private theorem history_expire {h : HandshakeTask} (found : n.task? id = some (.handshake h))
    (chase : (Task.handshake h).chase = some (.connector a)) (calling : h.calling = true) :
    ∃ connected, n.history a [.step (.expire id), .step (.poll id)] = [.finish connected] := by
  have expired : (n.expire id).task? id = some (.handshake { h with toHandshake := h.expire }) := by
    simp only [expire, found]
    exact task?_resume _ (mem_chases found)
  have same : (Task.handshake { h with toHandshake := h.expire }).chase = some (.connector a) :=
    (chase_congr rfl).trans chase
  obtain ⟨r, done⟩ : ∃ r, (h.expire.turn (n.expire id).here ((n.expire id).shouldAbort h.abort)
      (handleReply h.owner) (n.expire id)).1 = .done r :=
    h.expire.exists_done_of_expired calling rfl _
  have ended := finish_event expired same done
  exact ⟨_, by simp only [history, pinEvents, ended, move, step]; rfl⟩

private theorem exists_finish (sound : n.Sound) (member : (id, some (.connector a)) ∈ n.chases) :
    ∃ ms connected, n.history a ms = [.finish connected] := by
  obtain ⟨t, found⟩ := exists_task? member
  have chase := sound.eq_of_mem (mem_chases found) member
  obtain ⟨h, rfl⟩ := Task.exists_handshake chase
  have target : (h.turn n.here (n.shouldAbort h.abort) (handleReply h.owner) n).1.target =
    h.exchange.target := h.target_turn ..
  -- Where the first poll does not end the handshake, it rests with its call made, and its time can run
  -- out.
  have later {k : Handshake} (same : k.exchange.target = h.exchange.target)
      (turned : (h.turn n.here (n.shouldAbort h.abort) (handleReply h.owner) n).1 = .call k ∨
        (h.turn n.here (n.shouldAbort h.abort) (handleReply h.owner) n).1 = .rest k) :
      ∃ ms connected, n.history a ms = [.finish connected] := by
    obtain ⟨rests, quiet⟩ := polled_of_turn (a := a) found turned
    obtain ⟨connected, ended⟩ := history_expire rests ((chase_congr same).trans chase)
      (Handshake.calling_of_turn turned)
    refine ⟨[.step (.poll id), .step (.expire id), .step (.poll id)], connected, ?_⟩
    change n.pollEvents a id ++ (n.poll id).history a _ = _
    rw [quiet, List.nil_append]
    exact ended
  cases turned : (h.turn n.here (n.shouldAbort h.abort) (handleReply h.owner) n).1 with
  | done r =>
    have ended := finish_event found chase turned
    refine ⟨[.step (.poll id)], n.isConnected a, ?_⟩
    rw [history, history, List.append_nil]
    exact ended
  | call k =>
    rw [turned] at target
    exact later target (Or.inl turned)
  | rest k =>
    rw [turned] at target
    exact later target (Or.inr turned)

private theorem exists_fire (sound : n.Sound) (member : (id, some (.retry a)) ∈ n.chases) :
    ∃ ms active, n.history a ms = [.fire active] := by
  obtain ⟨t, found⟩ := exists_task? member
  have chase := sound.eq_of_mem (mem_chases found) member
  obtain ⟨pausing, due, rfl⟩ := Task.exists_retry chase
  have expired : (n.expire id).task? id = some (.retry a true true) := by
    simp only [expire, found]
    exact task?_resume _ member
  refine ⟨[.step (.expire id), .step (.poll id)], (n.expire id).managed.active, ?_⟩
  simp only [history, pinEvents, move, step, pollEvents, expired]
  rfl

private theorem exists_chase (c : Chase) (some_there : 0 < n.tasks.countP (·.2.chase = some c)) :
    ∃ id, (id, some c) ∈ n.chases := by
  obtain ⟨t, there, chase⟩ := List.countP_pos_iff.mp some_there
  refine ⟨t.1, List.mem_map.mpr ⟨t, there, ?_⟩⟩
  rw [of_decide_eq_true chase]

private theorem silent_of_history {ms : List NodeMove} {e : PinEvent} (happened : n.history a ms = [e])
    (own : e.isWord = false) : n.Silent a ms ∧ n.history a ms ≠ [] := by
  rw [Silent, happened]
  refine ⟨?_, List.cons_ne_nil _ _⟩
  intro e' member
  rw [List.mem_singleton.mp member]
  exact own

theorem exists_event (sound : n.Sound) (busy : 0 < n.connectors a + n.retries a) :
    ∃ ms, n.Silent a ms ∧ n.history a ms ≠ [] := by
  rcases Nat.eq_zero_or_pos (n.connectors a) with none_in_flight | in_flight
  · have waiting : 0 < n.retries a := by omega
    obtain ⟨id, member⟩ := exists_chase _ waiting
    obtain ⟨ms, active, happened⟩ := exists_fire sound member
    exact ⟨ms, silent_of_history happened rfl⟩
  · obtain ⟨id, member⟩ := exists_chase _ in_flight
    obtain ⟨ms, connected, happened⟩ := exists_finish sound member
    exact ⟨ms, silent_of_history happened rfl⟩

/-- Handshakes with a peer that have made their call are no more than were under way or put off
before, and the words since then that roused the policy for pinned peers. -/
theorem outstanding_le_rousings (reached : n.Reachable) (a : RingAddress) (ms : List NodeMove) :
    (n.moved ms).outstanding a ≤
      n.connectors a + n.retries a + (n.history a ms).countP PinEvent.rouses := by
  have run := (passes_moved (a := a) reached.sound ms).run
  have bound : (n.moved ms).connectors a + (n.moved ms).retries a ≤ _ := run.load_le
  have calls := (n.moved ms).outstanding_le a
  change _ ≤ n.connectors a + n.retries a + _ at bound
  omega

def plain : Node := create (.floor 2) {} .empty false

/-- A peer is pinned shortly before the periodic check, and checked while the handshake still waits
for its reply. -/
def hastyCheck : List NodeMove :=
  [.switch true .managed, .step (.advance 3599000), .step (.pin (.floor 80)), .step (.poll 0),
    .step (.advance 1000), .beat .managed, .step (.poll 1)]

theorem outstanding_le_rousings_hasty :
    (plain.history (.floor 80) hastyCheck).countP PinEvent.rouses = 2 ∧
      (plain.moved hastyCheck).outstanding (.floor 80) ≤ 2 := by
  have reached : plain.Reachable := ⟨plain, [], ⟨rfl, rfl⟩, rfl⟩
  have bound := outstanding_le_rousings reached (.floor 80) hastyCheck
  have roused : (plain.history (.floor 80) hastyCheck).countP PinEvent.rouses = 2 := by
    decide +kernel
  have idle : plain.connectors (.floor 80) + plain.retries (.floor 80) = 0 := rfl
  rw [roused, idle] at bound
  exact ⟨roused, bound⟩

/-- Two handshakes with one pinned peer may wait for their replies at the same time. -/
theorem two_requests_outstanding :
    plain.Fresh ∧ (plain.moved hastyCheck).managed.active = true ∧
      (plain.moved hastyCheck).outstanding (.floor 80) = 2 := by
  refine ⟨⟨rfl, rfl⟩, ?_, ?_⟩
  · decide +kernel
  · decide +kernel

theorem stuck_iff_idle (sound : n.Sound) (a : RingAddress) :
    (∀ ms, n.Silent a ms → n.history a ms = []) ↔ n.connectors a = 0 ∧ n.retries a = 0 := by
  constructor
  · intro stuck
    by_contra busy
    obtain ⟨ms, quiet, happens⟩ := exists_event (a := a) sound (by omega)
    exact happens (stuck ms quiet)
  · rintro ⟨none_in_flight, none_waiting⟩ ms quiet
    have run := (passes_moved (a := a) sound ms).run
    have finishes := run.finishes_le quiet
    have events := run.length_le quiet
    change _ ≤ 3 * (n.connectors a + n.retries a) - _ at finishes
    change _ ≤ n.retries a + _ at events
    rw [none_in_flight, none_waiting] at finishes
    rw [none_waiting] at events
    exact List.eq_nil_of_length_eq_zero (by omega)

theorem three_attempts (sound : n.Sound) {ms : List NodeMove} (one : n.connectors a = 1)
    (none_put_off : n.retries a = 0) (off : n.managed.state? a = some .off)
    (unlucky : ∀ e ∈ n.history a ms, e.isUnlucky = true)
    (none_in_flight : (n.moved ms).connectors a = 0) (none_waiting : (n.moved ms).retries a = 0) :
    (n.history a ms).countP PinEvent.isFinish = 3 ∧
      (n.moved ms).managed.state? a = some .off := by
  have start : n.pursuit a = ⟨1, 0, some .off⟩ := Pursuit.ext one none_put_off off
  have lone : Pursuit.Lone (n.pursuit a) := by
    rw [start]
    exact .inFlight (by decide)
  obtain ⟨stop, used⟩ := (passes_moved (a := a) sound ms).run.lone unlucky lone
  have empty : ((n.moved ms).pursuit a).load = 0 := by
    change (n.moved ms).connectors a + (n.moved ms).retries a = 0
    omega
  have last := stop.eq_givenUp empty
  rw [last, start] at used
  change 0 + _ = 3 at used
  exact ⟨by omega, congrArg Pursuit.state last⟩

/-- Take a reachable node, and let nothing more be said about a peer. Then three handshakes with it
can still end for each handshake in flight and each retry, fewer after failed attempts, and pauses can
end only as often as that allows. Nothing more can happen exactly if no handshake is in flight and no
retry waits. A single handshake with a peer that is off, failing again and again while the policy is
on, makes three attempts, and then the peer is off. -/
theorem retries_run_out (reached : n.Reachable) (a : RingAddress) (ms : List NodeMove)
    (silent : n.Silent a ms) :
    (n.history a ms).countP PinEvent.isFinish ≤
      3 * (n.connectors a + n.retries a) - (n.managed.state? a).elim 0 PinState.rank ∧
    (n.history a ms).length ≤ n.retries a +
      2 * (3 * (n.connectors a + n.retries a) - (n.managed.state? a).elim 0 PinState.rank) ∧
    ((∀ more, (n.moved ms).Silent a more → (n.moved ms).history a more = []) ↔
      (n.moved ms).connectors a = 0 ∧ (n.moved ms).retries a = 0) ∧
    (n.connectors a = 1 → n.retries a = 0 → n.managed.state? a = some .off →
      (∀ e ∈ n.history a ms, e.isUnlucky = true) →
      (n.moved ms).connectors a = 0 → (n.moved ms).retries a = 0 →
      (n.history a ms).countP PinEvent.isFinish = 3 ∧ (n.moved ms).managed.state? a = some .off) := by
  have passes := passes_moved (a := a) reached.sound ms
  have finishes := passes.run.finishes_le silent
  have events := passes.run.length_le silent
  change _ + _ ≤ 3 * (n.connectors a + n.retries a) -
    (n.managed.state? a).elim 0 PinState.rank at finishes
  change (n.moved ms).retries a + _ ≤ n.retries a + _ at events
  refine ⟨by omega, by omega, stuck_iff_idle passes.sound a, ?_⟩
  intro one none_put_off off unlucky none_in_flight none_waiting
  exact three_attempts reached.sound one none_put_off off unlucky none_in_flight none_waiting

def pinning : List NodeMove := [.switch true .managed, .step (.pin (.floor 80))]

def noReplies : List NodeMove :=
  [0, 1, 2, 3, 4].flatMap fun id => [.step (.poll id), .step (.expire id), .step (.poll id)]

theorem retries_run_out_unanswered :
    (plain.moved pinning).Silent (.floor 80) noReplies ∧
      ((plain.moved pinning).history (.floor 80) noReplies).countP PinEvent.isFinish = 3 ∧
      ((plain.moved pinning).moved noReplies).managed.state? (.floor 80) = some .off := by
  have reached : (plain.moved pinning).Reachable := ⟨plain, pinning, ⟨rfl, rfl⟩, rfl⟩
  have silent : (plain.moved pinning).Silent (.floor 80) noReplies := by
    unfold Silent
    decide +kernel
  obtain ⟨-, -, -, lone⟩ := retries_run_out reached (.floor 80) noReplies silent
  exact ⟨silent, lone (by decide +kernel) (by decide +kernel) (by decide +kernel) (by decide +kernel)
    (by decide +kernel) (by decide +kernel)⟩

end

end Node

end RingOverlay

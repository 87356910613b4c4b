import RingOverlay.Proofs.Handshake.Responses
import RingOverlay.Proofs.Node.Discovery
import RingOverlay.Proofs.Node.Linking
import RingOverlay.Proofs.Node.Work
import RingOverlay.Proofs.Overlord.Discovery
/-!
Every move of a node is made of the small changes of its work. This says at once how often the
unstructured policy is called in a move, which moves may wake a policy, and which requests to link a
move may bring about without one.
-/

set_option autoImplicit false
set_option relaxedAutoImplicit false

namespace RingOverlay.Node

def feedCalls (feed : EventFeed) : Nat := if feed.missed ≠ 0 then 1 else feed.unread.length

def runningCalls (n : Node) (l : LoopTask) : Nat :=
  if l.stopping then 0
  else
    (beatsDue n.config.timing.heartbeatMs n.now l.nextBeat).1 * n.overlords.count .unstructured +
      feedCalls l.feed * n.overlords.count .unstructured

def loopCalls (n : Node) (l : LoopTask) : Nat :=
  if l.started then n.runningCalls l
  else if n.config.timing.heartbeatMs = 0 then 0
  else
    n.overlords.count .unstructured +
      n.start.runningCalls { l with started := true, feed := .fresh, nextBeat := n.now }

/-- How often the unstructured policy is told in a move to seek a link, or that a heartbeat is due, that
a link came up or was lost, or that it is to look up its links. -/
def calls (n : Node) : NodeMove → Nat
  | .activate k | .beat k | .resync k | .linkUp _ k | .linkDown _ k => [k].count .unstructured
  | .step .heartbeat => n.overlords.count .unstructured
  | .step (.read id) =>
    match n.task? id with
    | some (.drive l) => if l.feed.next?.isSome then n.overlords.count .unstructured else 0
    | _ => 0
  | .step (.poll id) =>
    match n.task? id with
    | some (.drive l) => n.loopCalls l
    | _ => 0
  | _ => 0

/-- Whether a move switches policies on: one is switched on by itself, or a loop that has just been
started begins by switching all of them on. -/
def wakes (n : Node) : NodeMove → Bool
  | .switch active _ => active
  | .step (.poll id) =>
    match n.task? id with
    | some (.drive l) => !l.started && n.config.timing.heartbeatMs != 0
    | _ => false
  | _ => false

/-- The requests to link that a move admits, or hands to a worker: one made directly, that of a connect
call, one for the reply to a handshake, and one that has been waiting for a worker to finish. -/
def asks (n : Node) : NodeMove → LinkRequest → Prop
  | .step (.submit r), s => s = r
  | .step (.dispatch method args), s =>
    n.methods.handlerFor method = .ok .connect ∧
      ∃ r, ConnectRequest.ofValue args = .ok r ∧ s = .ofMessage r
  | .step (.poll id), s =>
    (∃ h reply, n.task? id = some (.handshake h) ∧ h.owner.links = true ∧
      reply ∈ n.shownIn id (.step (.poll id)) ∧ s = .ofMessage reply) ∨
    ∃ k rest, n.task? id = some (.link (.keyed k) true) ∧ n.attempts.queue? k = some (s :: rest)
  | _, _ => False

section

variable {old : TaskId} {wakes : Prop} {asks : LinkRequest → Prop} {c : Nat} {n m k : Node}
  {id : TaskId} {t u : Task}

/-! Polls. -/

variable {h : HandshakeTask}

theorem works_turn (h : HandshakeTask) (n : Node)
    (asked : ∀ reply, h.owner.links = true → h.calling = true →
      firstReply? n.here h.inbox = some reply → asks (.ofMessage reply)) :
    Works old wakes asks 0 n (h.turn n.here (n.shouldAbort h.abort) (handleReply h.owner) n).2 := by
  by_cases links : h.owner.links = true
  · rw [h.turn_state (handleReply_content links)]
    split
    · rename_i calling
      cases first : firstReply? n.here h.inbox with
      | none => exact .nothing n
      | some reply =>
        rw [Option.elim_some, handleReply_links links]
        exact .submit n (asked reply links calling first)
    · exact .nothing n
  · refine h.turn_keeps (R := Works old wakes asks 0) .nothing (fun _ _ _ => .trans)
      (fun reply m => ?_) _ n
    -- Other owners only take note of what they are shown.
    generalize h.owner = owner at links
    cases owner with
    | unstructured | managed => exact absurd rfl links
    | outside policy =>
      cases policy with
      | collect | first => exact .tell m rfl
      | link => exact absurd rfl links

theorem works_managedFinished (n : Node) (r : HandshakeReport) :
    Works old wakes asks 0 n (n.managedFinished r) := by
  unfold managedFinished
  split
  · exact .nothing n
  · rename_i a _
    have active : (n.managed.finish a (n.isConnected a)).2.active = n.managed.active := by
      unfold ManagedOverlord.finish
      split <;> rfl
    have noted : Works old wakes asks 0 n
        { n with managed := (n.managed.finish a (n.isConnected a)).2 } :=
      works_pins n active fun b unpinned =>
        Or.inl (ManagedOverlord.state?_finish_eq_none (n.isConnected a) unpinned)
    simp only
    split
    · exact noted.trans (works_spawn _ rfl)
    · exact noted

theorem Numbered.endHandshake (numbered : n.Numbered) (early : id < old)
    (found : n.task? id = some (.handshake h)) (r : HandshakeReport) :
    Works old wakes asks 0 n ((n.endTask id).finishHandshake h.owner r) := by
  cases own : h.owner with
  | unstructured =>
    refine .endWalk n early ⟨_, mem_of_task? found⟩ fun t member => ?_
    rw [numbered.eq_of_mem found member]
    exact decide_eq_true own
  | managed =>
    have free : (Task.handshake h).isFree = true := by simp [Task.isFree, own]
    exact (numbered.finish early found free).trans (works_managedFinished _ r)
  | outside policy =>
    have free : (Task.handshake h).isFree = true := by simp [Task.isFree, own]
    exact (numbered.finish early found free).trans (.tell _ rfl)

theorem works_pollHandshake (numbered : n.Numbered) (early : id < old)
    (found : n.task? id = some (.handshake h))
    (asked : ∀ reply, h.owner.links = true → h.calling = true →
      firstReply? n.here h.inbox = some reply → asks (.ofMessage reply)) :
    Works old wakes asks 0 n (n.pollHandshake id h) := by
  have listened : Works old wakes asks 0 n
      (h.turn n.here (n.shouldAbort h.abort) (handleReply h.owner) n).2 := works_turn h n asked
  have there := task?_turn found
  have apart : ∀ r ∈ (h.turn n.here (n.shouldAbort h.abort) (handleReply h.owner) n).1.responses,
      r ∈ h.exchange.responses ∨ r.target.address ≠ n.here := fun r => Handshake.away_of_mem_turn
  have request : (h.turn n.here (n.shouldAbort h.abort) (handleReply h.owner) n).1.request =
      h.exchange.request := h.request_turn ..
  cases turned : (h.turn n.here (n.shouldAbort h.abort) (handleReply h.owner) n).1 with
  | call k =>
    rw [turned] at apart request
    rw [pollHandshake_call turned]
    have invoked : Works old wakes asks 0 n (n.act (.invoke id h.exchange.target h.exchange.request)) :=
      .tell n rfl
    have timed : Works old wakes asks 0 n
        ((n.act (.invoke id h.exchange.target h.exchange.request)).wakeAt (n.now + h.timeoutMs) id) :=
      invoked.trans (works_scenery rfl)
    exact timed.trans ((timed.kept.numbered numbered).goOn (u := .handshake h) found
      (.handshake rfl apart request))
  | rest k =>
    rw [turned] at apart request
    rw [pollHandshake_rest turned]
    refine listened.trans ((listened.kept.numbered numbered).goOn there ?_)
    rw [listened.kept.here]
    exact .handshake rfl apart request
  | done r =>
    rw [pollHandshake_done turned]
    exact listened.trans ((listened.kept.numbered numbered).endHandshake early there r)

theorem works_pollLink (numbered : n.Numbered) (early : id < old) {role : LinkRole} {ended : Bool}
    (found : n.task? id = some (.link role ended))
    (asked : ∀ k r rest, role = .keyed k → ended = true → n.attempts.queue? k = some (r :: rest) →
      asks r) : Works old wakes asks 0 n (n.pollLink id role ended) := by
  cases ended with
  | false => exact .nothing n
  | true =>
    cases role with
    | keyed k =>
      refine .worker n early (fun t member => numbered.eq_of_mem found member) fun r rest waiting => ?_
      exact asked k r rest rfl rfl waiting
    | untargeted => exact numbered.finish early found rfl
    | leaf =>
      refine (numbered.finish early found rfl).trans (.trans ?_ (works_activateLeaf _))
      exact works_leaf _ rfl

theorem works_pollRetry (numbered : n.Numbered) (early : id < old) {a : RingAddress}
    {pausing due : Bool} (found : n.task? id = some (.retry a pausing due)) :
    Works old wakes asks 0 n (n.pollRetry id a pausing due) := by
  simp only [pollRetry]
  split
  · have ended : Works old wakes asks 0 n (n.endTask id) := numbered.finish early found rfl
    split
    · rename_i wanted
      exact ended.trans (.seekPin _ (Bool.and_eq_true_iff.mp wanted).1)
    · exact ended
  · split
    · exact .nothing n
    · have woken : Works old wakes asks 0 n (n.wakeAt (n.now + n.config.managed.retryDelayMs) id) :=
        works_scenery rfl
      exact woken.trans ((woken.kept.numbered numbered).goOn (u := .retry a pausing due) found .retry)

theorem works_learn (n : Node) (r : DiscoveryReply) : Works old wakes asks 0 n (n.learn r) := by
  unfold learn
  split
  · rename_i accepted
    have away : r.address ≠ n.here := by
      have parts := Bool.and_eq_true_iff.mp accepted
      exact bne_iff_ne.mp parts.2
    have known : Works old wakes asks 0 n (n.addRemote r.transports) := works_scenery rfl
    refine known.trans (works_found (n.addRemote r.transports) rfl fun a member => ?_)
    rcases DiscoveryOverlord.mem_insertAddress.mp member with rfl | old
    · exact Or.inr away
    · exact Or.inl old
  · exact .nothing n

theorem works_inbox (rs : List DiscoveryReply) (n : Node) :
    Works old wakes asks 0 n (rs.foldl learn n) := by
  induction rs generalizing n with
  | nil => exact .nothing n
  | cons r rs ih => exact (works_learn n r).trans (ih _)

theorem works_pollQuery (numbered : n.Numbered) (early : id < old) {q : QueryTask}
    (found : n.task? id = some (.query q)) :
    Works old wakes asks 0 n (n.pollQuery id q) := by
  have learned : Works old wakes asks 0 n (q.inbox.foldl learn n) := works_inbox q.inbox n
  have there : (q.inbox.foldl learn n).task? id = some (.query q) := by
    rw [foldl_learn]
    exact found
  refine learned.trans ?_
  have later := learned.kept.numbered numbered
  simp only [pollQuery]
  split
  · refine (later.finish early there rfl).trans ?_
    exact works_found _ rfl fun _ => Or.inl
  · exact later.goOn there .query

theorem works_heartbeats (beats : Nat) (n : Node) :
    Works old wakes asks (beats * n.overlords.count .unstructured) n
      (Nat.repeat heartbeat beats n) := by
  induction beats with
  | zero =>
    rw [Nat.zero_mul]
    exact .nothing n
  | succ beats ih =>
    rw [Nat.succ_mul]
    refine ih.chain ?_
    rw [← ih.kept.overlords]
    exact works_heartbeat _

theorem works_events (es : List TableEvent) (n : Node) :
    Works old wakes asks (es.length * n.overlords.count .unstructured) n (es.foldl handleEvent n) := by
  induction es generalizing n with
  | nil =>
    rw [List.length_nil, Nat.zero_mul]
    exact .nothing n
  | cons e es ih =>
    have first : Works old wakes asks _ n (n.handleEvent e) := works_handleEvent n e
    rw [List.length_cons, Nat.succ_mul, Nat.add_comm]
    refine first.chain ?_
    rw [← first.kept.overlords]
    exact ih _

theorem works_handleFeed (n : Node) (feed : EventFeed) :
    Works old wakes asks (feedCalls feed * n.overlords.count .unstructured) n (n.handleFeed feed) := by
  unfold handleFeed feedCalls
  split
  · rw [Nat.one_mul]
    exact works_resync n
  · exact works_events feed.unread n

theorem works_pollRunning (early : id < old) (there : id < n.created) (drives : n.Drives id)
    (l : LoopTask) : Works old wakes asks (n.runningCalls l) n (n.pollRunning id l) := by
  unfold pollRunning runningCalls
  split
  · have ended : Works old wakes asks 0 n (n.endTask id) := by
      refine .finish n early fun t member => ?_
      cases t with
      | drive => rfl
      | handshake | link | retry | query => cases drives _ member
    exact ended.trans (works_stop _)
  · generalize beatsDue n.config.timing.heartbeatMs n.now l.nextBeat = due
    obtain ⟨beats, nextBeat⟩ := due
    simp only
    have beaten : Works old wakes asks _ n (Nat.repeat heartbeat beats n) := works_heartbeats beats n
    generalize Nat.repeat heartbeat beats n = m at beaten
    have read : Works old wakes asks _ m (m.handleFeed l.feed) := works_handleFeed m l.feed
    rw [beaten.kept.overlords] at read
    have woken (m : Node) :
        Works old wakes asks 0 m (if beats = 0 then m else m.wakeAt nextBeat id) := by
      split
      · exact .nothing m
      · exact works_scenery rfl
    have whole := (beaten.chain read).andThen (woken _)
    exact whole.andThen ((whole.kept.drives there drives).goOn _)

theorem works_pollLoop (numbered : n.Numbered) (early : id < old) {l : LoopTask}
    (found : n.task? id = some (.drive l))
    (woken : l.started = false → n.config.timing.heartbeatMs ≠ 0 → wakes) :
    Works old wakes asks (n.loopCalls l) n (n.pollLoop id l) := by
  have member := mem_of_task? found
  have there := numbered.given id (List.mem_map_of_mem member)
  have drives := numbered.drives member rfl
  unfold pollLoop loopCalls
  split
  · exact works_pollRunning early there drives l
  · rename_i resting
    split
    · exact numbered.finish early found rfl
    · rename_i period
      have begun : Works old wakes asks _ n n.start :=
        works_start n (woken (Bool.not_eq_true _ ▸ resting) period)
      refine begun.chain (works_pollRunning early ?_ ?_ _)
      · exact Nat.lt_of_lt_of_le there begun.kept.created
      · exact begun.kept.drives there drives

theorem works_readNext (numbered : n.Numbered) (id : TaskId) :
    Works old wakes asks (n.calls (.step (.read id))) n (n.readNext id) := by
  simp only [readNext, calls]
  cases found : n.task? id with
  | none => exact .nothing n
  | some t =>
    cases t with
    | handshake | link | retry | query => exact .nothing n
    | drive l =>
      have on (l' : LoopTask) : Works old wakes asks 0 n (n.setTask id (.drive l')) :=
        numbered.goOn found .drive
      simp only
      cases read : l.feed.next? with
      | none => exact .nothing n
      | some next =>
        obtain ⟨item, feed⟩ := next
        rw [Option.isSome_some, if_pos rfl]
        cases item with
        | event e =>
          refine (on { l with feed }).trans ?_
          exact works_handleEvent (n.setTask id (.drive { l with feed })) e
        | lagged count =>
          refine (on { l with feed := .fresh }).trans ?_
          exact works_resync (n.setTask id (.drive { l with feed := .fresh }))

/-! What comes in. -/

theorem works_dispatch (n : Node) (method : String) (args : Value)
    (asked : ∀ r, n.methods.handlerFor method = .ok .connect → ConnectRequest.ofValue args = .ok r →
      asks (.ofMessage r)) : Works old wakes asks 0 n (n.dispatch method args).2 := by
  unfold dispatch
  split
  · exact .nothing n
  · rename_i connects
    unfold answerConnect
    split
    · exact .nothing n
    · rename_i r decoded
      have linked : Works old wakes asks 0 n (n.linkTo r).2 := .submit n (asked r connects decoded)
      simp only [answerRequest]
      split
      · exact .nothing n
      · split <;> simp_all
  · exact .nothing n

theorem works_expire (numbered : n.Numbered) (id : TaskId) :
    Works old wakes asks 0 n (n.expire id) := by
  unfold expire
  split
  · rename_i found
    exact numbered.resume found (.handshake rfl (fun _ => Or.inl) rfl)
  · rename_i found
    exact numbered.resume found .retry
  · exact works_wake n id
  · exact .nothing n

theorem works_deliver (numbered : n.Numbered) (id : TaskId) (e : RpcEvent) :
    Works old wakes asks 0 n (n.deliver id e).2 := by
  unfold deliver
  split
  · rename_i found
    split
    · exact .nothing n
    · exact numbered.resume found (.handshake rfl (fun _ => Or.inl) rfl)
  · exact .nothing n

theorem works_hangUp (numbered : n.Numbered) (id : TaskId) :
    Works old wakes asks 0 n (n.hangUp id) := by
  unfold hangUp
  split
  · rename_i found
    exact numbered.resume found (.handshake rfl (fun _ => Or.inl) rfl)
  · exact .nothing n

theorem works_finishLink (numbered : n.Numbered) (id : TaskId) :
    Works old wakes asks 0 n (n.finishLink id).2 := by
  unfold finishLink
  split
  · rename_i found
    exact numbered.resume found .link
  · exact .nothing n

theorem works_deliverFound (numbered : n.Numbered) (id : TaskId) (r : DiscoveryReply) :
    Works old wakes asks 0 n (n.deliverFound id r).2 := by
  unfold deliverFound
  split
  · rename_i found
    split
    · exact numbered.resume found .query
    · exact .nothing n
  · exact .nothing n

theorem works_endFound (numbered : n.Numbered) (id : TaskId) :
    Works old wakes asks 0 n (n.endFound id).2 := by
  unfold endFound
  split
  · rename_i found
    simp only
    split
    · exact .nothing n
    · exact numbered.resume found .query
  · exact .nothing n

theorem works_pin (n : Node) (a : RingAddress) : Works old wakes asks 0 n (n.pin a) := by
  have active : (n.managed.pin n.here a (n.isConnected a)).2.active = n.managed.active := by
    unfold ManagedOverlord.pin
    split <;> rfl
  have noted : Works old wakes asks 0 n
      { n with managed := (n.managed.pin n.here a (n.isConnected a)).2 } := by
    refine works_pins n active fun b unpinned => ?_
    by_cases own : b = n.here
    · subst own
      left
      by_cases same : n.here = a
      · subst same
        rw [ManagedOverlord.pin, if_pos (by simp)]
        exact unpinned
      · rw [ManagedOverlord.state?_pin_of_ne same]
        exact unpinned
    · exact Or.inr own
  simp only [pin]
  split
  · rename_i go
    have on : n.managed.active = true := by
      unfold ManagedOverlord.pin at go
      split at go
      · cases go
      · exact (Bool.and_eq_true_iff.mp go).1
    exact noted.trans (.seekPin _ (active.trans on))
  · exact noted

theorem works_unpin (n : Node) (a : RingAddress) : Works old wakes asks 0 n (n.unpin a).2 := by
  have noted : Works old wakes asks 0 n { n with managed := (n.managed.unpin a).2 } :=
    works_pins n rfl fun b unpinned => Or.inl (ManagedOverlord.state?_unpin_eq_none a unpinned)
  simp only [unpin]
  split
  · split
    · exact noted.trans (.tell _ rfl)
    · exact noted
  · exact noted

theorem works_addLink (numbered : n.Numbered) (link : Connection) :
    Works old wakes asks 0 n (n.step (.add link)) := by
  simp only [step, addLink]
  cases n.table.add link with
  | error => exact .nothing n
  | ok table =>
    have changed : Works old wakes asks 0 n { n with table } := works_scenery rfl
    exact changed.trans (works_publish (changed.kept.numbered numbered) _)

theorem works_removeLinks (numbered : n.Numbered) (e : EdgeId) :
    Works old wakes asks 0 n (n.removeLinks e).2 := by
  have told (gone : List Connection) (m : Node) (marked : m.Numbered) :
      Works old wakes asks 0 m (gone.foldl (fun n c => n.publish (.disconnected c)) m) := by
    induction gone generalizing m with
    | nil => exact .nothing m
    | cons link gone ih =>
      have first : Works old wakes asks 0 m (m.publish (.disconnected link)) := works_publish marked _
      exact first.trans (ih _ (first.kept.numbered marked))
  have changed : Works old wakes asks 0 n { n with table := (n.table.detach e).2 } := works_scenery rfl
  exact changed.trans (told _ _ (changed.kept.numbered numbered))

end

section

variable {n : Node}

theorem works_poll (numbered : n.Numbered) (id : TaskId) :
    Works n.created (n.wakes (.step (.poll id)) = true) (n.asks (.step (.poll id)))
      (n.calls (.step (.poll id))) n (n.poll id) := by
  simp only [poll, calls]
  cases found : n.task? id with
  | none => exact .nothing n
  | some t =>
    have early := numbered.given id (List.mem_map_of_mem (mem_of_task? found))
    cases t with
    | handshake h =>
      refine works_pollHandshake numbered early found fun reply links calling first => Or.inl ?_
      have shown := shownIn_poll found links
      rw [if_pos calling, first] at shown
      exact ⟨h, reply, found, links, by rw [shown]; exact List.mem_singleton.mpr rfl, rfl⟩
    | link role ended =>
      refine works_pollLink numbered early found fun k r rest keyed ceased waiting => Or.inr ?_
      subst keyed ceased
      exact ⟨k, rest, found, waiting⟩
    | retry a pausing due => exact works_pollRetry numbered early found
    | query q => exact works_pollQuery numbered early found
    | drive l =>
      refine works_pollLoop numbered early found fun resting period => ?_
      simp [wakes, found, resting, period]

theorem works_move (numbered : n.Numbered) (m : NodeMove) :
    Works n.created (n.wakes m = true) (n.asks m) (n.calls m) n (n.move m) := by
  cases m with
  | run => exact works_spawn n rfl
  | shutdown => exact works_shutdown numbered
  | activate k => exact works_activate n k
  | switch active k => exact works_setActive n id k
  | beat k => exact works_beat n k
  | resync k => exact works_resyncOne n k
  | linkUp link k => exact works_linkUp n link k
  | linkDown link k => exact works_linkDown n link k
  | step s =>
    cases s with
    | add link => exact works_addLink numbered link
    | removeEdge e => exact works_removeLinks numbered e
    | read id => exact works_readNext numbered id
    | heartbeat => exact works_heartbeat n
    | pin a => exact works_pin n a
    | unpin a => exact works_unpin n a
    | poll id => exact works_poll numbered id
    | expire id => exact works_expire numbered id
    | deliver id e => exact works_deliver numbered id e
    | hangUp id => exact works_hangUp numbered id
    | finishLink id => exact works_finishLink numbered id
    | deliverFound id r => exact works_deliverFound numbered id r
    | endFound id => exact works_endFound numbered id
    | connect policy target request abort timeoutMs => exact works_spawn n rfl
    | submit r => exact .submit n rfl
    | dispatch method args =>
      exact works_dispatch n method args fun r connects decoded => ⟨connects, r, decoded, rfl⟩
    | route incoming p => exact works_scenery rfl
    | advance ms => exact works_scenery rfl

theorem Numbered.moved (numbered : n.Numbered) (ms : List NodeMove) : (n.moved ms).Numbered := by
  induction ms generalizing n with
  | nil => exact numbered
  | cons m ms ih => exact ih ((works_move numbered m).kept.numbered numbered)

theorem works_create (old : TaskId) (wakes : Prop) (asks : LinkRequest → Prop) (here : RingAddress)
    (config : OverlayConfig) (table : ConnectionTable) (channel : Bool) :
    ∃ overlords methods, Works old wakes asks 0 { bare here config table with overlords, methods }
      (create here config table channel) := by
  have pins {f : Node → String → Node} (each : ∀ n s, Works old wakes asks 0 n (f n s))
      (names : List String) (n : Node) : Works old wakes asks 0 n (names.foldl f n) := by
    induction names generalizing n with
    | nil => exact .nothing n
    | cons name names ih => exact (each n name).trans (ih _)
  refine ⟨_, _, pins (fun n name => ?_) config.managed.pinned _⟩
  cases RingAddress.ofText name with
  | ok a => exact works_pin n a
  | error e => exact .nothing n

theorem numbered_of_no_tasks (tasks : n.tasks = []) : n.Numbered := by
  refine ⟨?_, fun i member => ?_⟩
  · rw [tasks]
    exact List.nodup_nil
  · rw [tasks] at member
    cases member

theorem numbered_create (here : RingAddress) (config : OverlayConfig) (table : ConnectionTable)
    (channel : Bool) : (create here config table channel).Numbered := by
  obtain ⟨overlords, methods, pinned⟩ := works_create 0 False (fun _ => False) here config table channel
  exact pinned.kept.numbered (numbered_of_no_tasks rfl)

end

end RingOverlay.Node

import RingOverlay.Proofs.Handshake.Responses
import RingOverlay.Proofs.Node.Words
/-!
What the tasks of a node do with the pursuit of a pinned peer, and that a node does nothing else with
it: every move of a node is, for the pursuit, the events that the move stands for.
-/

set_option autoImplicit false
set_option relaxedAutoImplicit false

namespace RingOverlay

namespace Node

section

variable {a b : RingAddress} {n m : Node} {id : TaskId} {t : Task} {c : Option Chase}

theorem pursuit_endTask_of_ne (sound : n.Sound) (member : (id, c) ∈ n.chases)
    (noConnector : c ≠ some (.connector a)) (noRetry : c ≠ some (.retry a)) :
    (n.endTask id).pursuit a = n.pursuit a := by
  have connectors := sound.countP_endTask member (.connector a)
  have retries := sound.countP_endTask member (.retry a)
  rw [if_neg noConnector] at connectors
  rw [if_neg noRetry] at retries
  exact Pursuit.ext connectors.symm retries.symm rfl

theorem passes_endTask_idle (sound : n.Sound) (member : (id, none) ∈ n.chases) :
    Passes a [] n (n.endTask id) :=
  .of_eq (sound.endTask id) (pursuit_endTask_of_ne sound member nofun nofun)

private theorem pursuit_putOff (n : Node) (go : Bool) (managed : ManagedOverlord)
    (a b : RingAddress) :
    (if go then { n with managed }.spawn (.retry b false false) else { n with managed }).pursuit a =
      ⟨n.connectors a, n.retries a + if go ∧ b = a then 1 else 0, managed.state? a⟩ := by
  cases go with
  | false =>
    rw [if_neg fun h : false = true ∧ b = a => Bool.false_ne_true h.1]
    rfl
  | true =>
    have connectors := countP_spawn { n with managed } (.retry b false false) (.connector a)
    have retries := countP_spawn { n with managed } (.retry b false false) (.retry a)
    simp only [Task.chase, Option.some_inj, reduceCtorEq, if_false, Nat.add_zero,
      Chase.retry.injEq] at connectors retries
    simp only [true_and]
    exact Pursuit.ext connectors retries rfl

private theorem sound_putOff {managed : ManagedOverlord} (sound : n.Sound)
    (distinct : managed.Distinct) (go : Bool) (b : RingAddress) :
    (if go then { n with managed }.spawn (.retry b false false) else { n with managed }).Sound := by
  have changed : { n with managed }.Sound := ⟨sound.numbered, sound.unique, distinct⟩
  split
  · exact changed.spawn _
  · exact changed

private theorem managedFinished_eq {r : HandshakeReport} (n : Node)
    (named : r.target.exactAddress = some b) : n.managedFinished r =
      if (n.managed.finish b (n.isConnected b)).1 then
        { n with managed := (n.managed.finish b (n.isConnected b)).2 }.spawn (.retry b false false)
      else { n with managed := (n.managed.finish b (n.isConnected b)).2 } := by
  simp only [managedFinished, named]

private theorem pursuit_managedFinished {r : HandshakeReport} (n : Node)
    (named : r.target.exactAddress = some a) : (n.managedFinished r).pursuit a =
      Pursuit.finish ⟨n.connectors a + 1, n.retries a, n.managed.state? a⟩ (n.isConnected a) := by
  rw [managedFinished_eq n named, pursuit_putOff]
  cases stands : n.managed.state? a with
  | none =>
    rw [ManagedOverlord.finish_of_none stands]
    simp [Pursuit.finish, stands]
  | some s =>
    rw [ManagedOverlord.finish_of_some stands, ManagedOverlord.state?_setState_self, stands]
    simp [Pursuit.finish]

theorem passes_managedFinished {r : HandshakeReport} (sound : n.Sound)
    (member : (id, some (.connector b)) ∈ n.chases) (named : r.target.exactAddress = some b) :
    Passes a (if b = a then [.finish (n.isConnected a)] else []) n
      ((n.endTask id).managedFinished r) := by
  have ended := sound.endTask id
  have sound' : ((n.endTask id).managedFinished r).Sound := by
    rw [managedFinished_eq _ named]
    exact sound_putOff ended (ended.distinct.finish ..) _ b
  by_cases about : b = a
  · subst about
    have connectors := sound.countP_endTask member (.connector b)
    have retries := sound.countP_endTask member (.retry b)
    rw [if_pos rfl] at connectors
    simp only [Option.some_inj, reduceCtorEq, if_false, Nat.add_zero] at retries
    have before : n.pursuit b = ⟨(n.endTask id).connectors b + 1, (n.endTask id).retries b,
        (n.endTask id).managed.state? b⟩ := Pursuit.ext connectors retries rfl
    refine ⟨sound', ?_⟩
    rw [if_pos rfl, before, pursuit_managedFinished _ named]
    exact .single (.finish _ (Nat.succ_pos _))
  · rw [if_neg about]
    refine .of_eq sound' ?_
    have same := pursuit_endTask_of_ne (a := a) sound member (by simpa using about) nofun
    rw [managedFinished_eq _ named, pursuit_putOff, if_neg fun h => about h.2,
      ManagedOverlord.state?_finish_of_ne (Ne.symm about)]
    exact same

private theorem pursuit_seek (n : Node) (go : Bool) (a b : RingAddress) :
    (if go then n.connectPinned b else n).pursuit a =
      { n.pursuit a with connectors := n.connectors a + if go ∧ b = a then 1 else 0 } := by
  cases go with
  | false =>
    rw [if_neg fun h : false = true ∧ b = a => Bool.false_ne_true h.1]
    rfl
  | true =>
    simp only [true_and]
    exact pursuit_connectPinned n a b

private theorem sound_seek (sound : n.Sound) (go : Bool) (b : RingAddress) :
    (if go then n.connectPinned b else n).Sound := by
  split
  · exact sound.spawn _
  · exact sound

private theorem wantsRetry_eq (o : ManagedOverlord) (a : RingAddress) :
    o.wantsRetry a = (o.active && (o.state? a).any PinState.isAttempt) := by
  unfold ManagedOverlord.wantsRetry
  cases o.state? a <;> rfl

private theorem passes_fire (sound : n.Sound) (member : (id, some (.retry b)) ∈ n.chases) :
    Passes a (if b = a then [.fire n.managed.active] else []) n
      (if n.managed.wantsRetry b then (n.endTask id).connectPinned b else n.endTask id) := by
  have sound' := sound_seek (sound.endTask id) (n.managed.wantsRetry b) b
  by_cases about : b = a
  · subst about
    have connectors := sound.countP_endTask member (.connector b)
    have retries := sound.countP_endTask member (.retry b)
    rw [if_pos rfl] at retries
    simp only [Option.some_inj, reduceCtorEq, if_false, Nat.add_zero] at connectors
    have before : n.pursuit b = ⟨(n.endTask id).connectors b, (n.endTask id).retries b + 1,
        n.managed.state? b⟩ := Pursuit.ext connectors retries rfl
    have after : (if n.managed.wantsRetry b then (n.endTask id).connectPinned b
        else n.endTask id).pursuit b = (n.pursuit b).fire n.managed.active := by
      rw [pursuit_seek, before, wantsRetry_eq]
      simp only [and_true]
      rfl
    refine ⟨sound', ?_⟩
    rw [if_pos rfl, after]
    refine .single (.fire _ ?_)
    rw [before]
    exact Nat.succ_pos _
  · rw [if_neg about]
    refine .of_eq sound' ?_
    rw [pursuit_seek, if_neg fun h => about h.2]
    exact pursuit_endTask_of_ne sound member nofun (by simpa using about)

theorem passes_pollRetry {pausing due : Bool} (sound : n.Sound)
    (found : n.task? id = some (.retry b pausing due)) :
    Passes a (if b = a ∧ due then [.fire n.managed.active] else []) n
      (n.pollRetry id b pausing due) := by
  have member : (id, some (.retry b)) ∈ n.chases := mem_chases found
  cases due with
  | false =>
    have quiet : ¬ (b = a ∧ false = true) := fun h => Bool.false_ne_true h.2
    rw [if_neg quiet]
    simp only [pollRetry, Bool.false_eq_true, if_false]
    split
    · exact ⟨sound, .nil _⟩
    · refine (((beside_wakeAt ..).trans (beside_setTask ?_)).leads sound).toPasses
      intro c other
      exact sound.eq_of_mem other member
  | true =>
    simp only [and_true]
    exact passes_fire sound member

theorem chase_congr {h : HandshakeTask} {h' : Handshake}
    (target : h'.exchange.target = h.exchange.target) :
    (Task.handshake { h with toHandshake := h' }).chase = (Task.handshake h).chase := by
  simp only [Task.chase, target]

private theorem beside_finishHandshake {owner : HandshakeOwner} (other : owner ≠ .managed) (n : Node)
    (r : HandshakeReport) : Beside n (n.finishHandshake owner r) := by
  cases owner with
  | unstructured =>
    simp only [finishHandshake, unstructuredFinished]
    split
    · refine .trans ?_ (beside_activateUnstructured _)
      exact .of_same rfl rfl rfl rfl rfl rfl rfl
    · exact .of_same rfl rfl rfl rfl rfl rfl rfl
  | managed => exact absurd rfl other
  | outside policy => exact beside_act ..

private theorem passes_done {h : HandshakeTask} {r : HandshakeReport} (sound : n.Sound)
    (member : (id, (Task.handshake h).chase) ∈ n.chases) (target : r.target = h.exchange.target) :
    Passes a (if (Task.handshake h).chase = some (.connector a) then [.finish (n.isConnected a)] else [])
      n ((n.endTask id).finishHandshake h.owner r) := by
  by_cases own : h.owner = .managed
  · have chase : (Task.handshake h).chase = h.exchange.target.exactAddress.map .connector :=
      if_pos own
    rw [chase] at member ⊢
    rw [own]
    cases named : h.exchange.target.exactAddress with
    | none =>
      rw [named] at member
      have kept : (n.endTask id).finishHandshake .managed r = n.endTask id := by
        simp only [finishHandshake, managedFinished, target, named]
      rw [kept]
      exact passes_endTask_idle sound member
    | some b =>
      rw [named] at member
      have finished := passes_managedFinished (a := a) sound member (target ▸ named)
      simp only [Option.map_some, Option.some_inj, Chase.connector.injEq]
      exact finished
  · have chase : (Task.handshake h).chase = none := if_neg own
    rw [chase] at member ⊢
    have ended := passes_endTask_idle (a := a) sound member
    have told := beside_finishHandshake own (n.endTask id) r
    exact ended.trans (told.leads ended.sound).toPasses

theorem passes_pollHandshake {h : HandshakeTask} (sound : n.Sound)
    (found : n.task? id = some (.handshake h)) :
    Passes a (n.handshakeEvents a h) n (n.pollHandshake id h) := by
  have member : (id, (Task.handshake h).chase) ∈ n.chases := mem_chases found
  have target : (h.turn n.here (n.shouldAbort h.abort) (handleReply h.owner) n).1.target =
      h.exchange.target := h.target_turn ..
  have heard := beside_turn h n
  simp only [handshakeEvents, pollHandshake]
  generalize h.turn n.here (n.shouldAbort h.abort) (handleReply h.owner) n = turned at *
  obtain ⟨turn, m⟩ := turned
  have going := heard.leads (a := a) sound
  have goes (h' : Handshake) (same : h'.exchange.target = h.exchange.target) :
      ∀ c, (id, c) ∈ m.chases → c = (Task.handshake { h with toHandshake := h' }).chase := by
    intro c other
    rw [chase_congr same]
    exact going.sound.eq_of_mem other (heard.kept _ member)
  cases turn with
  | call h' =>
    have called := (beside_act m (.invoke id h.exchange.target h.exchange.request)).trans
      (beside_wakeAt _ (m.now + h.timeoutMs) id)
    have rests := called.trans (beside_setTask (goes h' target))
    simp only [ite_self]
    exact (going.trans (rests.leads going.sound)).toPasses
  | rest h' =>
    have rests := beside_setTask (goes h' target)
    simp only [ite_self]
    exact (going.trans (rests.leads going.sound)).toPasses
  | done r =>
    have table : m.table = n.table := heard.table
    have connected : m.isConnected a = n.isConnected a := by simp only [isConnected, table]
    have ended := passes_done (a := a) going.sound (heard.kept _ member) target
    rw [connected] at ended
    exact going.toPasses.trans ended

theorem passes_pollLink {role : LinkRole} {ended : Bool} (sound : n.Sound)
    (found : n.task? id = some (.link role ended)) :
    Passes a [] n (n.pollLink id role ended) := by
  unfold pollLink
  split
  · exact ⟨sound, .nil _⟩
  · have gone := passes_endTask_idle (a := a) sound (mem_chases found)
    refine gone.trans ?_
    cases role with
    | keyed k => exact ((beside_workerFinished ..).leads gone.sound).toPasses
    | untargeted => exact ⟨gone.sound, .nil _⟩
    | leaf =>
      refine (Beside.leads ?_ gone.sound).toPasses
      refine .trans ?_ (beside_activateLeaf _)
      exact .of_same rfl rfl rfl rfl rfl rfl rfl

theorem passes_pollQuery {q : QueryTask} (sound : n.Sound)
    (found : n.task? id = some (.query q)) : Passes a [] n (n.pollQuery id q) := by
  have learned : Beside n (q.inbox.foldl learn n) := .foldl beside_learn q.inbox n
  have sound' := learned.sound sound
  have member := learned.kept _ (mem_chases found)
  refine (learned.leads sound).toPasses.trans ?_
  simp only [pollQuery]
  split
  · have ended := passes_endTask_idle (a := a) sound' member
    refine ended.trans (Beside.leads ?_ ended.sound).toPasses
    exact .of_same rfl rfl rfl rfl rfl rfl rfl
  · refine (Beside.leads (beside_setTask ?_) sound').toPasses
    intro c other
    exact sound'.eq_of_mem other member

private theorem leads_setIdle (sound : n.Sound) (member : (id, none) ∈ n.chases)
    (idle : t.chase = none) : Leads a [] n (n.setTask id t) := by
  refine Beside.leads (beside_setTask ?_) sound
  intro c other
  rw [idle]
  exact sound.eq_of_mem other member

private theorem feedEvents_congr (overlords : m.overlords = n.overlords) (feed : EventFeed) :
    m.feedEvents a feed = n.feedEvents a feed := by
  simp only [feedEvents, told, overlords]

theorem passes_pollRunning {l : LoopTask} (sound : n.Sound) (member : (id, none) ∈ n.chases) :
    Passes a (n.runningEvents a l) n (n.pollRunning id l) := by
  unfold runningEvents pollRunning
  split
  · have ended := passes_endTask_idle (a := a) sound member
    exact ended.trans (leads_stop ended.sound).toPasses
  · generalize beatsDue n.config.timing.heartbeatMs n.now l.nextBeat = due
    obtain ⟨beats, nextBeat⟩ := due
    have beaten := leads_heartbeats (a := a) sound beats
    have read := leads_handleFeed (a := a) beaten.sound l.feed
    rw [feedEvents_congr beaten.overlords] at read
    have caught := beaten.trans read
    have woken : Leads a [] ((Nat.repeat heartbeat beats n).handleFeed l.feed)
        (if beats = 0 then (Nat.repeat heartbeat beats n).handleFeed l.feed
          else ((Nat.repeat heartbeat beats n).handleFeed l.feed).wakeAt nextBeat id) := by
      split
      · exact .refl caught.sound
      · exact (beside_wakeAt ..).leads caught.sound
    have resting := leads_setIdle (a := a) (t := .drive { l with feed := .fresh, nextBeat })
      woken.sound (woken.kept _ (caught.kept _ member)) rfl
    have whole := (caught.trans woken).trans resting
    rw [List.append_nil, List.append_nil] at whole
    exact whole.toPasses

theorem passes_pollLoop {l : LoopTask} (sound : n.Sound) (member : (id, none) ∈ n.chases) :
    Passes a (if l.started then n.runningEvents a l
      else if n.config.timing.heartbeatMs = 0 then []
      else n.told [.word .activate] ++
        n.start.runningEvents a { l with started := true, feed := .fresh, nextBeat := n.now }) n
      (n.pollLoop id l) := by
  unfold pollLoop
  split
  · exact passes_pollRunning sound member
  · split
    · exact passes_endTask_idle sound member
    · have started := leads_start (a := a) sound
      exact started.toPasses.trans (passes_pollRunning started.sound (started.kept _ member))

theorem passes_poll (sound : n.Sound) (id : TaskId) :
    Passes a (n.pollEvents a id) n (n.poll id) := by
  unfold pollEvents poll
  cases found : n.task? id with
  | none => exact ⟨sound, .nil _⟩
  | some t =>
    have member := mem_chases found
    cases t with
    | handshake h => exact passes_pollHandshake sound found
    | link role ended => exact passes_pollLink sound found
    | retry b pausing due => exact passes_pollRetry sound found
    | query q => exact passes_pollQuery sound found
    | drive l => exact passes_pollLoop sound member

theorem leads_readNext (sound : n.Sound) (id : TaskId) :
    Leads a (n.readEvents a id) n (n.readNext id) := by
  unfold readEvents readNext
  cases found : n.task? id with
  | none => exact .refl sound
  | some t =>
    have member := mem_chases found
    cases t with
    | handshake | link | retry | query => exact .refl sound
    | drive l =>
      simp only
      cases l.feed.next? with
      | none => exact .refl sound
      | some next =>
        obtain ⟨item, feed⟩ := next
        cases item with
        | event e =>
          have set := leads_setIdle (a := a) (t := .drive { l with feed }) sound member rfl
          exact set.trans (leads_handleEvent set.sound e)
        | lagged count =>
          have set := leads_setIdle (a := a) (t := .drive { l with feed := .fresh }) sound member rfl
          exact set.trans (leads_resync set.sound)

/-! What comes in. -/

theorem leads_resume {u : Task} (sound : n.Sound) (found : n.task? id = some u)
    (same : t.chase = u.chase) : Leads a [] n (n.resume id t) := by
  refine Beside.leads (beside_resume ?_) sound
  intro c other
  rw [same]
  exact sound.eq_of_mem other (mem_chases found)

theorem leads_expire (sound : n.Sound) (id : TaskId) : Leads a [] n (n.expire id) := by
  unfold expire
  split
  · rename_i found
    exact leads_resume sound found rfl
  · rename_i found
    exact leads_resume sound found rfl
  · exact (beside_wake n id).leads sound
  · exact .refl sound

theorem leads_deliver (sound : n.Sound) (id : TaskId) (e : RpcEvent) :
    Leads a [] n (n.deliver id e).2 := by
  unfold deliver
  split
  · rename_i found
    split
    · exact .refl sound
    · exact leads_resume sound found rfl
  · exact .refl sound

theorem leads_hangUp (sound : n.Sound) (id : TaskId) : Leads a [] n (n.hangUp id) := by
  unfold hangUp
  split
  · rename_i found
    exact leads_resume sound found rfl
  · exact .refl sound

theorem leads_finishLink (sound : n.Sound) (id : TaskId) : Leads a [] n (n.finishLink id).2 := by
  unfold finishLink
  split
  · rename_i found
    exact leads_resume sound found rfl
  · exact .refl sound

theorem leads_deliverFound (sound : n.Sound) (id : TaskId) (r : DiscoveryReply) :
    Leads a [] n (n.deliverFound id r).2 := by
  unfold deliverFound
  split
  · rename_i found
    split
    · exact leads_resume sound found rfl
    · exact .refl sound
  · exact .refl sound

theorem leads_endFound (sound : n.Sound) (id : TaskId) : Leads a [] n (n.endFound id).2 := by
  unfold endFound
  split
  · rename_i found
    simp only
    split
    · exact .refl sound
    · exact leads_resume sound found rfl
  · exact .refl sound

private theorem beside_loops {f : Node → TaskId × Task → Node} (sound : n.Sound)
    (each : ∀ m u, f m u = m ∨ ∃ l l' : LoopTask, u.2 = .drive l ∧ f m u = m.resume u.1 (.drive l')) :
    Beside n (n.tasks.foldl f n) := by
  refine .foldl_mem fun u member m beside => ?_
  rcases each m u with same | ⟨l, l', loop, resumed⟩
  · rw [same]
    exact .refl m
  · have idle : (u.1, none) ∈ m.chases := by
      refine beside.kept _ (List.mem_map.mpr ⟨u, member, ?_⟩)
      rw [loop]
      rfl
    rw [resumed]
    refine beside_resume fun c other => ?_
    exact (beside.sound sound).eq_of_mem other idle

theorem beside_publish (sound : n.Sound) (e : TableEvent) : Beside n (n.publish e) := by
  refine beside_loops sound fun m u => ?_
  unfold hand
  split
  · rename_i l loop
    split
    · exact Or.inr ⟨l, _, loop, rfl⟩
    · exact Or.inl rfl
  · exact Or.inl rfl

theorem beside_shutdown (sound : n.Sound) : Beside n n.shutdown.2 := by
  refine beside_loops sound fun m u => ?_
  obtain ⟨i, t⟩ := u
  cases t with
  | drive l => exact Or.inr ⟨l, _, rfl, rfl⟩
  | handshake | link | retry | query => exact Or.inl rfl

private theorem leads_table (sound : n.Sound) (table : ConnectionTable) :
    Leads a [] n { n with table } :=
  ⟨⟨⟨sound.numbered, sound.unique, sound.distinct⟩, .nil _⟩, fun _ hk => hk, rfl⟩

theorem leads_add (sound : n.Sound) (c : Connection) : Leads a [] n (n.step (.add c)) := by
  simp only [step, addLink]
  cases n.table.add c with
  | error reason => exact .refl sound
  | ok table =>
    have taken := leads_table (a := a) sound table
    exact taken.trans ((beside_publish taken.sound _).leads taken.sound)

theorem leads_removeEdge (sound : n.Sound) (e : EdgeId) : Leads a [] n (n.removeLinks e).2 := by
  have removed := leads_table (a := a) sound (n.table.detach e).2
  refine removed.trans (Beside.leads ?_ removed.sound)
  exact .foldl_mem fun c _ m beside => beside_publish (beside.sound removed.sound) _

theorem passes_step (sound : n.Sound) (s : NodeStep) :
    Passes a (n.pinEvents a (.step s)) n (n.step s) := by
  cases s with
  | add c => exact (leads_add sound c).toPasses
  | removeEdge e => exact (leads_removeEdge sound e).toPasses
  | read id => exact (leads_readNext sound id).toPasses
  | heartbeat => exact (leads_heartbeat sound).toPasses
  | pin b => exact (leads_pin sound b).toPasses
  | unpin b => exact (leads_unpin sound b).toPasses
  | poll id => exact passes_poll sound id
  | expire id => exact (leads_expire sound id).toPasses
  | deliver id e => exact (leads_deliver sound id e).toPasses
  | hangUp id => exact (leads_hangUp sound id).toPasses
  | finishLink id => exact (leads_finishLink sound id).toPasses
  | deliverFound id r => exact (leads_deliverFound sound id r).toPasses
  | endFound id => exact (leads_endFound sound id).toPasses
  | connect policy target request abort timeoutMs =>
    exact ((beside_spawn rfl n).leads sound).toPasses
  | submit r => exact ((beside_submit n r).leads sound).toPasses
  | dispatch method args => exact ((beside_dispatch n method args).leads sound).toPasses
  | route incoming p => exact ⟨⟨sound.numbered, sound.unique, sound.distinct⟩, .nil _⟩
  | advance ms => exact ⟨⟨sound.numbered, sound.unique, sound.distinct⟩, .nil _⟩

theorem passes_move (sound : n.Sound) (s : NodeMove) :
    Passes a (n.pinEvents a s) n (n.move s) := by
  cases s with
  | step s => exact passes_step sound s
  | run => exact ((beside_spawn rfl n).leads sound).toPasses
  | shutdown => exact ((beside_shutdown sound).leads sound).toPasses
  | switch active k => exact (leads_setActive sound active k).toPasses
  | activate k =>
    exact (leads_toldTo (fun m _ other => beside_activate other m) (fun _ => leads_activateManaged)
      k sound).toPasses
  | resync k =>
    exact (leads_toldTo (fun m _ other => beside_resyncOne other m) (fun _ => leads_resyncManaged)
      k sound).toPasses
  | linkUp c k =>
    exact (leads_toldTo (fun m _ other => beside_linkUp other m c)
      (fun _ sound => leads_linkUp sound c) k sound).toPasses
  | linkDown c k =>
    exact (leads_toldTo (fun m _ other => beside_linkDown other m c)
      (fun _ sound => leads_linkDown sound c) k sound).toPasses
  | beat k =>
    by_cases own : k = .managed
    · subst own
      exact (leads_beatManaged sound).toPasses
    · have silent : n.pinEvents a (.beat k) = [] := if_neg own
      rw [silent]
      exact ((beside_beat own n).leads sound).toPasses

theorem passes_moved (sound : n.Sound) (ms : List NodeMove) :
    Passes a (n.history a ms) n (n.moved ms) := by
  induction ms generalizing n with
  | nil => exact ⟨sound, .nil _⟩
  | cons s ms ih =>
    have first := passes_move (a := a) sound s
    exact first.trans (ih first.sound)

end

end Node

end RingOverlay

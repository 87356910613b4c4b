import RingOverlay.Node.Inbound
import RingOverlay.Proofs.Node.Driving
/-!
What the parts of a node's machinery may do to its books, that is, to the number of unstructured links
it believes in and to the states of its pinned peers. Whatever a node does, it leaves an entry as it
is or writes what the table says at that moment. Only the news of a link that came up or went away is
written down blindly.
-/

set_option autoImplicit false
set_option relaxedAutoImplicit false

namespace RingOverlay

/-- A pinned peer is on exactly if there is a structured link to it. -/
def PinFits (t : ConnectionTable) (p : RingAddress × PinState) : Prop :=
  p.2 = .on ↔ t.contains .structured p.1 = true

namespace ManagedOverlord

variable {o : ManagedOverlord} {a : RingAddress} {p : RingAddress × PinState}

theorem pins_of_beginCheck? {cfg : ManagedConfig} {now : Nat} {checked : ManagedOverlord}
    (h : o.beginCheck? cfg now = some checked) : checked.pins = o.pins := by
  unfold beginCheck? at h
  split at h
  · cases h
    rfl
  · cases h

theorem mem_setState {s : PinState} (h : p ∈ (o.setState a s).pins) : p ∈ o.pins ∨ p = (a, s) := by
  obtain ⟨⟨b, t⟩, member, rfl⟩ := List.mem_map.mp h
  by_cases same : b = a
  · right
    simp [same]
  · left
    simpa [same] using member

theorem state_of_mem_setState {s : PinState} (h : p ∈ (o.setState a s).pins) (same : p.1 = a) :
    p.2 = s := by
  obtain ⟨⟨b, t⟩, -, rfl⟩ := List.mem_map.mp h
  exact if_pos same

theorem mem_pin {here : RingAddress} {connected : Bool} (h : p ∈ (o.pin here a connected).2.pins) :
    p ∈ o.pins ∨ p = (a, .ofConnected connected) := by
  unfold pin at h
  split at h
  · exact Or.inl h
  · rcases List.mem_append.mp h with first | rest
    · exact Or.inl ((List.takeWhile_sublist _).subset first)
    · rcases List.mem_cons.mp rest with new | last
      · exact Or.inr new
      · exact Or.inl ((List.dropWhile_sublist _).subset last)

theorem mem_unpin (h : p ∈ (o.unpin a).2.pins) : p ∈ o.pins :=
  (List.mem_filter.mp h).1

theorem on_iff_of_mem_resync {connected : RingAddress → Bool} (h : p ∈ (o.resync connected).pins) :
    p.2 = .on ↔ connected p.1 = true := by
  obtain ⟨⟨b, t⟩, -, rfl⟩ := List.mem_map.mp h
  cases linked : connected b <;> cases t <;> simp [PinState.reconcile, linked]

theorem mem_finish {connected : Bool} (h : p ∈ (o.finish a connected).2.pins) :
    p ∈ o.pins ∨ p.1 = a ∧ (p.2 = .on ↔ connected = true) := by
  unfold finish at h
  split at h
  · exact Or.inl h
  · rename_i s _
    refine (mem_setState h).imp_right ?_
    rintro rfl
    cases connected <;> cases s <;> simp [PinState.afterFailure]

end ManagedOverlord

theorem UnstructuredOverlord.current_activate (o : UnstructuredOverlord) (cfg : UnstructuredConfig)
    (leafs : RingView) (ws : Words) : (o.activate cfg leafs ws).2.1.current = o.current := by
  unfold UnstructuredOverlord.activate
  split
  · split <;> rfl
  · rfl

theorem UnstructuredOverlord.current_linkUp (o : UnstructuredOverlord) (cfg : UnstructuredConfig)
    (count : Nat) (ws : Words) : (o.linkUp cfg count ws).1.current = count := by
  unfold UnstructuredOverlord.linkUp
  split <;> rfl

section Listening

variable {σ : Type} {here : RingAddress} {owner : ConnectRequest → σ → Bool × σ}

private theorem listen_keeps {R : σ → σ → Prop} (refl : ∀ s, R s s)
    (trans : ∀ s t u, R s t → R t u → R s u) (answer : ∀ r s, R s (owner r s).2)
    (inbox : List RpcEvent) (x : Exchange) (s : σ) : R s (x.listen here owner inbox s).2.2 := by
  induction inbox generalizing x s with
  | nil => exact refl s
  | cons e inbox ih =>
    cases e with
    | closed reason => exact refl s
    | result v =>
      cases usable : usableReply here v with
      | none => simpa [Exchange.listen, usable] using ih x s
      | some r =>
        simp only [Exchange.listen, usable]
        split
        · exact answer r s
        · exact trans _ _ _ (answer r s) (ih _ _)

theorem Handshake.turn_keeps {R : σ → σ → Prop} (refl : ∀ s, R s s)
    (trans : ∀ s t u, R s t → R t u → R s u) (answer : ∀ r s, R s (owner r s).2)
    (h : Handshake) (abort : Bool) (s : σ) : R s (h.turn here abort owner s).2 := by
  unfold Handshake.turn
  split
  · exact listen_keeps refl trans answer h.inbox h.exchange s
  · split <;> exact refl s

end Listening

namespace Node

/-- A node has become another one that differs in its books at most where they fit its table or
repeat a word about a peer. -/
structure Follows (loop : TaskId) (word : RingAddress → Option Bool) (n m : Node) : Prop where
  table : m.table = n.table
  overlords : m.overlords = n.overlords
  current : m.unstructured.current = n.unstructured.current ∨
    m.unstructured.current = n.table.count .unstructured
  pins : ∀ p ∈ m.managed.pins,
    p ∈ n.managed.pins ∨ PinFits n.table p ∨ word p.1 = some (p.2 == .on)
  driven : ∀ l, n.DrivenBy loop l → m.DrivenBy loop l

section

variable {loop id : TaskId} {word : RingAddress → Option Bool} {n m k : Node} {t : Task}

theorem Follows.refl (n : Node) : Follows loop word n n :=
  ⟨rfl, rfl, Or.inl rfl, fun _ hp => Or.inl hp, fun _ driven => driven⟩

theorem Follows.trans (first : Follows loop word n m) (second : Follows loop word m k) :
    Follows loop word n k where
  table := second.table.trans first.table
  overlords := second.overlords.trans first.overlords
  current := by
    rcases second.current with same | counted
    · rw [same]
      exact first.current
    · rw [counted, first.table]
      exact Or.inr rfl
  pins := by
    intro p hp
    rcases second.pins p hp with old | new
    · exact first.pins p old
    · rw [first.table] at new
      exact Or.inr new
  driven _ driven := second.driven _ (first.driven _ driven)

theorem Follows.of_same (table : m.table = n.table) (overlords : m.overlords = n.overlords)
    (current : m.unstructured.current = n.unstructured.current)
    (pins : m.managed.pins = n.managed.pins) (tasks : m.tasks = n.tasks)
    (created : m.created = n.created) : Follows loop word n m where
  table := table
  overlords := overlords
  current := Or.inl current
  pins _ hp := Or.inl (pins ▸ hp)
  driven _ driven := ⟨tasks ▸ driven.only, created ▸ driven.numbered⟩

theorem Follows.foldl {α : Type} {f : Node → α → Node} (each : ∀ n a, Follows loop word n (f n a))
    (as : List α) (n : Node) : Follows loop word n (as.foldl f n) := by
  induction as generalizing n with
  | nil => exact .refl n
  | cons a as ih => exact (each n a).trans (ih _)

theorem Follows.establish {f : Node → OverlordKind → Node}
    (each : ∀ n k, Follows loop word n (f n k)) {Q : Node → Prop}
    (keep : ∀ n m, Follows loop word n m → Q n → Q m) {k : OverlordKind} (first : ∀ n, Q (f n k))
    {ks : List OverlordKind} (member : k ∈ ks) (n : Node) : Q (ks.foldl f n) := by
  induction ks generalizing n with
  | nil => cases member
  | cons j ks ih =>
    rcases List.mem_cons.mp member with rfl | member
    · exact keep _ _ (.foldl each ks _) (first n)
    · exact ih member (f n j)

theorem follows_act (n : Node) (a : NodeAction) : Follows loop word n (n.act a) :=
  .of_same rfl rfl rfl rfl rfl rfl

theorem follows_wakeAt (n : Node) (time : Nat) (id : TaskId) : Follows loop word n (n.wakeAt time id) :=
  .of_same rfl rfl rfl rfl rfl rfl

theorem follows_wake (n : Node) (id : TaskId) : Follows loop word n (n.wake id) := by
  unfold wake
  split
  · exact .refl n
  · exact .of_same rfl rfl rfl rfl rfl rfl

theorem follows_spawn (plain : isLoop t = false) (n : Node) : Follows loop word n (n.spawn t) :=
  ⟨rfl, rfl, Or.inl rfl, fun _ hp => Or.inl hp, fun _ driven => driven.spawn plain⟩

theorem follows_spawnResting (plain : isLoop t = false) (n : Node) :
    Follows loop word n (n.spawnResting t) :=
  ⟨rfl, rfl, Or.inl rfl, fun _ hp => Or.inl hp, fun _ driven => driven.spawnResting plain⟩

theorem follows_setTask (other : id ≠ loop) (plain : isLoop t = false) (n : Node) :
    Follows loop word n (n.setTask id t) :=
  ⟨rfl, rfl, Or.inl rfl, fun _ hp => Or.inl hp, fun _ driven => driven.setTask other plain⟩

theorem follows_resume (other : id ≠ loop) (plain : isLoop t = false) (n : Node) :
    Follows loop word n (n.resume id t) :=
  (follows_setTask other plain n).trans (follows_wake ..)

theorem follows_endTask (other : id ≠ loop) (n : Node) : Follows loop word n (n.endTask id) :=
  ⟨rfl, rfl, Or.inl rfl, fun _ hp => Or.inl hp, fun _ driven => driven.endTask other⟩

/-! Links and handshakes. -/

theorem follows_launch (n : Node) (role : LinkRole) (r : LinkRequest) :
    Follows loop word n (n.launch role r) :=
  (follows_act ..).trans (follows_spawnResting rfl _)

theorem follows_launchWork (n : Node) (w : LinkWork) : Follows loop word n (n.launchWork w) :=
  follows_launch ..

theorem follows_submit (n : Node) (r : LinkRequest) : Follows loop word n (n.submit r).2 := by
  simp only [submit]
  split
  · refine .trans ?_ (follows_launchWork ..)
    exact .of_same rfl rfl rfl rfl rfl rfl
  · exact .of_same rfl rfl rfl rfl rfl rfl

theorem follows_workerFinished (n : Node) (k : AttemptKey) :
    Follows loop word n (n.workerFinished k) := by
  simp only [workerFinished]
  split
  · refine .trans ?_ (follows_launchWork ..)
    exact .of_same rfl rfl rfl rfl rfl rfl
  · exact .of_same rfl rfl rfl rfl rfl rfl

theorem follows_startHandshake (n : Node) (owner : HandshakeOwner) (target : RpcTarget)
    (type : String) (abort : AbortRule) :
    Follows loop word n (n.startHandshake owner target type abort) :=
  follows_spawn rfl n

theorem follows_connectAll (n : Node) (as : List RingAddress) : Follows loop word n (n.connectAll as) :=
  .foldl (fun n _ => follows_startHandshake n ..) as n

/-! Policies. -/

theorem follows_activateLeaf (n : Node) : Follows loop word n n.activateLeaf := by
  simp only [activateLeaf]
  split
  · refine .trans ?_ (follows_launch ..)
    exact .of_same rfl rfl rfl rfl rfl rfl
  · exact .of_same rfl rfl rfl rfl rfl rfl

theorem follows_trimLeafs (n : Node) (newest : EdgeId) : Follows loop word n (n.trimLeafs newest).2 := by
  simp only [trimLeafs]
  split <;> exact .of_same rfl rfl rfl rfl rfl rfl

theorem follows_activateUnstructured (n : Node) : Follows loop word n n.activateUnstructured := by
  simp only [activateUnstructured]
  have kept := n.unstructured.current_activate n.config.unstructured (n.table.view .leaf) n.words
  split
  · refine .trans ?_ (follows_startHandshake ..)
    exact .of_same rfl rfl kept rfl rfl rfl
  · exact .of_same rfl rfl kept rfl rfl rfl

theorem Follows.of_count {unstructured : UnstructuredOverlord} {words : Words}
    (counted : unstructured.current = n.table.count .unstructured) :
    Follows loop word n { n with unstructured, words } :=
  ⟨rfl, rfl, Or.inr counted, fun _ hp => Or.inl hp, fun _ driven => ⟨driven.only, driven.numbered⟩⟩

theorem follows_recountUnstructured (n : Node) : Follows loop word n n.recountUnstructured := by
  refine .trans ?_ (follows_activateUnstructured _)
  exact .of_count rfl

theorem follows_activateManaged (n : Node) : Follows loop word n n.activateManaged := by
  unfold activateManaged
  split
  · exact follows_connectAll ..
  · exact .refl n

theorem follows_activateDiscovery (n : Node) : Follows loop word n n.activateDiscovery := by
  simp only [activateDiscovery]
  split
  · refine .trans ?_ (follows_spawnResting rfl _)
    exact .of_same rfl rfl rfl rfl rfl rfl
  · exact .of_same rfl rfl rfl rfl rfl rfl

theorem follows_activate (n : Node) (k : OverlordKind) : Follows loop word n (n.activate k) := by
  cases k with
  | leaf => exact follows_activateLeaf n
  | unstructured => exact follows_activateUnstructured n
  | managed => exact follows_activateManaged n
  | discovery => exact follows_activateDiscovery n

theorem follows_beat (n : Node) (k : OverlordKind) : Follows loop word n (n.beat k) := by
  have seek (k : OverlordKind) :
      Follows loop word n (if n.isActive k && n.needs k then n.activate k else n) := by
    split
    · exact follows_activate n k
    · exact .refl n
  cases k with
  | leaf => exact seek .leaf
  | unstructured => exact seek .unstructured
  | managed =>
    simp only [beat]
    split
    · rename_i due
      refine .trans ?_ (follows_connectAll ..)
      exact .of_same rfl rfl rfl (ManagedOverlord.pins_of_beginCheck? due) rfl rfl
    · exact .refl n
  | discovery => exact follows_activateDiscovery n

theorem follows_heartbeat (n : Node) : Follows loop word n n.heartbeat :=
  .foldl follows_beat n.overlords n

theorem follows_setActive (n : Node) (active : Bool) (k : OverlordKind) :
    Follows loop word n (n.setActive active k) := by
  cases k <;> exact .of_same rfl rfl rfl rfl rfl rfl

theorem follows_start (n : Node) : Follows loop word n n.start := by
  have switched : Follows loop word n (n.overlords.foldl (setActive · true) n) :=
    .foldl (follows_setActive · true) n.overlords n
  exact switched.trans (.foldl follows_activate n.overlords _)

theorem Follows.of_pins {managed : ManagedOverlord}
    (pins : ∀ p ∈ managed.pins,
      p ∈ n.managed.pins ∨ PinFits n.table p ∨ word p.1 = some (p.2 == .on)) :
    Follows loop word n { n with managed } :=
  ⟨rfl, rfl, Or.inl rfl, pins, fun _ driven => ⟨driven.only, driven.numbered⟩⟩

theorem follows_pin (n : Node) (a : RingAddress) : Follows loop word n (n.pin a) := by
  have pinned : Follows loop word n
      { n with managed := (n.managed.pin n.here a (n.isConnected a)).2 } := by
    refine .of_pins fun p hp => (ManagedOverlord.mem_pin hp).imp_right fun new => Or.inl ?_
    subst new
    cases linked : n.table.contains .structured a <;>
      simp [PinFits, PinState.ofConnected, isConnected, linked]
  simp only [pin]
  split
  · exact pinned.trans (follows_startHandshake ..)
  · exact pinned

theorem follows_unpin (n : Node) (a : RingAddress) : Follows loop word n (n.unpin a).2 := by
  have unpinned : Follows loop word n { n with managed := (n.managed.unpin a).2 } :=
    .of_pins fun p hp => Or.inl (ManagedOverlord.mem_unpin hp)
  simp only [unpin]
  split
  · split
    · exact unpinned.trans (follows_act ..)
    · exact unpinned
  · exact unpinned

theorem follows_resyncOne (n : Node) (k : OverlordKind) : Follows loop word n (n.resyncOne k) := by
  cases k with
  | leaf => exact .refl n
  | unstructured => exact follows_recountUnstructured n
  | managed =>
    refine .trans ?_ (follows_activateManaged _)
    exact .of_pins fun p hp => Or.inr (Or.inl (ManagedOverlord.on_iff_of_mem_resync hp))
  | discovery => exact .refl n

/-! Tasks. -/

theorem follows_handleReply (owner : HandshakeOwner) (reply : ConnectRequest) (n : Node) :
    Follows loop word n (handleReply owner reply n).2 := by
  cases owner with
  | unstructured => exact follows_submit n (.ofMessage reply)
  | managed => exact follows_submit n (.ofMessage reply)
  | outside policy =>
    cases policy with
    | collect => exact follows_act ..
    | first => exact follows_act ..
    | link => exact follows_submit n (.ofMessage reply)

theorem follows_managedFinished (n : Node) (r : HandshakeReport) :
    Follows loop word n (n.managedFinished r) := by
  unfold managedFinished
  split
  · exact .refl n
  · rename_i a _
    have finished : Follows loop word n
        { n with managed := (n.managed.finish a (n.isConnected a)).2 } := by
      refine .of_pins fun p hp => (ManagedOverlord.mem_finish hp).imp_right fun ⟨same, fits⟩ => ?_
      subst same
      exact Or.inl fits
    simp only
    split
    · exact finished.trans (follows_spawn rfl _)
    · exact finished

theorem follows_finishHandshake (n : Node) (owner : HandshakeOwner) (r : HandshakeReport) :
    Follows loop word n (n.finishHandshake owner r) := by
  cases owner with
  | unstructured =>
    simp only [finishHandshake, unstructuredFinished]
    split
    · refine .trans ?_ (follows_activateUnstructured _)
      exact .of_same rfl rfl rfl rfl rfl rfl
    · exact .of_same rfl rfl rfl rfl rfl rfl
  | managed => exact follows_managedFinished n r
  | outside policy => exact follows_act ..

theorem follows_pollHandshake (other : id ≠ loop) (n : Node) (h : HandshakeTask) :
    Follows loop word n (n.pollHandshake id h) := by
  have heard : Follows loop word n
      (h.turn n.here (n.shouldAbort h.abort) (handleReply h.owner) n).2 :=
    h.turn_keeps .refl (fun _ _ _ => .trans) (follows_handleReply h.owner) _ n
  simp only [pollHandshake]
  split
  · exact ((heard.trans (follows_act ..)).trans (follows_wakeAt ..)).trans (follows_setTask other rfl _)
  · exact heard.trans (follows_setTask other rfl _)
  · exact (heard.trans (follows_endTask other _)).trans (follows_finishHandshake ..)

theorem follows_pollLink (other : id ≠ loop) (n : Node) (role : LinkRole) (ended : Bool) :
    Follows loop word n (n.pollLink id role ended) := by
  unfold pollLink
  split
  · exact .refl n
  · refine (follows_endTask other n).trans ?_
    cases role with
    | keyed k => exact follows_workerFinished ..
    | untargeted => exact .refl _
    | leaf =>
      refine .trans ?_ (follows_activateLeaf _)
      exact .of_same rfl rfl rfl rfl rfl rfl

theorem follows_pollRetry (other : id ≠ loop) (n : Node) (a : RingAddress) (pausing due : Bool) :
    Follows loop word n (n.pollRetry id a pausing due) := by
  simp only [pollRetry]
  split
  · split
    · exact (follows_endTask other n).trans (follows_startHandshake ..)
    · exact follows_endTask other n
  · split
    · exact .refl n
    · exact (follows_wakeAt ..).trans (follows_setTask other rfl _)

theorem follows_learn (n : Node) (r : DiscoveryReply) : Follows loop word n (n.learn r) := by
  unfold learn
  split
  · exact .of_same rfl rfl rfl rfl rfl rfl
  · exact .refl n

theorem follows_pollQuery (other : id ≠ loop) (n : Node) (q : QueryTask) :
    Follows loop word n (n.pollQuery id q) := by
  have learned : Follows loop word n (q.inbox.foldl learn n) := .foldl follows_learn q.inbox n
  simp only [pollQuery]
  split
  · refine (learned.trans (follows_endTask other _)).trans ?_
    exact .of_same rfl rfl rfl rfl rfl rfl
  · exact learned.trans (follows_setTask other rfl _)

theorem follows_poll (found : n.task? id = some t) (plain : isLoop t = false) (other : id ≠ loop) :
    Follows loop word n (n.poll id) := by
  unfold poll
  rw [found]
  cases t with
  | handshake h => exact follows_pollHandshake other n h
  | link role ended => exact follows_pollLink other n role ended
  | retry a pausing due => exact follows_pollRetry other n a pausing due
  | query q => exact follows_pollQuery other n q
  | drive l => cases plain

private theorem follows_resumed {u : Task} (driven : ∃ l, n.DrivenBy loop l)
    (found : n.task? id = some u) (was : isLoop u = false) (plain : isLoop t = false) :
    Follows loop word n (n.resume id t) := by
  obtain ⟨l, driven⟩ := driven
  exact follows_resume (driven.ne_of_task? found was) plain n

theorem follows_expire (driven : ∃ l, n.DrivenBy loop l) (id : TaskId) :
    Follows loop word n (n.expire id) := by
  unfold expire
  split
  · rename_i found
    exact follows_resumed driven found rfl rfl
  · rename_i found
    exact follows_resumed driven found rfl rfl
  · exact follows_wake n id
  · exact .refl n

theorem follows_deliver (driven : ∃ l, n.DrivenBy loop l) (id : TaskId) (e : RpcEvent) :
    Follows loop word n (n.deliver id e).2 := by
  unfold deliver
  split
  · rename_i found
    split
    · exact .refl n
    · exact follows_resumed driven found rfl rfl
  · exact .refl n

theorem follows_hangUp (driven : ∃ l, n.DrivenBy loop l) (id : TaskId) :
    Follows loop word n (n.hangUp id) := by
  unfold hangUp
  split
  · rename_i found
    exact follows_resumed driven found rfl rfl
  · exact .refl n

theorem follows_finishLink (driven : ∃ l, n.DrivenBy loop l) (id : TaskId) :
    Follows loop word n (n.finishLink id).2 := by
  unfold finishLink
  split
  · rename_i found
    exact follows_resumed driven found rfl rfl
  · exact .refl n

theorem follows_deliverFound (driven : ∃ l, n.DrivenBy loop l) (id : TaskId) (r : DiscoveryReply) :
    Follows loop word n (n.deliverFound id r).2 := by
  unfold deliverFound
  split
  · rename_i found
    split
    · exact follows_resumed driven found rfl rfl
    · exact .refl n
  · exact .refl n

theorem follows_endFound (driven : ∃ l, n.DrivenBy loop l) (id : TaskId) :
    Follows loop word n (n.endFound id).2 := by
  unfold endFound
  split
  · rename_i found
    simp only
    split
    · exact .refl n
    · exact follows_resumed driven found rfl rfl
  · exact .refl n

theorem follows_dispatch (n : Node) (method : String) (args : Value) :
    Follows loop word n (n.dispatch method args).2 := by
  have answered (r : ConnectRequest) : Follows loop word n (n.answerRequest r).2 := by
    unfold answerRequest
    split
    · exact .refl n
    · have linked : Follows loop word n (n.linkTo r).2 := follows_submit ..
      split <;> simp_all
  unfold dispatch
  split
  · exact .refl n
  · unfold answerConnect
    split
    · exact .refl n
    · exact answered _
  · exact .refl n

end

end Node

end RingOverlay

import RingOverlay.Node.DiscoverySteps
import RingOverlay.Proofs.Node.Tasks
/-!
The discovery policy of a node as it goes on. It has one query under way at most, and so there are few
things that a step can do: send a query, take in or read replies to the one under way, or end them.
-/

set_option autoImplicit false
set_option relaxedAutoImplicit false

namespace RingOverlay

def NodeAction.query? : NodeAction → Option TaskId
  | .query task _ => some task
  | _ => none

def DiscoveryStep.closed? : DiscoveryStep → Option TaskId
  | .close query => some query
  | _ => none

def DiscoveryOverlord.kin (here : RingAddress) (realm : String) (rs : List DiscoveryReply) :
    List DiscoveryReply := rs.filter (accepts here realm)

namespace Node

def queriesIn (n : Node) (s : DiscoveryStep) : List TaskId :=
  ((n.discoveryStep s).actions.drop n.actions.length).filterMap (·.query?)

def openAfter (n : Node) (opened : List TaskId) (s : DiscoveryStep) : List TaskId :=
  (opened ++ n.queriesIn s).filter (s.closed? != some ·)

def openQueries (n : Node) (opened : List TaskId) : List DiscoveryStep → List TaskId
  | [] => opened
  | s :: steps => (n.discoveryStep s).openQueries (n.openAfter opened s) steps

/-- The reply that comes in with a step, unless the channel of its query refuses it. -/
def foundIn (n : Node) : DiscoveryStep → List DiscoveryReply
  | .reply id r => if (n.deliverFound id r).1 then [r] else []
  | _ => []

def takenIn (n : Node) : DiscoveryStep → List DiscoveryReply
  | .poll id =>
    match n.task? id with
    | some (.query q) => q.inbox
    | _ => []
  | _ => []

def wouldQuery (n : Node) : Bool :=
  n.discovery.active && n.config.discovery.enabled && n.table.size == 0 && !n.discovery.querying &&
    n.discovery.isDue n.config.discovery n.now

/-- The node has no work under way but one query at most. The policy remembers whether there is one,
and the query is open until its replies have ended. -/
def OneQuery (n : Node) (opened : List TaskId) : Prop :=
  n.discovery.querying = false ∧ n.tasks = [] ∧ opened = [] ∨
    n.discovery.querying = true ∧ ∃ id inbox ended, n.tasks = [(id, .query ⟨inbox, ended⟩)] ∧
      opened = if ended then [] else [id]

/-- What a step of the discovery policy does to a node with one query under way at most. -/
inductive Discovers (n : Node) : DiscoveryStep → Node → Prop where
  | ask {s : DiscoveryStep} (sends : (s.isCall && n.wouldQuery) = true) (idle : n.tasks = []) :
      Discovers n s
        { n with
          discovery := { n.discovery with querying := true, lastQuery := some n.now }
          actions := n.actions ++ [.query n.created default]
          tasks := [(n.created, .query ⟨[], false⟩)]
          created := n.created + 1 }
  | take {id : TaskId} {inbox : List DiscoveryReply} (r : DiscoveryReply) (ready : List TaskId)
      (work : n.tasks = [(id, .query ⟨inbox, false⟩)]) (found : n.foundIn (.reply id r) = [r]) :
      Discovers n (.reply id r) { n with tasks := [(id, .query ⟨inbox ++ [r], false⟩)], ready }
  | cease {id : TaskId} {inbox : List DiscoveryReply} (ready : List TaskId)
      (work : n.tasks = [(id, .query ⟨inbox, false⟩)]) :
      Discovers n (.close id) { n with tasks := [(id, .query ⟨inbox, true⟩)], ready }
  | read {id : TaskId} {inbox : List DiscoveryReply}
      (work : n.tasks = [(id, .query ⟨inbox, false⟩)]) (taken : n.takenIn (.poll id) = inbox) :
      Discovers n (.poll id) { inbox.foldl learn n with tasks := [(id, .query ⟨[], false⟩)] }
  | finish {id : TaskId} {inbox : List DiscoveryReply} (timers : List (Nat × TaskId))
      (work : n.tasks = [(id, .query ⟨inbox, true⟩)]) (taken : n.takenIn (.poll id) = inbox) :
      Discovers n (.poll id)
        { inbox.foldl learn n with
          discovery := (inbox.foldl learn n).discovery.finish, tasks := [], timers }
  /-- Something changes around the policy, if anything. -/
  | aside {s : DiscoveryStep} (active : Bool) (table : ConnectionTable) (later : Nat)
      (silent : (s.isCall && n.wouldQuery) = false) (found : n.foundIn s = [])
      (taken : n.takenIn s = [])
      (goesOn : ∀ id inbox, n.tasks = [(id, .query ⟨inbox, false⟩)] → s.closed? ≠ some id) :
      Discovers n s
        { n with discovery := { n.discovery with active }, table, now := n.now + later }

section

variable {n m : Node} {opened : List TaskId} {s : DiscoveryStep} {id : TaskId} {t : Task}

theorem foldl_learn (rs : List DiscoveryReply) (n : Node) :
    rs.foldl learn n =
      { n with
        remoteTransports := mergeTransports n.remoteTransports
          ((DiscoveryOverlord.kin n.here n.realm rs).flatMap (·.transports))
        discovery := { n.discovery with
          discovered := (DiscoveryOverlord.kin n.here n.realm rs).foldl
            (fun as r => DiscoveryOverlord.insertAddress r.address as) n.discovery.discovered } } := by
  induction rs generalizing n with
  | nil => rfl
  | cons r rs ih =>
    rw [List.foldl_cons, ih]
    by_cases kin : DiscoveryOverlord.accepts n.here n.realm r = true
    · have known : n.learn r =
          { n.addRemote r.transports with discovery := n.discovery.note r.address } := if_pos kin
      have first : DiscoveryOverlord.kin n.here n.realm (r :: rs) =
          r :: DiscoveryOverlord.kin n.here n.realm rs := List.filter_cons_of_pos kin
      rw [known, first, List.flatMap_cons, List.foldl_cons]
      simp only [mergeTransports, List.foldl_append]
      rfl
    · have same : n.learn r = n := if_neg kin
      have rest : DiscoveryOverlord.kin n.here n.realm (r :: rs) =
          DiscoveryOverlord.kin n.here n.realm rs := List.filter_cons_of_neg kin
      rw [same, rest]

theorem pin_of_inactive (off : n.managed.active = false) (a : RingAddress) :
    ∃ managed : ManagedOverlord, managed.active = false ∧ n.pin a = { n with managed } := by
  refine ⟨(n.managed.pin n.here a (n.isConnected a)).2, ?_, ?_⟩ <;>
    simp only [pin, ManagedOverlord.pin] <;> split <;> simp [off]

theorem create_eq (here : RingAddress) (config : OverlayConfig) (table : ConnectionTable)
    (channel : Bool) : ∃ overlords methods managed, create here config table channel =
      { bare here config table with overlords, methods, managed } := by
  have noted {f : Node → String → Node}
      (each : ∀ n s, n.managed.active = false →
        ∃ managed : ManagedOverlord, managed.active = false ∧ f n s = { n with managed })
      (names : List String) (n : Node) (off : n.managed.active = false) :
      ∃ managed, names.foldl f n = { n with managed } := by
    induction names generalizing n with
    | nil => exact ⟨n.managed, rfl⟩
    | cons name names ih =>
      obtain ⟨managed, still, first⟩ := each n name off
      obtain ⟨later, rest⟩ := ih (f n name) (by rw [first]; exact still)
      exact ⟨later, by rw [List.foldl_cons, rest, first]⟩
  refine ⟨_, _, noted (fun n name off => ?_) config.managed.pinned _ rfl⟩
  cases RingAddress.ofText name with
  | ok a => exact pin_of_inactive off a
  | error e => exact ⟨n.managed, off, rfl⟩

theorem activateDiscovery_cases (n : Node) :
    n.wouldQuery = true ∧ n.activateDiscovery =
      { n with
        discovery := { n.discovery with querying := true, lastQuery := some n.now }
        actions := n.actions ++ [.query n.created default]
        tasks := n.tasks ++ [(n.created, .query ⟨[], false⟩)]
        created := n.created + 1 } ∨
    n.wouldQuery = false ∧ n.activateDiscovery = n := by
  by_cases due : n.wouldQuery = true
  · left
    refine ⟨due, ?_⟩
    unfold wouldQuery at due
    simp only [activateDiscovery, DiscoveryOverlord.activate, due, if_true]
    rfl
  · right
    rw [Bool.not_eq_true] at due
    refine ⟨due, ?_⟩
    unfold wouldQuery at due
    simp only [activateDiscovery, DiscoveryOverlord.activate, due, Bool.false_eq_true, if_false]

theorem OneQuery.task?_cases (one : n.OneQuery opened) (id : TaskId) :
    n.task? id = none ∧ id ∉ opened ∨
      ∃ q, n.task? id = some (.query q) ∧ n.tasks = [(id, .query q)] := by
  rcases one with ⟨-, idle, closed⟩ | ⟨-, i, inbox, ended, work, opens⟩
  · left
    rw [task?, idle, closed]
    exact ⟨rfl, List.not_mem_nil⟩
  · by_cases own : id = i
    · subst own
      exact Or.inr ⟨_, by simp [task?, work], work⟩
    · left
      have apart : (id == i) = false := beq_false_of_ne own
      refine ⟨by simp [task?, work, List.lookup_cons, apart], ?_⟩
      rw [opens]
      split <;> simp [own]

theorem OneQuery.of_work (one : n.OneQuery opened) {inbox : List DiscoveryReply} {ended : Bool}
    (work : n.tasks = [(id, .query ⟨inbox, ended⟩)]) :
    n.discovery.querying = true ∧ opened = if ended then [] else [id] := by
  rcases one with ⟨-, idle, -⟩ | ⟨querying, i, box, late, other, opens⟩
  · rw [idle] at work
    cases work
  · rw [other] at work
    cases work
    exact ⟨querying, opens⟩

theorem OneQuery.of_wouldQuery (one : n.OneQuery opened) (due : n.wouldQuery = true) :
    n.tasks = [] ∧ opened = [] := by
  rcases one with ⟨-, idle, closed⟩ | ⟨querying, -⟩
  · exact ⟨idle, closed⟩
  · simp [wouldQuery, querying] at due

theorem resume_eq (work : n.tasks = [(id, t)]) (u : Task) :
    ∃ ready, n.resume id u = { n with tasks := [(id, u)], ready } := by
  unfold resume wake setTask
  rw [work]
  split
  · exact ⟨n.ready, by simp⟩
  · exact ⟨n.ready ++ [id], by simp⟩

theorem pollQuery_eq (work : n.tasks = [(id, t)]) (inbox : List DiscoveryReply) :
    n.pollQuery id ⟨inbox, false⟩ =
      { inbox.foldl learn n with tasks := [(id, .query ⟨[], false⟩)] } ∧
    ∃ timers, n.pollQuery id ⟨inbox, true⟩ =
      { inbox.foldl learn n with
        discovery := (inbox.foldl learn n).discovery.finish, tasks := [], timers } := by
  rw [pollQuery, pollQuery, foldl_learn]
  refine ⟨?_, n.timers.filter (·.2 != id), ?_⟩
  · simp [setTask, work]
  · simp [endTask, work]

theorem quiet_of_isCall (call : s.isCall = true) :
    n.foundIn s = [] ∧ n.takenIn s = [] ∧ s.closed? = none := by
  cases s with
  | activate | beat => exact ⟨rfl, rfl, rfl⟩
  | _ => cases call

theorem ne_of_closed? (none : s.closed? = none) (id : TaskId) (inbox : List DiscoveryReply)
    (_ : n.tasks = [(id, .query ⟨inbox, false⟩)]) : s.closed? ≠ some id := by
  rw [none]
  exact (Option.some_ne_none id).symm

theorem Discovers.nothing (silent : (s.isCall && n.wouldQuery) = false) (found : n.foundIn s = [])
    (taken : n.takenIn s = [])
    (goesOn : ∀ id inbox, n.tasks = [(id, .query ⟨inbox, false⟩)] → s.closed? ≠ some id) :
    n.Discovers s n := .aside n.discovery.active n.table 0 silent found taken goesOn

theorem OneQuery.discovers_call (one : n.OneQuery opened) (call : s.isCall = true) :
    n.Discovers s n.activateDiscovery := by
  obtain ⟨found, taken, closed⟩ := quiet_of_isCall (n := n) call
  rcases n.activateDiscovery_cases with ⟨due, sent⟩ | ⟨undue, same⟩
  · obtain ⟨idle, -⟩ := one.of_wouldQuery due
    rw [sent, idle]
    exact .ask (by rw [call, due]; rfl) idle
  · rw [same]
    exact .nothing (by rw [call, undue]; rfl) found taken (ne_of_closed? closed)

theorem OneQuery.discovers_reply (one : n.OneQuery opened) (id : TaskId) (r : DiscoveryReply) :
    n.Discovers (.reply id r) (n.deliverFound id r).2 := by
  have refuse (refused : n.deliverFound id r = (false, n)) :
      n.Discovers (.reply id r) (n.deliverFound id r).2 := by
    rw [refused]
    exact .nothing rfl (by simp [foundIn, refused]) rfl (ne_of_closed? rfl)
  rcases one.task?_cases id with ⟨none, -⟩ | ⟨⟨inbox, ended⟩, found, work⟩
  · exact refuse (by simp [deliverFound, none])
  · cases ended with
    | true => exact refuse (by simp [deliverFound, found])
    | false =>
      by_cases room : inbox.length < DiscoveryOverlord.capacity
      · obtain ⟨ready, resumed⟩ := n.resume_eq work (.query ⟨inbox ++ [r], false⟩)
        have taken : n.deliverFound id r =
            (true, { n with tasks := [(id, .query ⟨inbox ++ [r], false⟩)], ready }) := by
          simp [deliverFound, found, room, resumed]
        rw [taken]
        exact .take r ready work (by simp [foundIn, taken])
      · exact refuse (by simp [deliverFound, found, room])

theorem OneQuery.discovers_close (one : n.OneQuery opened) (id : TaskId) :
    n.Discovers (.close id) (n.endFound id).2 := by
  have refuse (same : (n.endFound id).2 = n)
      (other : ∀ inbox, n.tasks ≠ [(id, .query ⟨inbox, false⟩)]) :
      n.Discovers (.close id) (n.endFound id).2 := by
    rw [same]
    refine .nothing rfl rfl rfl fun i inbox work closed => ?_
    cases closed
    exact other inbox work
  rcases one.task?_cases id with ⟨none, -⟩ | ⟨⟨inbox, ended⟩, found, work⟩
  · refine refuse (by simp [endFound, none]) fun inbox work => ?_
    simp [task?, work] at none
  · cases ended with
    | true => exact refuse (by simp [endFound, found]) (by simp [work])
    | false =>
      obtain ⟨ready, resumed⟩ := n.resume_eq work (.query ⟨inbox, true⟩)
      have ceased : (n.endFound id).2 =
          { n with tasks := [(id, .query ⟨inbox, true⟩)], ready } := by
        simp [endFound, found, resumed]
      rw [ceased]
      exact .cease ready work

theorem OneQuery.discovers_poll (one : n.OneQuery opened) (id : TaskId) :
    n.Discovers (.poll id) (n.poll id) := by
  rcases one.task?_cases id with ⟨none, -⟩ | ⟨⟨inbox, ended⟩, found, work⟩
  · have same : n.poll id = n := by simp [poll, none]
    rw [same]
    exact .nothing rfl rfl (by simp [takenIn, none]) (ne_of_closed? rfl)
  · have polled : n.poll id = n.pollQuery id ⟨inbox, ended⟩ := by simp [poll, found]
    have taken : n.takenIn (.poll id) = inbox := by simp [takenIn, found]
    obtain ⟨goesOn, timers, ends⟩ := n.pollQuery_eq work inbox
    rw [polled]
    cases ended with
    | false =>
      rw [goesOn]
      exact .read work taken
    | true =>
      rw [ends]
      exact .finish timers work taken

theorem OneQuery.discovers (one : n.OneQuery opened) (s : DiscoveryStep) :
    n.Discovers s (n.discoveryStep s) := by
  cases s with
  | activate => exact one.discovers_call rfl
  | beat => exact one.discovers_call rfl
  | switch active => exact .aside active n.table 0 rfl rfl rfl (ne_of_closed? rfl)
  | reply id r => exact one.discovers_reply id r
  | close id => exact one.discovers_close id
  | poll id => exact one.discovers_poll id
  | links table => exact .aside n.discovery.active table 0 rfl rfl rfl (ne_of_closed? rfl)
  | advance ms => exact .aside n.discovery.active n.table ms rfl rfl rfl (ne_of_closed? rfl)

theorem Discovers.frame (turn : n.Discovers s m) :
    m.here = n.here ∧ m.config = n.config ∧ n.now ≤ m.now := by
  cases turn with
  | ask | take | cease => exact ⟨rfl, rfl, Nat.le_refl _⟩
  | read | finish =>
    rw [foldl_learn]
    exact ⟨rfl, rfl, Nat.le_refl _⟩
  | aside => exact ⟨rfl, rfl, Nat.le_add_right ..⟩

theorem OneQuery.queriesIn_eq (one : n.OneQuery opened) (s : DiscoveryStep) :
    n.queriesIn s = if s.isCall && n.wouldQuery then [n.created] else [] := by
  have same {m : Node} (actions : m.actions = n.actions) :
      (m.actions.drop n.actions.length).filterMap (·.query?) = [] := by
    rw [actions, List.drop_length]
    rfl
  have turn := one.discovers s
  unfold queriesIn
  generalize n.discoveryStep s = m at turn ⊢
  cases turn with
  | ask sends => simp [sends, NodeAction.query?]
  | take | cease => exact same rfl
  | read | finish =>
    rw [foldl_learn]
    exact same rfl
  | aside active table later silent =>
    rw [silent]
    exact same rfl

theorem OneQuery.discoveryStep (one : n.OneQuery opened) (s : DiscoveryStep) :
    (n.discoveryStep s).OneQuery (n.openAfter opened s) := by
  have turn := one.discovers s
  rw [openAfter, one.queriesIn_eq]
  generalize n.discoveryStep s = m at turn ⊢
  cases turn with
  | ask sends =>
    obtain ⟨call, due⟩ := Bool.and_eq_true_iff.mp sends
    obtain ⟨-, -, closed⟩ := quiet_of_isCall (n := n) call
    refine Or.inr ⟨rfl, n.created, [], false, rfl, ?_⟩
    simp [sends, closed, (one.of_wouldQuery due).2]
  | @take id inbox r ready work =>
    obtain ⟨querying, opens⟩ := one.of_work work
    refine Or.inr ⟨querying, id, inbox ++ [r], false, rfl, ?_⟩
    simp [DiscoveryStep.isCall, DiscoveryStep.closed?, opens]
  | @cease id inbox ready work =>
    obtain ⟨querying, opens⟩ := one.of_work work
    refine Or.inr ⟨querying, id, inbox, true, rfl, ?_⟩
    simp [DiscoveryStep.isCall, DiscoveryStep.closed?, opens]
  | @read id inbox work =>
    obtain ⟨querying, opens⟩ := one.of_work work
    rw [foldl_learn]
    refine Or.inr ⟨querying, id, [], false, rfl, ?_⟩
    simp [DiscoveryStep.isCall, DiscoveryStep.closed?, opens]
  | finish timers work =>
    obtain ⟨-, opens⟩ := one.of_work work
    refine Or.inl ⟨rfl, rfl, ?_⟩
    simp [DiscoveryStep.isCall, opens]
  | aside active table later silent found taken goesOn =>
    rw [silent]
    rcases one with ⟨querying, idle, closed⟩ | ⟨querying, id, inbox, ended, work, opens⟩
    · exact Or.inl ⟨querying, idle, by simp [closed]⟩
    · refine Or.inr ⟨querying, id, inbox, ended, work, ?_⟩
      cases ended with
      | true => simp [opens]
      | false => simp [opens, goesOn id inbox work]

theorem OneQuery.discoverySteps (one : n.OneQuery opened) (steps : List DiscoveryStep) :
    (n.discoverySteps steps).OneQuery (n.openQueries opened steps) := by
  induction steps generalizing n opened with
  | nil => exact one
  | cons s steps ih => exact ih (one.discoveryStep s)

theorem OneQuery.frame_discoverySteps (one : n.OneQuery opened) (steps : List DiscoveryStep) :
    (n.discoverySteps steps).here = n.here ∧ (n.discoverySteps steps).config = n.config := by
  induction steps generalizing n opened with
  | nil => exact ⟨rfl, rfl⟩
  | cons s steps ih =>
    obtain ⟨here, config, -⟩ := (one.discovers s).frame
    obtain ⟨here', config'⟩ := ih (one.discoveryStep s)
    exact ⟨here'.trans here, config'.trans config⟩

end

section

variable (here : RingAddress) (config : OverlayConfig) (table : ConnectionTable) (channel : Bool)

theorem create_knowing : (create here config table channel).here = here ∧
    (create here config table channel).config = config ∧
    (create here config table channel).tasks = [] ∧
    (create here config table channel).discovery = .fresh ∧
    (create here config table channel).remoteTransports =
      mergeTransports [] (config.network.remoteTransports.map Transport.mk) := by
  obtain ⟨overlords, methods, managed, created⟩ := create_eq here config table channel
  rw [created]
  exact ⟨rfl, rfl, rfl, rfl, rfl⟩

theorem oneQuery_create : (create here config table channel).OneQuery [] := by
  obtain ⟨-, -, idle, fresh, -⟩ := create_knowing here config table channel
  exact Or.inl ⟨by rw [fresh]; rfl, idle, rfl⟩

theorem frame_create (steps : List DiscoveryStep) :
    ((create here config table channel).discoverySteps steps).here = here ∧
      ((create here config table channel).discoverySteps steps).config = config := by
  obtain ⟨own, same, -⟩ := create_knowing here config table channel
  obtain ⟨own', same'⟩ := (oneQuery_create here config table channel).frame_discoverySteps steps
  exact ⟨own'.trans own, same'.trans same⟩

end

end Node

end RingOverlay

import RingOverlay.Node.EndpointSteps
import RingOverlay.Proofs.Node.Agreement
import RingOverlay.Proofs.Node.Moves
/-!
Which of its own endpoints a node tells of. In handshakes it names the first of them, no more than
configured: in a request of one of its policies those that it had when the handshake began, in a reply
those that it has. To nearby nodes it names all of them.
-/

set_option autoImplicit false
set_option relaxedAutoImplicit false

namespace RingOverlay.Node

def profile (n : Node) : RingAddress × OverlayConfig × RpcRegistry NodeMethod × List Transport :=
  (n.here, n.config, n.methods, n.localTransports)

structure Discreet (n m : Node) : Prop where
  profile : m.profile = n.profile
  mute : Mute n m

/-- The handshakes that the policies of a node have under way, by their numbers and requests. -/
def Carries (n : Node) (id : TaskId) (r : ConnectRequest) : Prop :=
  ∃ h, (id, Task.handshake h) ∈ n.tasks ∧ (∀ policy, h.owner ≠ .outside policy) ∧
    h.exchange.request = r

/-- The node describes itself in one way, and so does every handshake of one of its policies, unless it
carries its request from before. -/
structure Announces (described : NodeInfo) (carried : TaskId → ConnectRequest → Prop)
    (n : Node) : Prop where
  info : n.info = described
  requests : ∀ id r, n.Carries id r → carried id r ∨ ∃ type, r = .ofTarget type described

section

variable {described : NodeInfo} {carried : TaskId → ConnectRequest → Prop} {old : TaskId} {wakes : Prop}
  {asks : LinkRequest → Prop} {c : Nat} {n m : Node} {id : TaskId} {t : Task} {h : HandshakeTask}

/-! Connect calls. -/

theorem discreet_routine : CountingRoutine Discreet where
  refl _ := ⟨rfl, mute_of_actions rfl⟩
  trans first second := ⟨second.profile.trans first.profile, first.mute.trans second.mute⟩
  aside {n m} same := by
    have profile : m.core.profile = n.core.profile := congrArg Node.profile same
    have actions : m.core.actions = n.core.actions := congrArg Node.actions same
    exact ⟨profile, mute_of_actions actions⟩
  act n _ silent := ⟨rfl, mute_act n silent⟩
  spawnResting _ _ _ := ⟨rfl, mute_of_actions rfl⟩
  setTask _ _ _ _ _ _ _ := ⟨rfl, mute_of_actions rfl⟩
  setIdle _ _ _ _ := ⟨rfl, mute_of_actions rfl⟩
  endTask _ _ := ⟨rfl, mute_of_actions rfl⟩
  attend _ _ _ _ := ⟨rfl, mute_of_actions rfl⟩
  mark _ _ _ := ⟨rfl, mute_of_actions rfl⟩
  seek _ _ _ := ⟨rfl, mute_of_actions rfl⟩
  recount _ := ⟨rfl, mute_of_actions rfl⟩
  rise _ := ⟨rfl, mute_of_actions rfl⟩

structure Invites (n m : Node) : Prop where
  profile : m.profile = n.profile
  calls : ∃ new, m.actions = n.actions ++ new ∧ ∀ id target r, .invoke id target r ∈ new →
    ∃ h, n.task? id = some (.handshake h) ∧ h.exchange.request = r

theorem Discreet.invites (discreet : Discreet n m) : Invites n m := by
  obtain ⟨new, asked, silent⟩ := discreet.mute
  exact ⟨discreet.profile, new, asked, fun _ _ _ member => by cases silent _ member⟩

theorem invites_pollHandshake (found : n.task? id = some (.handshake h)) :
    Invites n (n.pollHandshake id h) := by
  have heard : Discreet n (h.turn n.here (n.shouldAbort h.abort) (handleReply h.owner) n).2 :=
    discreet_routine.turn h n
  cases turned : (h.turn n.here (n.shouldAbort h.abort) (handleReply h.owner) n).1 with
  | call k =>
    rw [pollHandshake_call turned]
    refine ⟨rfl, [.invoke id h.exchange.target h.exchange.request], rfl, fun i target r member => ?_⟩
    cases List.mem_singleton.mp member
    exact ⟨h, found, rfl⟩
  | rest k =>
    rw [pollHandshake_rest turned]
    have rests : Discreet n ((h.turn n.here (n.shouldAbort h.abort) (handleReply h.owner) n).2.setTask
        id (.handshake { h with toHandshake := k })) := ⟨heard.profile, heard.mute⟩
    exact rests.invites
  | done r =>
    rw [pollHandshake_done turned]
    exact (discreet_routine.trans heard (discreet_routine.trans (discreet_routine.endTask _ id)
      (discreet_routine.finishHandshake ..))).invites

theorem invites_move (n : Node) (m : NodeMove) : Invites n (n.move m) := by
  by_cases polls : ∃ id h, m = .step (.poll id) ∧ n.task? id = some (.handshake h)
  · obtain ⟨id, h, rfl, found⟩ := polls
    rw [move_poll found]
    exact invites_pollHandshake found
  · have allows : Allows Discreet n m := by
      unfold Allows
      split
      · exact fun _ _ => ⟨rfl, mute_of_actions rfl⟩
      · exact ⟨rfl, mute_of_actions rfl⟩
      · exact ⟨rfl, mute_of_actions rfl⟩
      · exact fun h found => absurd ⟨_, h, rfl, found⟩ polls
      · exact fun _ _ => ⟨rfl, mute_of_actions rfl⟩
      · trivial
    exact (discreet_routine.move n m allows).invites

/-! Requests. -/

theorem Announces.congr (announces : Announces described carried n) (info : m.info = n.info)
    (tasks : m.tasks = n.tasks) : Announces described carried m := by
  refine ⟨info.trans announces.info, fun id r carries => announces.requests id r ?_⟩
  rw [Carries, tasks] at carries
  exact carries

theorem Announces.spawnResting (announces : Announces described carried n)
    (introduces : ∀ h, t = .handshake h → (∀ policy, h.owner ≠ .outside policy) →
      ∃ type, h.exchange.request = .ofTarget type n.info) :
    Announces described carried (n.spawnResting t) := by
  refine ⟨announces.info, ?_⟩
  rintro id r ⟨h, member, own, rfl⟩
  rcases List.mem_append.mp member with old | new
  · exact announces.requests id _ ⟨h, old, own, rfl⟩
  · cases List.mem_singleton.mp new
    rw [← announces.info]
    exact Or.inr (introduces h rfl own)

theorem Announces.endTask (announces : Announces described carried n) (id : TaskId) :
    Announces described carried (n.endTask id) := by
  refine ⟨announces.info, ?_⟩
  rintro i r ⟨h, member, own, request⟩
  exact announces.requests i r ⟨h, List.mem_of_mem_filter member, own, request⟩

theorem Announces.setTask (announces : Announces described carried n)
    (goes : ∀ u, (id, u) ∈ n.tasks → u.GoesOn n.here t) :
    Announces described carried (n.setTask id t) := by
  refine ⟨announces.info, ?_⟩
  rintro i r ⟨h, member, own, rfl⟩
  rcases mem_setTask member with old | ⟨same, u, before⟩
  · exact announces.requests i _ ⟨h, old, own, rfl⟩
  · cases same
    cases goes u before with
    | handshake owner kept request =>
      have own' := fun policy outside => own policy (owner.trans outside)
      exact announces.requests _ _ ⟨_, before, own', request.symm⟩

theorem Announces.launch (announces : Announces described carried n) (role : LinkRole) (r : LinkRequest) :
    Announces described carried (n.launch role r) := by
  have told : Announces described carried (n.act (.link n.created r)) := announces.congr rfl rfl
  exact told.spawnResting fun _ same => by cases same

theorem announces_linking (described : NodeInfo) (carried : TaskId → ConnectRequest → Prop)
    (asks : LinkRequest → Prop) :
    Linking asks fun n m => Announces described carried n → Announces described carried m where
  refl _ announces := announces
  trans first second announces := second (first announces)
  attempts _ _ announces := announces.congr rfl rfl
  launch _ _ _ _ _ announces := announces.launch ..

theorem Announces.startHandshake (announces : Announces described carried n) (owner : HandshakeOwner)
    (target : RpcTarget) (type : String) (abort : AbortRule) :
    Announces described carried (n.startHandshake owner target type abort) := by
  have begun : Announces described carried (n.spawnResting (.handshake
      ⟨.begin target (n.connectRequest type), owner, abort, n.config.timing.replyTimeoutMs⟩)) :=
    announces.spawnResting fun h same _ => by
      cases same
      exact ⟨type, rfl⟩
  exact begun.congr rfl rfl

theorem Announces.activateUnstructured (announces : Announces described carried n) :
    Announces described carried n.activateUnstructured := by
  rcases n.activateUnstructured_cases with ⟨base, words, -, sought⟩ | ⟨target, words, -, -, sought⟩
  · rw [sought]
    exact announces.congr rfl rfl
  · rw [sought]
    refine Announces.startHandshake ?_ _ _ _ _
    exact announces.congr rfl rfl

theorem Works.announces (works : Works old wakes asks c n m) (announces : Announces described carried n) :
    Announces described carried m := by
  induction works with
  | nothing | unheeded => exact announces
  | chain _ _ first second => exact second (first announces)
  | aside change =>
    exact announces.congr (congrArg Node.info change.frame :) (congrArg Node.tasks change.frame :)
  | tell n => exact announces.congr rfl rfl
  | begin n plain =>
    refine announces.spawnResting fun h same own => ?_
    rw [same] at plain
    simp only [Task.isPlain, decide_eq_true_eq] at plain
    -- Only handshakes from outside begin without being sought.
    cases owner : h.owner with
    | unstructured => exact absurd owner plain.1
    | managed => exact absurd owner plain.2.1
    | outside policy => exact absurd owner (own policy)
  | goOn n goes => exact announces.setTask goes
  | finish n => exact announces.endTask _
  | submit n asked => exact (announces_linking ..).submit n asked announces
  | worker n _ _ asked =>
    exact (announces_linking ..).workerFinished _ asked (announces.endTask _)
  | seekLeaf n => exact announces.launch ..
  | seekWalk n =>
    refine Announces.activateUnstructured ?_
    exact announces.congr rfl rfl
  | endWalk n early =>
    rename_i id _ _
    have ended := announces.endTask id
    simp only [unstructuredFinished]
    split
    · refine Announces.activateUnstructured ?_
      exact ended.congr rfl rfl
    · exact ended.congr rfl rfl
  | seekPin n => exact announces.startHandshake _ _ _ _
  | seekNearby n =>
    have told : Announces described carried (n.act (.query n.created default)) := announces.congr rfl rfl
    exact told.spawnResting fun _ same => by cases same

end

theorem answerConnect_eq_ok_iff {n : Node} {args v : Value} : (n.answerConnect args).1 = .ok v ↔
    ∃ r, ConnectRequest.ofValue args = .ok r ∧ r.target.address ≠ n.here ∧
      v = ConnectRequest.toValue
        ⟨r.connectionType, n.info, n.neighborsFor r.target.address, r.token⟩ := by
  cases decoded : ConnectRequest.ofValue args with
  | error e => simp [answerConnect_malformed decoded]
  | ok r =>
    by_cases own : r.target.address = n.here
    · simp [answerConnect_self decoded own, own]
    · rw [answerConnect_other decoded own]
      constructor
      · intro answered
        exact ⟨r, rfl, own, (Except.ok.inj answered).symm⟩
      · rintro ⟨s, same, -, rfl⟩
        cases same
        rfl

/-! Runs. -/

def handlers : RpcRegistry NodeMethod :=
  (RpcRegistry.empty.register connectMethod .connect).register discoveryMethod .describe

def endpointLists (config : OverlayConfig) (steps : List EndpointStep) : List (List Transport) :=
  config.network.localTransports.map Transport.mk :: steps.filterMap EndpointStep.endpoints?

def introduction (here : RingAddress) (config : OverlayConfig) (ts : List Transport) : NodeInfo :=
  ⟨here, ts.take config.handshake.maxTransports⟩

structure Served (home : RingAddress) (settings : OverlayConfig) (lists : List (List Transport))
    (n : Node) : Prop where
  numbered : n.Numbered
  here : n.here = home
  config : n.config = settings
  methods : n.methods = handlers
  listens : lists.getLast? = some n.localTransports
  requests : ∀ id r, n.Carries id r →
    ∃ type, ∃ ts ∈ lists, r = .ofTarget type (introduction home settings ts)

section

variable {here : RingAddress} {config : OverlayConfig} {lists : List (List Transport)} {n m : Node}

theorem Served.info (served : Served here config lists n) :
    n.info = introduction here config n.localTransports := by
  rw [Node.info, served.here, served.config]
  rfl

theorem Served.dispatch_connect (served : Served here config lists n) (args : Value) :
    n.dispatch connectMethod args = n.answerConnect args := by
  rw [dispatch, served.methods]
  rfl

theorem Served.dispatch_discovery (served : Served here config lists n) (args : Value) :
    n.dispatch discoveryMethod args = (.ok n.description.toValue, n) := by
  rw [dispatch, served.methods]
  rfl

theorem Numbered.announces_move (numbered : n.Numbered) (m : NodeMove) :
    Announces n.info n.Carries (n.move m) :=
  (works_move numbered m).announces ⟨rfl, fun _ _ carries => Or.inl carries⟩

theorem Served.listed (served : Served here config lists n) : n.localTransports ∈ lists :=
  List.mem_of_getLast? served.listens

theorem Served.request (served : Served here config lists n) {id : TaskId} {h : HandshakeTask}
    {r : ConnectRequest} (found : n.task? id = some (.handshake h)) (request : h.exchange.request = r) :
    (∃ policy, h.owner = .outside policy) ∨
      ∃ type, ∃ ts ∈ lists, r = .ofTarget type (introduction here config ts) := by
  by_cases own : ∀ policy, h.owner ≠ .outside policy
  · exact Or.inr (served.requests id r ⟨h, mem_of_task? found, own, request⟩)
  · simp only [not_forall, not_not] at own
    exact Or.inl own

theorem Served.move (served : Served here config lists n) (m : NodeMove) :
    Served here config lists (n.move m) := by
  have profile := (invites_move n m).profile
  simp only [Node.profile, Prod.mk.injEq] at profile
  obtain ⟨here', config', methods, listens⟩ := profile
  refine ⟨(works_move served.numbered m).kept.numbered served.numbered, here'.trans served.here,
    config'.trans served.config, methods.trans served.methods, listens ▸ served.listens, ?_⟩
  intro id r carries
  rcases (served.numbered.announces_move m).requests id r carries with before | ⟨type, begun⟩
  · exact served.requests id r before
  · rw [served.info] at begun
    exact ⟨type, _, served.listed, begun⟩

theorem Served.listenOn (served : Served here config lists n) (ts : List Transport) :
    Served here config (lists ++ [ts]) (n.listenOn ts) := by
  refine ⟨served.numbered.congr rfl rfl, served.here, served.config, served.methods,
    List.getLast?_concat, fun id r carries => ?_⟩
  obtain ⟨type, us, listed, request⟩ := served.requests id r carries
  exact ⟨type, us, List.mem_append_left _ listed, request⟩

theorem Served.endpointSteps (served : Served here config lists n) (steps : List EndpointStep) :
    Served here config (lists ++ steps.filterMap EndpointStep.endpoints?) (n.endpointSteps steps) := by
  induction steps generalizing n lists with
  | nil =>
    rw [List.filterMap_nil, List.append_nil]
    exact served
  | cons s steps ih =>
    cases s with
    | move m => exact ih (served.move m)
    | listenOn ts =>
      have rest := ih (served.listenOn ts)
      rw [List.append_assoc] at rest
      exact rest

theorem profile_create (here : RingAddress) (config : OverlayConfig) (table : ConnectionTable)
    (channel : Bool) : (create here config table channel).profile =
      (here, config, handlers, config.network.localTransports.map Transport.mk) := by
  refine (discreet_routine.foldl (fun n name => ?_) config.managed.pinned _).profile
  cases RingAddress.ofText name with
  | ok a => exact discreet_routine.pin n a ⟨rfl, mute_of_actions rfl⟩
  | error e => exact discreet_routine.refl n

theorem served_create (here : RingAddress) (config : OverlayConfig) (table : ConnectionTable)
    (channel : Bool) :
    Served here config (endpointLists config []) (create here config table channel) := by
  have profile := profile_create here config table channel
  simp only [Node.profile, Prod.mk.injEq] at profile
  obtain ⟨here', config', methods, listens⟩ := profile
  refine ⟨numbered_create here config table channel, here', config', methods, ?_, ?_⟩
  · rw [listens]
    rfl
  · obtain ⟨overlords, methods, pinned⟩ := works_create 0 False (fun _ => False) here config table channel
    have begun : Announces (introduction here config (config.network.localTransports.map Transport.mk))
        (fun _ _ => False) (create here config table channel) := by
      refine pinned.announces ⟨rfl, ?_⟩
      rintro _ _ ⟨_, member, -⟩
      exact absurd member List.not_mem_nil
    intro id r carries
    obtain ⟨type, request⟩ := (begun.requests id r carries).resolve_left not_false
    exact ⟨type, _, List.mem_singleton_self _, request⟩

end

/-- Create a node and give it other endpoints to listen on at any time. The last list given is in force.
A handshake that a policy begins describes the node with the first endpoints of the list in force, as
many as configured, and so it is described in every connect call but those made from outside. Every reply
to a connect call describes it with as many of the present endpoints. The reply to a discovery call names
all present endpoints, so that both kinds name the same ones exactly if these are no more than
configured. -/
theorem advertised_endpoints (here : RingAddress) (config : OverlayConfig) (table : ConnectionTable)
    (channel : Bool) (steps : List EndpointStep) :
    let n := (create here config table channel).endpointSteps steps
    let most := config.handshake.maxTransports
    (endpointLists config steps).getLast? = some n.localTransports ∧
    (∀ m id r, (n.move m).Carries id r →
      n.Carries id r ∨ ∃ type, r = .ofTarget type ⟨here, n.localTransports.take most⟩) ∧
    (∀ m, ∃ new, (n.move m).actions = n.actions ++ new ∧ ∀ id target r, .invoke id target r ∈ new →
      ∃ h, n.task? id = some (.handshake h) ∧ h.exchange.request = r ∧
        ((∃ policy, h.owner = .outside policy) ∨
          ∃ type, ∃ ts ∈ endpointLists config steps, r = .ofTarget type ⟨here, ts.take most⟩)) ∧
    (∀ args v, (n.dispatch connectMethod args).1 = .ok v ↔
      ∃ r, ConnectRequest.ofValue args = .ok r ∧ r.target.address ≠ here ∧
        v = ConnectRequest.toValue ⟨r.connectionType, ⟨here, n.localTransports.take most⟩,
          n.neighborsFor r.target.address, r.token⟩) ∧
    (∀ args, n.dispatch discoveryMethod args =
      (.ok (DiscoveryReply.toValue ⟨here, config.node.realm, n.localTransports⟩), n)) ∧
    (n.info.transports = n.description.transports ↔ n.localTransports.length ≤ most) := by
  intro n most
  have served : Served here config (endpointLists config steps) n :=
    (served_create here config table channel).endpointSteps steps
  refine ⟨served.listens, fun m id r carries => ?_, fun m => ?_, fun args v => ?_, fun args => ?_, ?_⟩
  · have announces := (served.numbered.announces_move m).requests id r carries
    rw [served.info] at announces
    exact announces
  · obtain ⟨new, asked, calls⟩ := (invites_move n m).calls
    refine ⟨new, asked, fun id target r member => ?_⟩
    obtain ⟨h, found, request⟩ := calls id target r member
    exact ⟨h, found, request, served.request found request⟩
  · rw [served.dispatch_connect, answerConnect_eq_ok_iff, served.info, served.here]
    rfl
  · rw [served.dispatch_discovery, description, realm, served.here, served.config]
  · rw [served.info]
    exact List.take_eq_self_iff _

def moving : List EndpointStep :=
  [.move (.switch true .managed), .move (.step (.pin (.floor 96))), .listenOn [⟨"udp://10.0.0.3:7400"⟩]]

def earlyRequest : ConnectRequest :=
  .ofTarget managedType ⟨.floor 80, [⟨"udp://10.0.0.1:7400"⟩]⟩

/-- The node of two endpoints that tells of one moves to a third. The call that it makes then still names
the first, and its replies name the third. -/
theorem advertised_endpoints_moving :
    let n := seeker.endpointSteps moving
    (n.move (.step (.poll 0))).actions = [.invoke 0 (.exact (.floor 96)) earlyRequest] ∧
    (∃ type, ∃ ts ∈ endpointLists seeker.config moving,
      earlyRequest = .ofTarget type ⟨.floor 80, ts.take 1⟩) ∧
    (n.dispatch connectMethod asked.toValue).1 = .ok (ConnectRequest.toValue
      ⟨"structured.near", ⟨.floor 80, [⟨"udp://10.0.0.3:7400"⟩]⟩, [], "t-9"⟩) ∧
    n.info.transports = n.description.transports := by
  intro n
  have same : (create (.floor 80) seeker.config .empty false).endpointSteps moving = n := rfl
  obtain ⟨-, -, calls, replies, -, alike⟩ :=
    advertised_endpoints (.floor 80) seeker.config .empty false moving
  rw [same] at calls replies alike
  have called : (n.move (.step (.poll 0))).actions =
      [.invoke 0 (.exact (.floor 96)) earlyRequest] := by rfl
  have owner : (n.task? 0).bind (fun t => t.mail.map (·.1)) = some .managed := by decide +kernel
  obtain ⟨new, asked', described⟩ := calls (.step (.poll 0))
  have all : new = [.invoke 0 (.exact (.floor 96)) earlyRequest] := by
    rw [← called]
    exact asked'.symm
  obtain ⟨h, found, -, ⟨policy, outside⟩ | known⟩ :=
    described 0 (.exact (.floor 96)) earlyRequest (all ▸ List.mem_singleton_self _)
  · have own : h.owner = .managed := by
      rw [found] at owner
      exact Option.some.inj owner
    rw [own] at outside
    cases outside
  · have present : n.localTransports = [⟨"udp://10.0.0.3:7400"⟩] := by decide +kernel
    have near : n.neighborsFor asked.target.address = [] := by decide +kernel
    rw [present] at replies alike
    refine ⟨called, known, (replies _ _).mpr ⟨asked, asked.ofValue_toValue, by decide +kernel, ?_⟩, ?_⟩
    · rw [near]
      rfl
    · exact alike.mpr (by decide +kernel)

/-- The reply to a discovery call names both endpoints of a node that is configured to tell of one. -/
theorem discovery_reply_not_cut :
    seeker.config.handshake.maxTransports = 1 ∧ seeker.info.transports.length = 1 ∧
    seeker.description.transports.length = 2 ∧
    seeker.dispatch discoveryMethod .null = (.ok seeker.description.toValue, seeker) :=
  ⟨by decide +kernel, by decide +kernel, by decide +kernel, rfl⟩

end RingOverlay.Node

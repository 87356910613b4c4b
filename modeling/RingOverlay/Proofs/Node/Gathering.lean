import RingOverlay.Proofs.Node.Discovery
import RingOverlay.Proofs.Overlord.Discovery
/-!
What a node gathers from discovery. However the replies are divided among queries and whenever they are
read, the node knows the configured endpoints and what the replies from its own realm told it. Other
replies leave no trace, and the order of replies shows in nothing but the order of the endpoints.
-/

set_option autoImplicit false
set_option relaxedAutoImplicit false

namespace RingOverlay

/-- The replies to a query that wait to be read. -/
def Task.unread : Task → List DiscoveryReply
  | .query q => q.inbox
  | _ => []

/-- What is known after replies, if some endpoints were configured: the positions of other nodes of the
realm in ascending order, and the endpoints, each at its first appearance. -/
structure Gathered (here : RingAddress) (realm : String) (configured : List Transport)
    (rs : List DiscoveryReply) (n : Node) : Prop where
  ascending : DiscoveryOverlord.Ascending n.discovery.discovered
  mem_discovered : ∀ a, a ∈ n.discovery.discovered ↔
    ∃ r ∈ rs, r.realm = realm ∧ r.address ≠ here ∧ r.address = a
  nodup : n.remoteTransports.Nodup
  remote : n.remoteTransports =
    (configured ++ (DiscoveryOverlord.kin here realm rs).flatMap (·.transports)).eraseDups

theorem Gathered.congr {here : RingAddress} {realm : String} {configured : List Transport}
    {rs : List DiscoveryReply} {n m : Node} (h : Gathered here realm configured rs n)
    (remote : m.remoteTransports = n.remoteTransports)
    (discovered : m.discovery.discovered = n.discovery.discovered) :
    Gathered here realm configured rs m := by
  obtain ⟨ascending, members, nodup, known⟩ := h
  rw [← discovered] at ascending members
  rw [← remote] at nodup known
  exact ⟨ascending, members, nodup, known⟩

namespace Node

def unread (n : Node) : List DiscoveryReply := n.tasks.flatMap (·.2.unread)

/-- The replies that come in in several steps. -/
def found (n : Node) : List DiscoveryStep → List DiscoveryReply
  | [] => []
  | s :: steps => n.foundIn s ++ (n.discoveryStep s).found steps

def taken (n : Node) : List DiscoveryStep → List DiscoveryReply
  | [] => []
  | s :: steps => n.takenIn s ++ (n.discoveryStep s).taken steps

section

variable {n m : Node} {opened : List TaskId} {s : DiscoveryStep} {id : TaskId}

theorem unread_eq {inbox : List DiscoveryReply} {ended : Bool}
    (work : n.tasks = [(id, .query ⟨inbox, ended⟩)]) : n.unread = inbox := by
  simp [unread, work, Task.unread]

theorem OneQuery.foundIn_reply (one : n.OneQuery opened) (id : TaskId) (r : DiscoveryReply) :
    n.foundIn (.reply id r) =
      if id ∈ opened ∧ n.unread.length < DiscoveryOverlord.capacity then [r] else [] := by
  rcases one.task?_cases id with ⟨none, closed⟩ | ⟨⟨inbox, ended⟩, found, work⟩
  · rw [if_neg fun both => closed both.1]
    simp [foundIn, deliverFound, none]
  · rw [(one.of_work work).2, unread_eq work]
    cases ended with
    | true => simp [foundIn, deliverFound, found]
    | false =>
      by_cases room : inbox.length < DiscoveryOverlord.capacity <;>
        simp [foundIn, deliverFound, found, room]

theorem OneQuery.unread_discoveryStep (one : n.OneQuery opened) (s : DiscoveryStep) :
    n.unread ++ n.foundIn s = n.takenIn s ++ (n.discoveryStep s).unread := by
  have turn := one.discovers s
  generalize n.discoveryStep s = m at turn ⊢
  cases turn with
  | ask sends idle =>
    obtain ⟨found, taken, -⟩ := quiet_of_isCall (n := n) (Bool.and_eq_true_iff.mp sends).1
    simp [found, taken, unread, idle, Task.unread]
  | take r ready work found =>
    rw [found, unread_eq work, unread_eq rfl]
    rfl
  | cease ready work =>
    rw [unread_eq work, unread_eq rfl]
    exact List.append_nil _
  | read work taken =>
    rw [taken, unread_eq work, unread_eq rfl]
    rfl
  | finish timers work taken =>
    rw [taken, unread_eq work]
    rfl
  | aside active table later silent found taken =>
    rw [found, taken, List.append_nil]
    rfl

theorem OneQuery.unread_discoverySteps (one : n.OneQuery opened) (steps : List DiscoveryStep) :
    n.unread ++ n.found steps = n.taken steps ++ (n.discoverySteps steps).unread := by
  induction steps generalizing n opened with
  | nil => exact List.append_nil _
  | cons s steps ih =>
    rw [found, taken, ← List.append_assoc, one.unread_discoveryStep, List.append_assoc,
      ih (one.discoveryStep s), List.append_assoc]
    rfl

theorem foldl_learn_congr (here : m.here = n.here) (realm : m.realm = n.realm)
    (remote : m.remoteTransports = n.remoteTransports)
    (discovered : m.discovery.discovered = n.discovery.discovered) (rs : List DiscoveryReply) :
    (rs.foldl learn m).remoteTransports = (rs.foldl learn n).remoteTransports ∧
      (rs.foldl learn m).discovery.discovered = (rs.foldl learn n).discovery.discovered := by
  simp only [foldl_learn, here, realm, remote, discovered, and_self]

theorem Discovers.learned (turn : n.Discovers s m) :
    m.remoteTransports = ((n.takenIn s).foldl learn n).remoteTransports ∧
      m.discovery.discovered = ((n.takenIn s).foldl learn n).discovery.discovered := by
  cases turn with
  | ask sends =>
    obtain ⟨-, taken, -⟩ := quiet_of_isCall (n := n) (Bool.and_eq_true_iff.mp sends).1
    rw [taken]
    exact ⟨rfl, rfl⟩
  | take | cease => exact ⟨rfl, rfl⟩
  | read work taken | finish timers work taken =>
    rw [taken]
    exact ⟨rfl, rfl⟩
  | aside active table later silent found taken =>
    rw [taken]
    exact ⟨rfl, rfl⟩

theorem OneQuery.learned (one : n.OneQuery opened) (steps : List DiscoveryStep) :
    (n.discoverySteps steps).remoteTransports =
        ((n.taken steps).foldl learn n).remoteTransports ∧
      (n.discoverySteps steps).discovery.discovered =
        ((n.taken steps).foldl learn n).discovery.discovered := by
  induction steps generalizing n opened with
  | nil => exact ⟨rfl, rfl⟩
  | cons s steps ih =>
    have turn := one.discovers s
    obtain ⟨here, config, -⟩ := turn.frame
    obtain ⟨remote, discovered⟩ := turn.learned
    have realm : (n.discoveryStep s).realm = n.realm := congrArg (·.node.realm) config
    obtain ⟨remote', discovered'⟩ := foldl_learn_congr
      (here.trans (by rw [foldl_learn])) (realm.trans (by rw [foldl_learn]; rfl)) remote discovered
      ((n.discoveryStep s).taken steps)
    obtain ⟨remoteRest, discoveredRest⟩ := ih (one.discoveryStep s)
    rw [taken, List.foldl_append]
    exact ⟨remoteRest.trans remote', discoveredRest.trans discovered'⟩

end

section

variable (here : RingAddress) (config : OverlayConfig) (table table' : ConnectionTable)
  (channel channel' : Bool) (steps steps' : List DiscoveryStep)

theorem unread_create : (create here config table channel).unread = [] := by
  rw [unread, (create_knowing here config table channel).2.2.1]
  rfl

theorem gathered_foldl_learn (rs : List DiscoveryReply) :
    Gathered here config.node.realm (config.network.remoteTransports.map Transport.mk) rs
      (rs.foldl learn (create here config table channel)) := by
  obtain ⟨own, same, -, fresh, known⟩ := create_knowing here config table channel
  rw [foldl_learn]
  have nothing : DiscoveryOverlord.Ascending DiscoveryOverlord.fresh.discovered := List.Pairwise.nil
  refine ⟨?_, fun a => ?_, ?_, ?_⟩ <;>
    simp only [realm, own, same, fresh, known, mergeTransports_append]
  · exact nothing.foldl_insertAddress _
  · rw [DiscoveryOverlord.mem_foldl_insertAddress]
    simp [DiscoveryOverlord.fresh, DiscoveryOverlord.kin, DiscoveryOverlord.accepts, and_assoc]
  · exact nodup_mergeTransports List.nodup_nil _
  · exact mergeTransports_nil _

theorem gathered_create :
    Gathered here config.node.realm (config.network.remoteTransports.map Transport.mk)
      ((create here config table channel).taken steps)
      ((create here config table channel).discoverySteps steps) := by
  obtain ⟨remote, discovered⟩ := (oneQuery_create here config table channel).learned steps
  exact (gathered_foldl_learn here config table channel _).congr remote discovered

end

end Node

namespace Gathered

variable {here : RingAddress} {realm : String} {configured : List Transport}
  {rs rs' : List DiscoveryReply} {n n' : Node}

theorem mem_discovered_iff (h : Gathered here realm configured rs n) {a : RingAddress} :
    a ∈ n.discovery.discovered ↔ ∃ r ∈ DiscoveryOverlord.kin here realm rs, r.address = a := by
  rw [h.mem_discovered]
  simp [DiscoveryOverlord.kin, DiscoveryOverlord.accepts, and_assoc]

theorem eq_of_kin (h : Gathered here realm configured rs n) (h' : Gathered here realm configured rs' n')
    (same : DiscoveryOverlord.kin here realm rs = DiscoveryOverlord.kin here realm rs') :
    n.discovery.discovered = n'.discovery.discovered ∧ n.remoteTransports = n'.remoteTransports := by
  constructor
  · refine h.ascending.eq_of_mem_iff h'.ascending fun a => ?_
    rw [h.mem_discovered_iff, h'.mem_discovered_iff, same]
  · rw [h.remote, h'.remote, same]

theorem perm_of_kin (h : Gathered here realm configured rs n)
    (h' : Gathered here realm configured rs' n')
    (kin : (DiscoveryOverlord.kin here realm rs).Perm (DiscoveryOverlord.kin here realm rs')) :
    n.discovery.discovered = n'.discovery.discovered ∧
      n.remoteTransports.Perm n'.remoteTransports := by
  constructor
  · refine h.ascending.eq_of_mem_iff h'.ascending fun a => ?_
    simp only [h.mem_discovered_iff, h'.mem_discovered_iff, kin.mem_iff]
  · refine (List.perm_ext_iff_of_nodup h.nodup h'.nodup).mpr fun t => ?_
    rw [h.remote, h'.remote, List.mem_eraseDups, List.mem_eraseDups]
    exact ((kin.flatMap_right _).append_left configured).mem_iff

end Gathered

namespace Node

theorem admitRemote_fst (n : Node) (ts : List Transport) :
    (n.admitRemote ts).1 = (ts.toFinset \ n.remoteTransports.toFinset).card := by
  show (mergeTransports n.remoteTransports ts).length - n.remoteTransports.length = _
  rw [length_mergeTransports, Nat.add_sub_cancel_left]

/-- Take two nodes that have just been set up in one place with one configuration. Of any replies in
any order a node keeps what its own realm says. Now let the discovery policy of each be asked and told
anything. A reply comes in if its query is open and there is room, and the replies that have come
in are those that have been read, with those that wait to be read behind them. What a node knows is
gathered from the replies read, so two nodes know the same if these are the same but for replies that
are not from other nodes of the realm, and the same up to the order of endpoints if these are the same
up to order. Adding endpoints to those that a node knows tells how many different new ones there are. -/
theorem discovery_gathers (here : RingAddress) (config : OverlayConfig)
    (table table' : ConnectionTable) (channel channel' : Bool) (steps steps' : List DiscoveryStep) :
    let n := create here config table channel
    let n' := create here config table' channel'
    let m := n.discoverySteps steps
    let m' := n'.discoverySteps steps'
    let configured := config.network.remoteTransports.map Transport.mk
    let kin := DiscoveryOverlord.kin here config.node.realm
    (∀ rs, Gathered here config.node.realm configured rs (rs.foldl learn n)) ∧
    (∀ id r, m.foundIn (.reply id r) =
      if id ∈ n.openQueries [] steps ∧ m.unread.length < DiscoveryOverlord.capacity then [r]
      else []) ∧
    n.found steps = n.taken steps ++ m.unread ∧
    Gathered here config.node.realm configured (n.taken steps) m ∧
    (kin (n.taken steps) = kin (n'.taken steps') →
      m.discovery.discovered = m'.discovery.discovered ∧ m.remoteTransports = m'.remoteTransports) ∧
    ((kin (n.taken steps)).Perm (kin (n'.taken steps')) →
      m.discovery.discovered = m'.discovery.discovered ∧
        m.remoteTransports.Perm m'.remoteTransports) ∧
    ∀ (k : Node) (ts : List Transport),
      (k.admitRemote ts).1 = (ts.toFinset \ k.remoteTransports.toFinset).card := by
  intro n n' m m' configured kin
  have gathered : Gathered here config.node.realm configured (n.taken steps) m :=
    gathered_create here config table channel steps
  have gathered' : Gathered here config.node.realm configured (n'.taken steps') m' :=
    gathered_create here config table' channel' steps'
  have start : n.OneQuery [] := oneQuery_create here config table channel
  refine ⟨gathered_foldl_learn here config table channel,
    (start.discoverySteps steps).foundIn_reply, ?_, gathered, gathered.eq_of_kin gathered',
    gathered.perm_of_kin gathered', admitRemote_fst⟩
  have kept := start.unread_discoverySteps steps
  rw [unread_create, List.nil_append] at kept
  exact kept

def seeded : OverlayConfig := { network := { remoteTransports := ["udp://seed"] } }

def neighbor (a : AddressBits) (ts : List String) : DiscoveryReply :=
  ⟨.floor a, seeded.node.realm, ts.map Transport.mk⟩

/-- The replies of two neighbors come in for one query, with one from another realm and one of the node
itself in between, then for two queries, then in the other order. -/
theorem discovery_gathers_seeded :
    let n := create (.floor 2) seeded .empty true
    let far := neighbor 30 ["udp://b"]
    let near := neighbor 20 ["udp://a", "udp://b", "udp://a"]
    let mixed := [.switch true, .activate, .reply 0 far,
      .reply 0 ⟨.floor 40, "elsewhere", [⟨"udp://x"⟩]⟩, .reply 0 (neighbor 2 ["udp://y"]),
      .reply 0 near, .poll 0]
    let divided := [.switch true, .activate, .reply 0 far, .close 0, .poll 0, .advance 600000, .beat,
      .reply 1 near, .poll 1]
    let reversed := [.switch true, .activate, .reply 0 near, .poll 0, .reply 0 far, .poll 0]
    (n.discoverySteps mixed).discovery.discovered = [.floor 20, .floor 30] ∧
    (n.discoverySteps mixed).remoteTransports = [⟨"udp://seed"⟩, ⟨"udp://b"⟩, ⟨"udp://a"⟩] ∧
    (n.discoverySteps mixed).remoteTransports = (n.discoverySteps divided).remoteTransports ∧
    (n.discoverySteps mixed).discovery.discovered = (n.discoverySteps reversed).discovery.discovered ∧
    (n.discoverySteps reversed).remoteTransports = [⟨"udp://seed"⟩, ⟨"udp://a"⟩, ⟨"udp://b"⟩] ∧
    (n.admitRemote [⟨"udp://a"⟩, ⟨"udp://seed"⟩, ⟨"udp://a"⟩]).1 = 1 := by
  intro n far near mixed divided reversed
  subst n
  obtain ⟨-, -, -, -, same, -, new⟩ :=
    discovery_gathers (.floor 2) seeded .empty .empty true true mixed divided
  obtain ⟨-, -, -, -, -, order, -⟩ :=
    discovery_gathers (.floor 2) seeded .empty .empty true true mixed reversed
  have equal := (same (by decide +kernel)).2
  have ordered := (order (by decide +kernel)).1
  exact ⟨by decide +kernel, by decide +kernel, equal, ordered, by decide +kernel,
    (new _ _).trans (by decide +kernel)⟩

end Node

end RingOverlay

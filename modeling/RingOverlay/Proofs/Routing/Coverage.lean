import Mathlib.Algebra.Order.BigOperators.Group.List
import Mathlib.Combinatorics.SimpleGraph.Metric
import RingOverlay.Proofs.Routing.FirstHop
/-!
A flood with probability one covers its radius. Copies race on paths of any length, but a copy never
takes fewer hops than its node is away from the origin, and on a shortest path there is always one
that takes no more.
-/

set_option autoImplicit false
set_option relaxedAutoImplicit false

namespace RingOverlay

namespace Moment

variable {ν : Type}

def links (m : Moment ν) (n : ν) : List Connection := ((m.site n).table.view .unstructured).connections

def linkGraph (m : Moment ν) : SimpleGraph ν :=
  .fromRel fun n k => ∃ c ∈ m.links n, ∃ e, m.far n c.edge = some (k, e)

structure SeenFromBothEnds (m : Moment ν) : Prop where
  reachable : ∀ n, (m.site n).table.Reachable
  opened : ∀ n, ∀ c ∈ m.links n, (m.site n).accepts c.edge = true
  ends : ∀ n, ∀ c ∈ m.links n, ∃ k, ∃ d ∈ m.links k,
    m.far n c.edge = some (k, d.edge) ∧ m.far k d.edge = some (n, c.edge)

/-- Handlings with the knowledge of one moment, in any order and with any words. -/
def handlings (m : Moment ν) (order : List (Nat × Words)) : List (TransitStep ν) :=
  order.map fun (index, words) => .handle index m words

/-- The most copies that a packet can give rise to at a node, itself included, with so many hops left. -/
def offspring (m : Moment ν) : Nat → ν → Nat
  | 0, _ => 1
  | r + 1, n => 1 + ((m.links n).map fun c => (m.far n c.edge).elim 0 fun far => m.offspring r far.1).sum

section

variable {m : Moment ν} {n k : ν} {f g : Flight ν} {c : Connection} {e : EdgeId} {ws : Words}
  {p : Single}

theorem link_of_mem_copies {copy : PacketCopy} (flood : Transit.OfFlood p f)
    (sent : copy ∈ (m.handle f ws).outcome.copies) : ∃ c ∈ m.links f.node, c.edge = copy.edge := by
  obtain ⟨flag, dest⟩ := flood
  rw [Transit.outcome_flood dest] at sent
  exact Routing.link_of_mem_routeFlood sent

theorem edist_far_le (link : c ∈ m.links n) (far : m.far n c.edge = some (k, e)) :
    m.linkGraph.edist n k ≤ 1 := by
  rw [SimpleGraph.edist_le_one_iff_adj_or_eq, linkGraph, SimpleGraph.fromRel_adj]
  by_cases same : n = k
  · exact Or.inr same
  · exact Or.inl ⟨same, Or.inl ⟨c, link, e, far⟩⟩

theorem SeenFromBothEnds.link_of_adj (both : m.SeenFromBothEnds) (adj : m.linkGraph.Adj n k) :
    ∃ c ∈ m.links n, ∃ e, m.far n c.edge = some (k, e) := by
  rw [linkGraph, SimpleGraph.fromRel_adj] at adj
  rcases adj.2 with here | ⟨d, there, e, far⟩
  · exact here
  · obtain ⟨other, c, link, same, back⟩ := both.ends k d there
    obtain rfl : n = other := congrArg Prod.fst (Option.some.inj (far.symm.trans same))
    exact ⟨c, link, d.edge, back⟩

theorem exists_nearer {d : Nat} (away : m.linkGraph.edist n k = (d + 1 : Nat)) :
    ∃ u, m.linkGraph.edist n u = d ∧ m.linkGraph.Adj u k := by
  obtain ⟨walk, length⟩ := SimpleGraph.exists_walk_of_edist_eq_coe (SimpleGraph.edist_comm.trans away)
  cases walk with
  | nil => cases length
  | @cons _ u _ adj walk =>
    have short : m.linkGraph.edist n u ≤ d := by
      rw [SimpleGraph.edist_comm, ← Nat.succ.inj length]
      exact walk.edist_le
    refine ⟨u, le_antisymm short ?_, adj.symm⟩
    have step : m.linkGraph.edist u k = 1 := SimpleGraph.edist_eq_one_iff_adj.mpr adj.symm
    have triangle := m.linkGraph.edist_triangle (u := n) (v := u) (w := k)
    rw [away, step, Nat.cast_add, Nat.cast_one] at triangle
    exact (ENat.add_le_add_iff_right ENat.one_ne_top).mp triangle

theorem one_le_offspring (m : Moment ν) (r : Nat) (n : ν) : 1 ≤ m.offspring r n := by
  cases r with
  | zero => exact Nat.le_refl 1
  | succ r => exact Nat.le_add_right ..

private theorem sum_passed (via : ν → Nat) (copies : List PacketCopy) :
    ((copies.filterMap (m.pass n)).map fun g => via g.node).sum =
      (copies.map fun copy => (m.far n copy.edge).elim 0 fun far => via far.1).sum := by
  induction copies with
  | nil => rfl
  | cons copy copies ih =>
    rw [List.filterMap_cons, List.map_cons, List.sum_cons, ← ih]
    cases far : m.far n copy.edge <;> simp [pass, far]

theorem offspring_passed_lt (reachable : (m.site f.node).table.Reachable)
    (flood : Transit.OfFlood p f) (ws : Words) :
    ((m.handle f ws).passed.map fun g =>
        m.offspring (g.packet.ttl.toNat - g.packet.hops.toNat) g.node).sum <
      m.offspring (f.packet.ttl.toNat - f.packet.hops.toNat) f.node := by
  rcases eq_or_ne (m.handle f ws).passed [] with none_flew | some_flew
  · rw [none_flew]
    exact m.one_le_offspring ..
  · obtain ⟨g, flew⟩ := List.exists_mem_of_ne_nil _ some_flew
    obtain ⟨left, -, -⟩ := Flight.Passes.spends_hop ⟨m, ws, flew⟩
    rw [UInt16.lt_iff_toNat_lt] at left
    obtain ⟨r, hops⟩ : ∃ r, f.packet.ttl.toNat - f.packet.hops.toNat = r + 1 :=
      ⟨f.packet.ttl.toNat - f.packet.hops.toNat - 1, by omega⟩
    have fewer : (m.handle f ws).passed.map
        (fun g => m.offspring (g.packet.ttl.toNat - g.packet.hops.toNat) g.node) =
          (m.handle f ws).passed.map fun g => m.offspring r g.node := by
      refine List.map_congr_left fun g flew => ?_
      obtain ⟨-, spent, ttl⟩ := Flight.Passes.spends_hop ⟨m, ws, flew⟩
      rw [spent, ttl]
      congr 1
      omega
    have edges : ((m.handle f ws).outcome.copies.map (·.edge)).Subperm
        ((m.links f.node).map (·.edge)) := by
      refine (RouteSite.nodup_route reachable.arranged ..).subperm fun e member => ?_
      obtain ⟨copy, sent, rfl⟩ := List.mem_map.mp member
      obtain ⟨c, link, same⟩ := link_of_mem_copies flood sent
      exact List.mem_map.mpr ⟨c, link, same⟩
    obtain ⟨among, same, sub⟩ := edges
    rw [fewer, hops, offspring, Nat.add_comm, Nat.lt_succ_iff]
    let via (e : EdgeId) : Nat := (m.far f.node e).elim 0 fun far => m.offspring r far.1
    calc ((m.handle f ws).passed.map fun g => m.offspring r g.node).sum
        = ((m.handle f ws).outcome.copies.map fun copy => via copy.edge).sum :=
          sum_passed (m.offspring r) _
      _ = (among.map via).sum := by
          rw [(same.map via).sum_eq, List.map_map]
          rfl
      _ ≤ (((m.links f.node).map (·.edge)).map via).sum :=
          (sub.map via).sum_le_sum fun _ _ => Nat.zero_le _
      _ = _ := by
          rw [List.map_map]
          rfl

end

end Moment

namespace Transit

variable {ν : Type}

/-- What is known of a copy of a certain flood: it is the first packet further on, it has taken no
fewer hops than its node is away from the origin, and neither had its sender. -/
structure Spread (m : Moment ν) (first f : Flight ν) : Prop where
  flood : OfFlood .one f
  packet : ∃ hops destination,
    f.packet = { first.packet with hops := hops, destination := destination }
  within : f.packet.hops.toNat ≤ first.packet.ttl.toNat
  dist : m.linkGraph.edist first.node f.node ≤ f.packet.hops.toNat
  sender : f.incoming = none ∧ f.node = first.node ∨
    ∃ c ∈ m.links f.node, f.incoming = some c.edge ∧ ∃ u e, m.far f.node c.edge = some (u, e) ∧
      m.linkGraph.edist first.node u + 1 ≤ f.packet.hops.toNat

structure Unbroken (m : Moment ν) (first : Flight ν) (t : Transit ν) : Prop where
  begun : first ∈ t.flights
  handled : ∀ h ∈ t.log, ∃ f ws, h = m.handle f ws
  kept : ∀ h ∈ t.log, ∀ g ∈ h.passed, g ∈ t.flights
  spread : ∀ f ∈ t.flights, Spread m first f

/-- The most copies that those in flight can give rise to, themselves included. -/
def load (m : Moment ν) (t : Transit ν) : Nat :=
  (t.flying.map fun f => m.offspring (f.packet.ttl.toNat - f.packet.hops.toNat) f.node).sum

section

variable {m : Moment ν} {first f g : Flight ν} {t : Transit ν} {ws : Words} {n : ν} {i : Nat}

theorem Spread.ttl (spread : Spread m first f) : f.packet.ttl = first.packet.ttl := by
  obtain ⟨hops, destination, packet⟩ := spread.packet
  rw [packet]

private theorem Spread.passed (both : m.SeenFromBothEnds) (spread : Spread m first f)
    (flew : g ∈ (m.handle f ws).passed) : Spread m first g := by
  obtain ⟨copy, sent, packet, e, incoming, far⟩ := Moment.mem_passed flew
  obtain ⟨c, link, edge⟩ := Moment.link_of_mem_copies spread.flood sent
  have sentOn := (m.site f.node).sentOn_route f.incoming f.packet ws copy sent
  obtain ⟨left, hops, -⟩ := Flight.Passes.spends_hop ⟨m, ws, flew⟩
  rw [UInt16.lt_iff_toNat_lt, spread.ttl] at left
  rw [← edge] at far
  obtain ⟨k, d, there, same, back⟩ := both.ends f.node c link
  obtain ⟨rfl, rfl⟩ : g.node = k ∧ e = d.edge := by
    rw [far] at same
    exact Prod.mk.inj (Option.some.inj same)
  have dist := spread.dist
  refine ⟨spread.flood.passed flew, ?_, by omega, ?_,
    Or.inr ⟨d, there, incoming, f.node, c.edge, back, ?_⟩⟩
  · obtain ⟨before, destination, packet'⟩ := spread.packet
    rw [packet, sentOn.packet, packet']
    exact ⟨_, _, rfl⟩
  · rw [hops, Nat.cast_add, Nat.cast_one]
    exact SimpleGraph.edist_triangle.trans (add_le_add dist (Moment.edist_far_le link far))
  · rw [hops, Nat.cast_add, Nat.cast_one]
    exact add_le_add_left dist 1

private theorem Unbroken.step (both : m.SeenFromBothEnds) (unbroken : Unbroken m first t) (i : Nat)
    (ws : Words) : Unbroken m first (t.step (.handle i m ws)) := by
  refine ⟨mem_flights_handle unbroken.begun, ?_, ?_, forall_flights_step unbroken.spread ?_⟩
  · intro h member
    rcases handled_of_mem_log [.handle i m ws] member with before | ⟨j, n, f, vs, among, rfl⟩
    · exact unbroken.handled h before
    · cases List.mem_singleton.mp among
      exact ⟨f, ws, rfl⟩
  · rcases t.step_cases (.handle i m ws) with
      idle | ⟨f, rest, -, ⟨-, j, ⟨⟩⟩ | ⟨n, vs, ⟨j, ⟨⟩⟩, handled⟩⟩
    · rw [idle]
      exact unbroken.kept
    · intro h member g flew
      have logged : h ∈ t.log ∨ h = m.handle f ws := by
        rw [handled] at member
        simpa using member
      rcases logged with before | rfl
      · exact mem_flights_handle (unbroken.kept h before g flew)
      · rw [handled]
        exact List.mem_append_right _ (List.mem_append_right _ flew)
  · rintro j n vs ⟨⟩ f spread g flew
    exact spread.passed both flew

private theorem Unbroken.run (both : m.SeenFromBothEnds) (unbroken : Unbroken m first t)
    (order : List (Nat × Words)) : Unbroken m first (t.run (m.handlings order)) := by
  induction order generalizing t with
  | nil => exact unbroken
  | cons x order ih => exact ih (unbroken.step both x.1 x.2)

private theorem Unbroken.load_step (both : m.SeenFromBothEnds) (unbroken : Unbroken m first t)
    (i : Nat) (ws : Words) : t.step (.handle i m ws) = t ∨
      (t.step (.handle i m ws)).log.length = t.log.length + 1 ∧
        load m (t.step (.handle i m ws)) < load m t := by
  rcases t.step_cases (.handle i m ws) with
    idle | ⟨f, rest, taken, ⟨-, j, ⟨⟩⟩ | ⟨n, vs, ⟨j, ⟨⟩⟩, handled⟩⟩
  · exact Or.inl idle
  · right
    have flying : f ∈ t.flying := taken.mem_iff.mpr List.mem_cons_self
    have flood := (unbroken.spread f (List.mem_append_right _ flying)).flood
    have fewer := Moment.offspring_passed_lt (both.reachable f.node) flood ws
    have before := (taken.map fun f =>
      m.offspring (f.packet.ttl.toNat - f.packet.hops.toNat) f.node).sum_eq
    rw [List.map_cons, List.sum_cons] at before
    rw [handled, load, load, before, List.map_append, List.sum_append, List.length_append]
    exact ⟨rfl, by omega⟩

private theorem Unbroken.length_le (both : m.SeenFromBothEnds) (unbroken : Unbroken m first t)
    (order : List (Nat × Words)) :
    (t.run (m.handlings order)).log.length ≤ t.log.length + load m t := by
  induction order generalizing t with
  | nil => exact Nat.le_add_right ..
  | cons x order ih =>
    obtain ⟨i, ws⟩ := x
    have later := ih (unbroken.step both i ws)
    change (t.run (m.handlings ((i, ws) :: order))).log.length ≤ _ at later
    rcases unbroken.load_step both i ws with idle | ⟨length, lighter⟩
    · rwa [idle] at later
    · omega

private theorem Unbroken.exists_landed (both : m.SeenFromBothEnds) (unbroken : Unbroken m first t) :
    ∃ order, (t.run (m.handlings order)).flying = [] := by
  induction load : t.load m using Nat.strong_induction_on generalizing t with
  | _ w ih =>
    cases flying : t.flying with
    | nil => exact ⟨[], flying⟩
    | cons f rest =>
      rcases unbroken.load_step both 0 [] with idle | ⟨-, lighter⟩
      · have longer : (t.step (.handle 0 m [])).log.length = t.log.length + 1 := by
          simp [Transit.step, flying]
        rw [idle] at longer
        omega
      · obtain ⟨order, landed⟩ := ih _ (load ▸ lighter) (unbroken.step both 0 []) rfl
        exact ⟨(0, []) :: order, landed⟩

private theorem two_links {c d : Connection} {x y : ν × EdgeId} (here : c ∈ m.links n)
    (there : d ∈ m.links n) (one : m.far n c.edge = some x) (other : m.far n d.edge = some y)
    (apart : x.1 ≠ y.1) : 2 ≤ (m.site n).table.count .unstructured := by
  have distinct : [c, d].Nodup := by
    refine List.nodup_cons.mpr ⟨fun same => ?_, List.nodup_singleton d⟩
    obtain rfl := List.mem_singleton.mp same
    exact apart (congrArg Prod.fst (Option.some.inj (one.symm.trans other)))
  have among : [c, d] ⊆ m.links n := by simp [here, there]
  exact (distinct.subperm among).length_le

/-- Once no copy is in flight, a copy on a shortest path has been handled at every node within the
radius. The induction is on the distance: the copy that came to the node before on a shortest path
was not sent by the next node, which is further away than its sender. -/
private theorem Unbroken.exists_handled (both : m.SeenFromBothEnds) (unbroken : Unbroken m first t)
    (landed : t.flying = []) (zero : first.packet.hops = 0)
    (two : 2 ≤ (m.site first.node).table.count .unstructured) {d : Nat}
    (within : d ≤ first.packet.ttl.toNat) (n : ν) (dist : m.linkGraph.edist first.node n = d) :
    ∃ f ws, m.handle f ws ∈ t.log ∧ f.node = n ∧ f.packet.hops.toNat = d := by
  have logged {f : Flight ν} (member : f ∈ t.flights) : ∃ ws, m.handle f ws ∈ t.log := by
    rw [flights, landed, List.append_nil] at member
    obtain ⟨h, handled, rfl⟩ := List.mem_map.mp member
    obtain ⟨f, ws, rfl⟩ := unbroken.handled h handled
    exact ⟨ws, handled⟩
  induction d generalizing n with
  | zero =>
    obtain ⟨ws, member⟩ := logged unbroken.begun
    have here : first.node = n := SimpleGraph.edist_eq_zero_iff.mp dist
    exact ⟨first, ws, member, here, by rw [zero]; rfl⟩
  | succ d ih =>
    obtain ⟨u, near, adj⟩ := Moment.exists_nearer dist
    obtain ⟨f, ws, member, rfl, hops⟩ := ih (Nat.le_of_succ_le within) u near
    have spread := unbroken.spread f (List.mem_append_left _ (List.mem_map_of_mem member))
    obtain ⟨c, link, e, far⟩ := both.link_of_adj adj
    obtain ⟨wide, away⟩ :
        2 ≤ (m.site f.node).table.count .unstructured ∧ some c.edge ≠ f.incoming := by
      rcases spread.sender with ⟨nobody, origin⟩ | ⟨back, link', incoming, v, e', far', nearer⟩
      · rw [nobody, origin]
        exact ⟨two, Option.some_ne_none _⟩
      · have apart : n ≠ v := by
          rintro rfl
          rw [dist, hops] at nearer
          norm_cast at nearer
          omega
        refine ⟨two_links link link' far far' apart, ?_⟩
        rw [incoming]
        intro same
        rw [Option.some.inj same, far'] at far
        exact apart (congrArg Prod.fst (Option.some.inj far)).symm
    have left : f.packet.hops < f.packet.ttl := by
      rw [UInt16.lt_iff_toNat_lt, hops, spread.ttl]
      exact within
    obtain ⟨flag, dest⟩ := spread.flood
    obtain ⟨copy, sent, edge⟩ := Routing.certain_routeFlood ⟨flag, .one⟩ ws wide left rfl link
      away (both.opened f.node c link)
    rw [← outcome_flood dest] at sent
    have flew : ⟨n, some e, copy.packet⟩ ∈ (m.handle f ws).passed :=
      List.mem_filterMap.mpr ⟨copy, sent, by simp [Moment.pass, edge, far]⟩
    obtain ⟨ws', member'⟩ := logged (unbroken.kept _ member _ flew)
    obtain ⟨-, further, -⟩ := Flight.Passes.spends_hop ⟨m, ws, flew⟩
    exact ⟨_, ws', member', rfl, further.trans (congrArg (· + 1) hops)⟩

private theorem mem_takers {h : Handling ν} (member : h ∈ t.log) (taken : h.outcome.deliver = true) :
    h.flight.node ∈ t.takers :=
  List.mem_map_of_mem (List.mem_filter.mpr ⟨member, taken⟩)

/-- Inject a packet of a flood with probability one, with the flag of the first hop or without, at a
node with two unstructured links or more, in a network that does not change, whose links are seen
from both ends and whose edges take packets and deliver them. Nodes handle the copies in any order and
draw any words. The flood ends, after a number of handlings that does not depend on the order. Only
nodes within as many hops as the packet may take ever get a copy, and in the end all of them have
got one; those nearer than that with two links took the packet, and in the last-hop mode all did. -/
theorem certain_flood_covers_radius (both : m.SeenFromBothEnds) {flag : Bool}
    (origin : first.incoming = none) (zero : first.packet.hops = 0)
    (dest : first.packet.destination = .flood ⟨flag, .one⟩)
    (two : 2 ≤ (m.site first.node).table.count .unstructured) :
    let dist := m.linkGraph.edist first.node
    let radius := first.packet.ttl.toNat
    let after order := (Transit.start first).run (m.handlings order)
    (∃ bound, ∀ order, (after order).log.length ≤ bound) ∧
    (∀ order, ∃ more, (after (order ++ more)).flying = []) ∧
    (∀ order, ∀ f ∈ (after order).flights, dist f.node ≤ radius ∧
      ∃ hops destination,
        f.packet = { first.packet with hops := hops, destination := destination }) ∧
    ∀ order, (after order).flying = [] → ∀ n,
      (dist n ≤ radius → n ∈ (after order).handlers) ∧
      (dist n < radius → 2 ≤ (m.site n).table.count .unstructured → n ∈ (after order).takers) ∧
      (dist n ≤ radius → first.packet.delivery = .last → n ∈ (after order).takers) := by
  intro dist radius after
  have start : Unbroken m first (.start first) := by
    refine ⟨List.mem_singleton_self first, fun _ logged => absurd logged List.not_mem_nil,
      fun _ logged => absurd logged List.not_mem_nil, fun f member => ?_⟩
    obtain rfl := List.mem_singleton.mp member
    refine ⟨⟨flag, dest⟩, ⟨_, _, rfl⟩, ?_, ?_, Or.inl ⟨origin, rfl⟩⟩
    · rw [zero]
      exact Nat.zero_le _
    · rw [SimpleGraph.edist_self]
      exact zero_le
  have unbroken (order : List (Nat × Words)) : Unbroken m first (after order) :=
    start.run both order
  refine ⟨⟨_, start.length_le both⟩, fun order => ?_, fun order f member => ?_,
    fun order landed n => ?_⟩
  · obtain ⟨more, landed⟩ := (unbroken order).exists_landed both
    refine ⟨more, ?_⟩
    simpa only [after, Moment.handlings, Transit.run, List.map_append, List.foldl_append] using landed
  · have spread := (unbroken order).spread f member
    exact ⟨spread.dist.trans (Nat.cast_le.mpr spread.within), spread.packet⟩
  have handled (near : dist n ≤ radius) : ∃ d : Nat, dist n = d ∧
      ∃ f ws, m.handle f ws ∈ (after order).log ∧ f.node = n ∧ f.packet.hops.toNat = d ∧
        OfFlood .one f ∧ f.packet.ttl = first.packet.ttl ∧
        f.packet.delivery = first.packet.delivery := by
    obtain ⟨d, far⟩ := ENat.ne_top_iff_exists.mp (ne_top_of_le_ne_top (ENat.natCast_ne_top _) near)
    have within : d ≤ radius := Nat.cast_le.mp (far ▸ near)
    obtain ⟨f, ws, member, node, hops⟩ :=
      (unbroken order).exists_handled both landed zero two within n far.symm
    have spread := (unbroken order).spread f (List.mem_append_left _ (List.mem_map_of_mem member))
    obtain ⟨_, _, packet⟩ := spread.packet
    exact ⟨d, far.symm, f, ws, member, node, hops, spread.flood, by rw [packet], by rw [packet]⟩
  refine ⟨fun near => ?_, fun near wide => ?_, fun near last => ?_⟩
  · obtain ⟨-, -, f, ws, member, rfl, -⟩ := handled near
    exact List.mem_map_of_mem member
  · obtain ⟨d, far, f, ws, member, rfl, hops, ⟨_, dest⟩, ttl, -⟩ := handled near.le
    have left : f.packet.hops < f.packet.ttl := by
      rw [far] at near
      rw [UInt16.lt_iff_toNat_lt, hops, ttl]
      exact Nat.cast_lt.mp near
    refine mem_takers member ?_
    rw [outcome_flood dest, Routing.routeFlood_spread wide left]
  · obtain ⟨-, -, f, ws, member, rfl, -, ⟨_, dest⟩, -, delivery⟩ := handled near
    refine mem_takers member ?_
    rw [outcome_flood dest]
    exact Routing.deliver_routeFlood_of_last (delivery.trans last)

def splash : Flight (Fin 3) := ⟨.last 2, none, ⟨0, 1, .floor 0, .flood ⟨true, .one⟩, .last, 0, []⟩⟩

theorem triangle_seenFromBothEnds : triangle.SeenFromBothEnds where
  reachable n := (triangle_wide n).reachable
  opened n := (triangle_wide n).opened
  ends := by decide +kernel

theorem triangle_near (n : Fin 3) : triangle.linkGraph.edist (.last 2) n ≤ 1 := by
  have linked : ∀ n, .last 2 = n ∨
      ∃ c ∈ triangle.links (.last 2), (triangle.far (.last 2) c.edge).map (·.1) = some n := by
    decide +kernel
  rcases linked n with rfl | ⟨c, link, leads⟩
  · rw [SimpleGraph.edist_self]
    exact zero_le
  · obtain ⟨⟨k, e⟩, far, rfl⟩ := Option.map_eq_some_iff.mp leads
    exact Moment.edist_far_le link far

theorem certain_flood_covers_triangle :
    let t := (Transit.start splash).run (triangle.handlings [(0, [7]), (1, []), (0, [])])
    t.flying = [] ∧ t.handlers = [2, 1, 0] ∧ ∀ n, n ∈ t.takers := by
  intro t
  have covers := certain_flood_covers_radius triangle_seenFromBothEnds rfl rfl
    (rfl : splash.packet.destination = .flood ⟨true, .one⟩) (triangle_wide (.last 2)).two
  have landed : t.flying = [] := by decide +kernel
  refine ⟨landed, by decide +kernel, fun n => ?_⟩
  exact (covers.2.2.2 _ landed n).2.2 (triangle_near n) rfl

end

end Transit

end RingOverlay

import Mathlib.Data.Fintype.EquivFin
import Mathlib.Data.Nat.ModEq
import RingOverlay.Proofs.Routing.ClosedRing
import RingOverlay.Proofs.Routing.Transit
import RingOverlay.Proofs.Table.Arrangement
import RingOverlay.Proofs.Table.Neighbors
/-!
Directional packets go round the ring. Where every node is linked with its neighbours on both sides,
each hop leads to the very next node, whatever other links there are, so that the number of hops says
where a packet ends.
-/

set_option autoImplicit false
set_option relaxedAutoImplicit false

namespace RingOverlay

namespace Routing

section

variable {site : RouteSite} {incoming : Option EdgeId} {p : Packet} {d : Bearing} {c : Connection}

theorem routeDirectional_spent (spent : ¬ p.hops < p.ttl) :
    routeDirectional site incoming p d = .stuck p := by
  have resting : p.hasTtlLeft = false := by
    rw [Bool.eq_false_iff]
    exact fun left => spent (Packet.hasTtlLeft_iff.mp left)
  unfold routeDirectional
  split
  · rw [resting, Bool.false_and, if_neg Bool.false_ne_true]
  · rfl

theorem routeDirectional_onward (left : p.hops < p.ttl)
    (next : (site.table.view .structured).towards d site.here = some c)
    (away : some c.edge ≠ incoming) (taken : site.accepts c.edge = true) :
    routeDirectional site incoming p d = .forwarded c.edge p.oneHopFurther := by
  have chosen : nextTowards (site.table.view .structured) site.here incoming d = some c := by
    simp only [nextTowards, next]
    exact if_neg away
  have goes : (p.hasTtlLeft && some c.edge != incoming) = true := by
    rw [Packet.hasTtlLeft_iff.mpr left, Bool.true_and]
    exact bne_iff_ne.mpr away
  unfold routeDirectional
  rw [chosen]
  dsimp only
  rw [if_pos goes]
  exact if_pos taken

end

end Routing

namespace RingNetwork

variable {ν : Type}

def Next (net : RingNetwork ν) : Bearing → ν → ν → Prop
  | .left => net.NextLeft
  | .right => net.NextRight

/-- Every node has structured links at least to its neighbours on both sides. The structured links
are truthful, and their edges take packets and can be crossed in both directions. -/
structure Chained (net : RingNetwork ν) (m : Moment ν) : Prop where
  here : ∀ n, (m.site n).here = net.position n
  tables : ∀ n, (m.site n).table.Reachable
  links : ∀ n, ∀ c ∈ ((m.site n).table.view .structured).connections,
    ∃ o f, m.far n c.edge = some (o, f) ∧ net.position o = c.address ∧ m.far o f = some (n, c.edge)
  accepts : ∀ n, ∀ c ∈ ((m.site n).table.view .structured).connections,
    (m.site n).accepts c.edge = true
  next : ∀ d n k, net.Next d n k →
    ∃ c ∈ ((m.site n).table.view .structured).connections, c.address = net.position k

section

variable {net : RingNetwork ν} {d : Bearing} {n k o : ν}

theorem Next.ne (next : net.Next d n k) : k ≠ n := by
  cases d with
  | left => exact And.left next
  | right => exact And.left next

theorem Next.turn_le (next : net.Next d n k) (o : ν) :
    RingAddress.turnTo d (net.position n) (net.position k) ≤
      RingAddress.turnTo d (net.position n) (net.position o) := by
  have position_ne : ∀ {o}, o ≠ n → net.position o ≠ net.position n :=
    fun other same => other (net.distinct _ n same)
  by_cases self : o = n
  · rw [self, RingAddress.turnTo_self]
    exact RingAddress.turnTo_le ..
  · rw [RingAddress.turnTo_of_ne d (position_ne next.ne), RingAddress.turnTo_of_ne d (position_ne self)]
    cases d with
    | left => exact And.right next o self
    | right => exact And.right next o self

theorem NextRight.nextLeft (next : net.NextRight n k) : net.NextLeft k n := by
  obtain ⟨apart, first⟩ := next
  refine ⟨apart.symm, fun o other => ?_⟩
  by_cases same : o = n
  · rw [same]
  · have near := first o same
    have inside := RingAddress.leftDistanceTo_pos fun same => other (net.distinct o k same)
    rw [RingAddress.rightDistanceTo_eq, RingAddress.rightDistanceTo_eq,
      RingAddress.leftDistanceTo_eq (net.position k) (net.position o)] at near
    have bound := (net.position k).leftDistanceTo_lt (net.position o)
    split_ifs at near with before <;> omega

end

section

variable [Fintype ν]

/-- The number of nodes at smaller positions. -/
def rank (net : RingNetwork ν) (n : ν) : Nat :=
  (Finset.univ.filter fun k => (net.position k).value < (net.position n).value).card

/-- One node lies a number of places further around the ring than another, in a direction: with the
nodes counted in the order of their positions, and after the last one from the first one again. -/
def Ahead (net : RingNetwork ν) : Bearing → Nat → ν → ν → Prop
  | .left, places, n, k => (net.rank n + places) % Fintype.card ν = net.rank k
  | .right, places, n, k => (net.rank k + places) % Fintype.card ν = net.rank n

variable {net : RingNetwork ν} {d : Bearing} {n k o : ν} {s t : Nat}

theorem rank_lt (net : RingNetwork ν) (n : ν) : net.rank n < Fintype.card ν := by
  apply Finset.card_lt_univ_of_notMem (x := n)
  simp

theorem rank_lt_rank (below : (net.position k).value < (net.position n).value) :
    net.rank k < net.rank n := by
  apply Finset.card_lt_card
  rw [Finset.ssubset_iff_of_subset]
  · exact ⟨k, by simpa using below, by simp⟩
  · intro o member
    rw [Finset.mem_filter] at member ⊢
    exact ⟨member.1, Nat.lt_trans member.2 below⟩

theorem rank_injective (same : net.rank k = net.rank n) : k = n := by
  apply net.distinct
  apply RingAddress.value_injective
  rcases Nat.lt_trichotomy (net.position k).value (net.position n).value with below | level | beyond
  · exact absurd same (Nat.ne_of_lt (rank_lt_rank below))
  · exact level
  · exact absurd same.symm (Nat.ne_of_lt (rank_lt_rank beyond))

theorem rank_of_nextLeft (next : net.NextLeft n k) :
    (net.rank n + 1) % Fintype.card ν = net.rank k := by
  classical
  have near : ∀ o, (net.position n).leftTurnTo (net.position k) ≤
      (net.position n).leftTurnTo (net.position o) := Next.turn_le (d := .left) next
  simp only [RingAddress.leftTurnTo_eq] at near
  have bound := fun o => (net.position o).value_lt
  by_cases last : ∀ o, (net.position o).value ≤ (net.position n).value
  · -- The walk wraps: from the last position one comes to the first.
    have everybody : net.rank n + 1 = Fintype.card ν := by
      have others : (Finset.univ.filter fun k => (net.position k).value < (net.position n).value) =
          Finset.univ.erase n := by
        ext o
        simp only [Finset.mem_filter, Finset.mem_univ, true_and, Finset.mem_erase, and_true]
        refine ⟨fun below same => ?_, fun other => Nat.lt_of_le_of_ne (last o) fun level => ?_⟩
        · rw [same] at below
          exact Nat.lt_irrefl _ below
        · exact other (net.distinct o n (RingAddress.value_injective level))
      have counted := Finset.card_erase_add_one (Finset.mem_univ n)
      rw [← others] at counted
      exact counted
    have nobody : net.rank k = 0 := by
      refine Finset.card_eq_zero.mpr (Finset.filter_eq_empty_iff.mpr fun o _ below => ?_)
      have least := near o
      rw [if_neg (Nat.not_lt.mpr (last k)), if_neg (Nat.not_lt.mpr (last o))] at least
      have := bound n
      omega
    rw [everybody, Nat.mod_self, nobody]
  · obtain ⟨l, beyond⟩ := not_forall.mp last
    have beyond := Nat.lt_of_not_le beyond
    have above : (net.position n).value < (net.position k).value := by
      by_contra below
      have least := near l
      rw [if_neg below, if_pos beyond] at least
      have := bound n
      have := bound l
      omega
    have between : (Finset.univ.filter fun o => (net.position o).value < (net.position k).value) =
        insert n (Finset.univ.filter fun o => (net.position o).value < (net.position n).value) := by
      ext o
      simp only [Finset.mem_filter, Finset.mem_univ, true_and, Finset.mem_insert]
      refine ⟨fun below => ?_, ?_⟩
      · by_cases same : o = n
        · exact Or.inl same
        · right
          by_contra above_n
          have apart : (net.position o).value ≠ (net.position n).value :=
            fun level => same (net.distinct o n (RingAddress.value_injective level))
          have least := near o
          rw [if_pos above, if_pos (by omega)] at least
          omega
      · rintro (rfl | below)
        · exact above
        · exact Nat.lt_trans below above
    have one_more : net.rank k = net.rank n + 1 := by
      rw [rank, between, Finset.card_insert_of_notMem (by simp)]
      rfl
    rw [one_more, Nat.mod_eq_of_lt (one_more ▸ net.rank_lt k)]

theorem Next.ahead (next : net.Next d n k) : net.Ahead d 1 n k := by
  cases d with
  | left => exact rank_of_nextLeft next
  | right => exact rank_of_nextLeft (NextRight.nextLeft next)

theorem ahead_zero (d : Bearing) (n : ν) : net.Ahead d 0 n n := by
  cases d <;> exact Nat.mod_eq_of_lt (net.rank_lt n)

theorem Ahead.trans (first : net.Ahead d s n k) (second : net.Ahead d t k o) :
    net.Ahead d (s + t) n o := by
  cases d with
  | left =>
    change (net.rank n + (s + t)) % _ = _
    rw [← Nat.add_assoc, Nat.add_mod, show (net.rank n + s) % Fintype.card ν = net.rank k from first,
      Nat.add_mod_mod]
    exact second
  | right =>
    change (net.rank o + (s + t)) % _ = _
    rw [Nat.add_comm s, ← Nat.add_assoc, Nat.add_mod,
      show (net.rank o + t) % Fintype.card ν = net.rank k from second, Nat.add_mod_mod]
    exact first

theorem Ahead.unique (first : net.Ahead d t n k) (second : net.Ahead d t n o) : k = o := by
  have level : net.rank k = net.rank o := by
    cases d with
    | left => exact Eq.trans (Eq.symm first) second
    | right =>
      have shifted : net.rank k + t ≡ net.rank o + t [MOD Fintype.card ν] :=
        Eq.trans first (Eq.symm second)
      exact (Nat.ModEq.add_right_cancel' t shifted).eq_of_lt_of_lt (net.rank_lt k) (net.rank_lt o)
  exact rank_injective level

theorem exists_neighbor (three : 3 ≤ Fintype.card ν) (d : Bearing) (n : ν) : ∃ k, net.Next d n k := by
  obtain ⟨o, apart⟩ := Fintype.exists_ne_of_one_lt_card (by omega) n
  cases d with
  | left => exact exists_next apart _
  | right => exact exists_next apart _

theorem Next.not_back (next : net.Next d n k) (three : 3 ≤ Fintype.card ν) : ¬ net.Next d k n := by
  intro back
  have twice : net.Ahead d 2 n n := next.ahead.trans back.ahead
  have round : (net.rank n + 2) % Fintype.card ν = net.rank n := by cases d <;> exact twice
  have within := net.rank_lt n
  rcases Nat.lt_or_ge (net.rank n + 2) (Fintype.card ν) with inside | wraps
  · rw [Nat.mod_eq_of_lt inside] at round
    omega
  · rw [Nat.mod_eq_sub_mod wraps, Nat.mod_eq_of_lt (by omega)] at round
    omega

/-- A packet on its way round the ring: one copy, which is as many places ahead as it has taken hops,
and which came from the node before. -/
structure Circling (net : RingNetwork ν) (m : Moment ν) (d : Bearing) (n : ν) (p : Packet)
    (t : Transit ν) (f : Flight ν) : Prop where
  flying : t.flying = [f]
  untaken : t.log.filter (·.outcome.deliver) = []
  packet : f.packet = { p with hops := f.packet.hops }
  within : f.packet.hops ≤ p.ttl
  ahead : net.Ahead d f.packet.hops.toNat n f.node
  sender : ∀ e, f.incoming = some e → ∃ o g, m.far f.node e = some (o, g) ∧ net.Next d o f.node

variable {m : Moment ν} {p : Packet} {f : Flight ν} {t : Transit ν}

omit [Fintype ν] in
private theorem outcome_directional (directional : f.packet.destination = .directional d) (ws : Words) :
    (m.handle f ws).outcome = Routing.routeDirectional (m.site f.node) f.incoming f.packet d := by
  simp [Moment.handle, RouteSite.route, directional]

omit [Fintype ν] in
theorem Chained.towards (chained : net.Chained m) (next : net.Next d n k) :
    ∃ c ∈ ((m.site n).table.view .structured).connections, c.address = net.position k ∧
      ((m.site n).table.view .structured).towards d (m.site n).here = some c := by
  have arranged := (chained.tables n).arranged .structured
  obtain ⟨link, member, leads⟩ := chained.next d n k next
  obtain ⟨c, stands⟩ := RingView.exists_towards (List.ne_nil_of_mem member) d (net.position n)
  have among := RingView.mem_of_towards stands
  obtain ⟨o, -, -, place, -⟩ := chained.links n c among
  -- No link leads less far than `c`, and no node is less far away than `k`.
  have upto := arranged.ascending.towards_least stands member
  have from_there := next.turn_le o
  rw [leads] at upto
  rw [place] at from_there
  rw [chained.here n]
  exact ⟨c, among, RingAddress.turnTo_injective (Nat.le_antisymm upto from_there), stands⟩

theorem Circling.pass (circling : net.Circling m d n p t f) (chained : net.Chained m)
    (three : 3 ≤ Fintype.card ν) (directional : p.destination = .directional d)
    (left : f.packet.hops < p.ttl) (ws : Words) :
    ∃ g, net.Circling m d n p (t.step (.handle 0 m ws)) g ∧
      g.packet.hops.toNat = f.packet.hops.toNat + 1 := by
  obtain ⟨k, next⟩ := exists_neighbor three d f.node
  obtain ⟨c, member, leads, stands⟩ := chained.towards next
  obtain ⟨o, edge, far, place, back⟩ := chained.links f.node c member
  obtain rfl := net.distinct o k (place.trans leads)
  -- Otherwise the node that sent the packet would come next as well.
  have away : some c.edge ≠ f.incoming := by
    intro same
    obtain ⟨sender, g, came, before⟩ := circling.sender c.edge same.symm
    cases far.symm.trans came
    exact before.not_back three next
  have ttl : f.packet.ttl = p.ttl := by rw [circling.packet]
  have outcome : (m.handle f ws).outcome = .forwarded c.edge f.packet.oneHopFurther := by
    rw [outcome_directional (by rw [circling.packet]; exact directional) ws]
    exact Routing.routeDirectional_onward (ttl ▸ left) stands away (chained.accepts f.node c member)
  have passed : (m.handle f ws).passed = [⟨o, some edge, f.packet.oneHopFurther⟩] := by
    change (m.handle f ws).outcome.copies.filterMap (m.pass f.node) = _
    rw [outcome]
    simp [RouteOutcome.forwarded, Moment.pass, far]
  have further := Packet.toNat_hops_add_one (ttl ▸ left)
  rw [Transit.step_handle circling.flying]
  refine ⟨_, ⟨passed, ?_, ?_, ?_, ?_, ?_⟩, ?_⟩
  · rw [List.filter_append, circling.untaken, List.nil_append, List.filter_singleton, outcome]
    rfl
  · rw [Packet.oneHopFurther_eq (ttl ▸ left), circling.packet]
  · rw [Packet.oneHopFurther_eq (ttl ▸ left), UInt16.le_iff_toNat_le]
    exact further ▸ Nat.succ_le_of_lt (UInt16.lt_iff_toNat_lt.mp left)
  · rw [Packet.oneHopFurther_eq (ttl ▸ left)]
    change net.Ahead d (f.packet.hops + 1).toNat n o
    rw [further]
    exact circling.ahead.trans next.ahead
  · intro e came
    cases came
    exact ⟨f.node, c.edge, back, next⟩
  · rw [Packet.oneHopFurther_eq (ttl ▸ left)]
    exact further

theorem Circling.take (circling : net.Circling m d n p t f)
    (directional : p.destination = .directional d) (mode : p.delivery = .last)
    (spent : ¬ f.packet.hops < p.ttl) (ws : Words) :
    (t.step (.handle 0 m ws)).flying = [] ∧
      (t.step (.handle 0 m ws)).log.filter (·.outcome.deliver) = [m.handle f ws] := by
  have ttl : f.packet.ttl = p.ttl := by rw [circling.packet]
  have outcome : (m.handle f ws).outcome = .delivered := by
    rw [outcome_directional (by rw [circling.packet]; exact directional) ws,
      Routing.routeDirectional_spent (ttl ▸ spent), RouteOutcome.stuck, circling.packet]
    change (⟨[], 0, p.delivery.isLastHop⟩ : RouteOutcome) = _
    rw [mode]
    rfl
  rw [Transit.step_handle circling.flying]
  refine ⟨?_, ?_⟩
  · change (m.handle f ws).outcome.copies.filterMap (m.pass f.node) = []
    rw [outcome]
    rfl
  · rw [List.filter_append, circling.untaken, List.nil_append, List.filter_singleton, outcome]
    rfl

private theorem Circling.run (circling : net.Circling m d n p t f) (chained : net.Chained m)
    (three : 3 ≤ Fintype.card ν) (directional : p.destination = .directional d)
    (mode : p.delivery = .last) (words : List Words)
    (long : p.ttl.toNat < f.packet.hops.toNat + words.length) :
    (t.run (handlings m words)).flying = [] ∧
      ∃ h, (t.run (handlings m words)).log.filter (·.outcome.deliver) = [h] ∧
        h.flight.packet = { p with hops := p.ttl } ∧ net.Ahead d p.ttl.toNat n h.flight.node := by
  induction words generalizing t f with
  | nil =>
    have within := UInt16.le_iff_toNat_le.mp circling.within
    rw [List.length_nil] at long
    omega
  | cons ws words ih =>
    have next : t.run (handlings m (ws :: words)) =
        (t.step (.handle 0 m ws)).run (handlings m words) := rfl
    rw [next]
    by_cases left : f.packet.hops < p.ttl
    · obtain ⟨g, further, hops⟩ := circling.pass chained three directional left ws
      rw [List.length_cons] at long
      exact ih further (by omega)
    · obtain ⟨landed, taken⟩ := circling.take directional mode left ws
      have last : f.packet.hops = p.ttl := UInt16.le_antisymm circling.within (UInt16.not_lt.mp left)
      rw [Transit.run_of_landed landed]
      refine ⟨landed, _, taken, ?_, ?_⟩
      · exact circling.packet.trans (by rw [last])
      · exact last ▸ circling.ahead

/-- On a ring of three nodes or more, in which everybody is linked with both neighbours and perhaps
with others, a directional packet for the last hop that starts without hops is taken once: by the
node that lies as many places further as the packet may travel, with that many hops. -/
theorem directional_ends_ahead (net : RingNetwork ν) (m : Moment ν) (chained : net.Chained m)
    (three : 3 ≤ Fintype.card ν) (d : Bearing) (n : ν) (p : Packet)
    (directional : p.destination = .directional d) (mode : p.delivery = .last) (hops : p.hops = 0)
    (words : List Words) (long : p.ttl.toNat < words.length) :
    let t := (Transit.start ⟨n, none, p⟩).run (handlings m words)
    t.flying = [] ∧ ∃ h, t.log.filter (·.outcome.deliver) = [h] ∧
      h.flight.packet = { p with hops := p.ttl } ∧
      ∀ k, k = h.flight.node ↔ net.Ahead d p.ttl.toNat n k := by
  have start : net.Circling m d n p (.start ⟨n, none, p⟩) ⟨n, none, p⟩ := by
    refine ⟨rfl, rfl, rfl, ?_, ?_, ?_⟩
    · rw [hops]
      exact UInt16.zero_le
    · rw [hops]
      exact ahead_zero d n
    · intro e came
      cases came
  obtain ⟨landed, h, taken, packet, there⟩ := start.run chained three directional mode words
    (by simpa [hops] using long)
  refine ⟨landed, h, taken, packet, fun k => ⟨?_, fun other => other.unique there⟩⟩
  rintro rfl
  exact there

/-- Four nodes, each linked with the three others; edge `n` leads from node `n` to the one after it,
and edges 4 and 5 lead across. -/
def crossing : Moment (Fin 4) where
  site n :=
    { here := square.position n
      table := .after [.add ⟨n, square.position (around n 1), "structured.near", []⟩,
        .add ⟨4 + n % 2, square.position (around n 2), "structured.shortcut", []⟩,
        .add ⟨around n 3, square.position (around n 3), "structured.near", []⟩]
      accepts := fun _ => true }
  far n e :=
    if e = n then some (around n 1, e) else if e = around n 3 then some (around n 3, e)
    else if e = 4 + n % 2 then some (around n 2, e) else none

theorem crossing_chained : square.Chained crossing where
  here _ := rfl
  tables _ := ⟨_, rfl⟩
  links := by
    have crossed : ∀ n, ∀ c ∈ ((crossing.site n).table.view .structured).connections,
        (crossing.far n c.edge).any fun (o, f) =>
          decide (square.position o = c.address ∧ crossing.far o f = some (n, c.edge)) := by
      decide +kernel
    intro n c member
    obtain ⟨⟨o, f⟩, far, both⟩ := (Option.any_eq_true _ _).mp (crossed n c member)
    exact ⟨o, f, far, of_decide_eq_true both⟩
  accepts _ _ _ := rfl
  next d := by
    cases d with
    | left =>
      unfold Next NextLeft
      decide +kernel
    | right =>
      unfold Next NextRight
      decide +kernel

theorem directional_ends_ahead_crossing :
    ∃ h, ((Transit.start ⟨3, none, ⟨0, 7, square.position 3, .directional .left, .last, 0, []⟩⟩).run
      (handlings crossing (List.replicate 8 []))).log.filter (·.outcome.deliver) = [h] ∧
      h.flight.packet.hops = 7 ∧ h.flight.node = 2 := by
  obtain ⟨-, h, taken, packet, there⟩ := directional_ends_ahead square crossing crossing_chained
    (by decide) .left 3 ⟨0, 7, square.position 3, .directional .left, .last, 0, []⟩ rfl rfl rfl
    (List.replicate 8 []) (by decide)
  have ahead : square.Ahead .left 7 3 2 := by
    unfold Ahead
    decide +kernel
  exact ⟨h, taken, by rw [packet], ((there 2).mpr ahead).symm⟩

end

end RingNetwork

end RingOverlay

import Mathlib.Data.Finset.Max
import Mathlib.Data.Fintype.Card
import RingOverlay.Proofs.Address.Circle
import RingOverlay.Proofs.Routing.Descent
import RingOverlay.Proofs.Routing.Forwarding
/-!
Routing to a position is complete on a closed ring. Where every node is linked with its neighbours on
both sides, a node that is not nearest to the destination always has a link to one that is nearer, so
that the packet comes to rest at a nearest node.
-/

set_option autoImplicit false
set_option relaxedAutoImplicit false

namespace RingOverlay

namespace Routing

section

variable {site : RouteSite} {incoming : Option EdgeId} {p : Packet} {dest : RingAddress}
  {c d : Connection} {cs : List Connection}

private theorem foldl_closerOf_le (best : Connection) (cs : List Connection) (d : Connection)
    (member : d ∈ best :: cs) :
    dest.separation (cs.foldl (closerOf dest) best).address ≤ dest.separation d.address := by
  induction cs generalizing best d with
  | nil =>
    obtain rfl := List.mem_singleton.mp member
    exact Nat.le_refl _
  | cons c cs ih =>
    have chosen : dest.separation (closerOf dest best c).address ≤ dest.separation best.address ∧
        dest.separation (closerOf dest best c).address ≤ dest.separation c.address := by
      unfold closerOf
      split <;> omega
    have first := ih (closerOf dest best c) _ List.mem_cons_self
    rw [List.foldl_cons]
    rcases List.mem_cons.mp member with rfl | member
    · exact first.trans chosen.1
    · rcases List.mem_cons.mp member with rfl | member
      · exact first.trans chosen.2
      · exact ih _ d (List.mem_cons_of_mem _ member)

theorem closest?_le (h : closest? dest cs = some c) (member : d ∈ cs) :
    dest.separation c.address ≤ dest.separation d.address := by
  cases cs with
  | nil => cases member
  | cons best cs =>
    obtain rfl := Option.some.inj h
    exact foldl_closerOf_le best cs d member

theorem exists_closest? (dest : RingAddress) (member : d ∈ cs) : ∃ c, closest? dest cs = some c := by
  cases cs with
  | nil => cases member
  | cons best cs => exact ⟨_, rfl⟩

private theorem forwardOr_accepted (taken : site.accepts c.edge = true) (o : RouteOutcome) :
    site.forwardOr c.edge p.oneHopFurther o = .forwarded c.edge p.oneHopFurther :=
  if_pos taken

/-- A node that neither is the destination nor knows a way further keeps the packet. -/
theorem routeRing_eq_kept (incoming : Option EdgeId) (left : p.hops < p.ttl) (away : dest ≠ site.here)
    (leaf : site.table.get? .leaf dest = none)
    (nobody : ∀ c ∈ (site.table.view .structured).connections,
      ¬ dest.separation c.address < dest.separation site.here) :
    routeRing site incoming p dest = ⟨[], 0, p.delivery != .exact⟩ := by
  have within : ¬ p.ttl < p.hops := UInt16.lt_asymm left
  have travels : ¬ (!p.hasTtlLeft) = true := by simpa using Packet.hasTtlLeft_iff.mpr left
  rw [routeRing, if_neg within, if_neg away, if_neg travels]
  simp only [leaf, routeStructured]
  split
  case h_1 c found =>
    have member := (RingView.mem_avoiding.mp (mem_of_closest? found)).1
    rw [RingAddress.isCloser, if_neg (by simpa using nobody c member)]
  case h_2 => rfl

theorem routeRing_eq_forwarded (left : p.hops < p.ttl) (away : dest ≠ site.here)
    (accepts : ∀ k ∈ [MainType.leaf, MainType.structured],
      ∀ c ∈ (site.table.view k).connections, site.accepts c.edge = true)
    (member : d ∈ (site.table.view .structured).avoiding incoming)
    (closer : dest.separation d.address < dest.separation site.here) :
    ∃ c, Onward site dest c ∧
      routeRing site incoming p dest = .forwarded c.edge p.oneHopFurther := by
  have within : ¬ p.ttl < p.hops := UInt16.lt_asymm left
  have travels : ¬ (!p.hasTtlLeft) = true := by simpa using Packet.hasTtlLeft_iff.mpr left
  have structured : ∃ c, Onward site dest c ∧
      routeStructured site incoming p dest = .forwarded c.edge p.oneHopFurther := by
    obtain ⟨c, found⟩ := exists_closest? dest member
    have among := (RingView.mem_avoiding.mp (mem_of_closest? found)).1
    have nearer : dest.isCloser c.address site.here = true := by
      simpa [RingAddress.isCloser] using Nat.lt_of_le_of_lt (closest?_le found member) closer
    refine ⟨c, Or.inr ⟨among, nearer⟩, ?_⟩
    rw [routeStructured, found]
    simp only [nearer, if_true]
    exact forwardOr_accepted (accepts .structured (by simp) c among) _
  rw [routeRing, if_neg within, if_neg away, if_neg travels]
  dsimp only
  split
  case h_1 leaf found =>
    obtain ⟨among, same⟩ := RingView.mem_of_find? found
    split
    case isTrue => exact structured
    case isFalse =>
      exact ⟨leaf, Or.inl ⟨found, same⟩,
        forwardOr_accepted (accepts .leaf (by simp) leaf among) _⟩
  case h_2 => exact structured

end

end Routing

namespace RingNetwork

variable {ν : Type}

def NextLeft (net : RingNetwork ν) (n k : ν) : Prop :=
  k ≠ n ∧ ∀ o, o ≠ n → (net.position n).leftDistanceTo (net.position k) ≤
    (net.position n).leftDistanceTo (net.position o)

def NextRight (net : RingNetwork ν) (n k : ν) : Prop :=
  k ≠ n ∧ ∀ o, o ≠ n → (net.position n).rightDistanceTo (net.position k) ≤
    (net.position n).rightDistanceTo (net.position o)

/-- Every node has structured links at least to its neighbours on both sides. All links are
truthful, and their edges take packets and can be crossed in both directions. -/
structure Closed (net : RingNetwork ν) (m : Moment ν) : Prop extends net.Truthful m where
  accepts : ∀ n, ∀ k ∈ [MainType.leaf, MainType.structured],
    ∀ c ∈ ((m.site n).table.view k).connections, (m.site n).accepts c.edge = true
  back : ∀ n e o f, m.far n e = some (o, f) → m.far o f = some (n, e)
  left : ∀ n k, net.NextLeft n k → ∃ c ∈ ((m.site n).table.view .structured).connections,
    c.address = net.position k
  right : ∀ n k, net.NextRight n k → ∃ c ∈ ((m.site n).table.view .structured).connections,
    c.address = net.position k

def Nearest (net : RingNetwork ν) (dest : RingAddress) (n : ν) : Prop :=
  ∀ k, net.remaining dest n ≤ net.remaining dest k

section

variable {net : RingNetwork ν} {m : Moment ν} {dest : RingAddress} {n k o : ν}

theorem exists_next [Fintype ν] (h : o ≠ n) (distance : ν → Nat) :
    ∃ k, k ≠ n ∧ ∀ o, o ≠ n → distance k ≤ distance o := by
  classical
  have others : (Finset.univ.filter (· ≠ n)).Nonempty := ⟨o, by simpa using h⟩
  obtain ⟨k, member, least⟩ := Finset.exists_min_image _ distance others
  refine ⟨k, by simpa using member, ?_⟩
  intro o other
  exact least o (by simpa using other)

theorem Closed.exists_closer_link [Fintype ν] (closed : net.Closed m)
    (nearer : net.remaining dest o < net.remaining dest n) :
    ∃ c ∈ ((m.site n).table.view .structured).connections,
      dest.separation c.address < dest.separation (net.position n) := by
  have apart : o ≠ n := by
    rintro rfl
    exact Nat.lt_irrefl _ nearer
  have position_ne : ∀ {j}, j ≠ n → net.position j ≠ net.position n := by
    intro j other same
    exact other (net.distinct j n same)
  obtain ⟨l, left⟩ := exists_next apart fun k =>
    (net.position n).leftDistanceTo (net.position k)
  obtain ⟨r, right⟩ := exists_next apart fun k =>
    (net.position n).rightDistanceTo (net.position k)
  rw [remaining, remaining, RingAddress.separation_comm, RingAddress.separation_comm _ dest] at nearer
  rcases RingAddress.nearer_neighbor nearer (position_ne left.1) (position_ne right.1)
    (left.2 o apart) (right.2 o apart) with closer | closer
  · obtain ⟨c, member, same⟩ := closed.left n l left
    exact ⟨c, member, by rw [same]; exact closer⟩
  · obtain ⟨c, member, same⟩ := closed.right n r right
    exact ⟨c, member, by rw [same]; exact closer⟩

end

def farther [Fintype ν] (net : RingNetwork ν) (dest : RingAddress) (n : ν) : Finset ν :=
  Finset.univ.filter fun k => net.remaining dest n < net.remaining dest k

/-- What holds of a copy in flight towards a position: it has not taken more hops than there are nodes
behind it, and it came from one of these. -/
structure Approach [Fintype ν] (net : RingNetwork ν) (m : Moment ν) (dest : RingAddress)
    (p : Packet) (f : Flight ν) : Prop where
  ring : f.packet.destination = .ring dest
  mode : f.packet.delivery = p.delivery
  ttl : f.packet.ttl = p.ttl
  hops : f.packet.hops.toNat ≤ (net.farther dest f.node).card
  sender : ∀ e, f.incoming = some e → ∃ n g, m.far f.node e = some (n, g) ∧
    net.remaining dest f.node < net.remaining dest n

section

variable [Fintype ν] {net : RingNetwork ν} {m : Moment ν} {dest : RingAddress} {n k : ν}
  {p : Packet} {f : Flight ν} {ws : Words}

private theorem mem_farther :
    k ∈ net.farther dest n ↔ net.remaining dest n < net.remaining dest k := by
  simp [farther]

private theorem card_farther_lt (net : RingNetwork ν) (dest : RingAddress) (n : ν) :
    (net.farther dest n).card < Fintype.card ν := by
  apply Finset.card_lt_univ_of_notMem (x := n)
  rw [mem_farther]
  exact Nat.lt_irrefl _

private theorem card_farther_lt_of_lt (closer : net.remaining dest k < net.remaining dest n) :
    (net.farther dest n).card < (net.farther dest k).card := by
  apply Finset.card_lt_card
  rw [Finset.ssubset_iff_of_subset]
  · exact ⟨n, mem_farther.mpr closer, fun h => Nat.lt_irrefl _ (mem_farther.mp h)⟩
  · intro o member
    exact mem_farther.mpr (closer.trans (mem_farther.mp member))

private theorem Approach.hops_lt_ttl (approach : net.Approach m dest p f)
    (enough : Fintype.card ν ≤ p.ttl.toNat) : f.packet.hops < f.packet.ttl := by
  rw [UInt16.lt_iff_toNat_lt, approach.ttl]
  exact (approach.hops.trans_lt (card_farther_lt net dest f.node)).trans_le enough

omit [Fintype ν] in
private theorem outcome_eq (ring : f.packet.destination = .ring dest) :
    (m.handle f ws).outcome = Routing.routeRing (m.site f.node) f.incoming f.packet dest := by
  simp [Moment.handle, RouteSite.route, ring]

private theorem Closed.keeps (closed : net.Closed m) (ws : Words)
    (approach : net.Approach m dest p f)
    (left : f.packet.hops < f.packet.ttl) (nearest : net.Nearest dest f.node) :
    (m.handle f ws).passed = [] ∧ (m.handle f ws).outcome.deliver =
      (decide (net.position f.node = dest) || f.packet.delivery != .exact) := by
  have place : (m.site f.node).here = net.position f.node := closed.here f.node
  have passed : (m.handle f ws).passed =
      (m.handle f ws).outcome.copies.filterMap (m.pass f.node) := rfl
  rw [passed, outcome_eq approach.ring]
  by_cases here : dest = net.position f.node
  · have within : ¬ f.packet.ttl < f.packet.hops := UInt16.lt_asymm left
    rw [Routing.routeRing, if_neg within, if_pos (here.trans place.symm)]
    simp [RouteOutcome.delivered, here]
  · -- A link to a nearer node, or to one at the destination, would lead to a nearer node.
    have far_end : ∀ k ∈ [MainType.leaf, MainType.structured],
        ∀ c ∈ ((m.site f.node).table.view k).connections,
          dest.separation (net.position f.node) ≤ dest.separation c.address := by
      intro k kind c member
      obtain ⟨other, -, same⟩ := Option.map_eq_some_iff.mp (closed.links f.node k kind c member)
      have least := nearest other.1
      rw [remaining, remaining, same, RingAddress.separation_comm, RingAddress.separation_comm _ dest] at least
      exact least
    have leafless : (m.site f.node).table.get? .leaf dest = none := by
      rw [Option.eq_none_iff_forall_not_mem]
      intro c found
      obtain ⟨member, same⟩ := RingView.mem_of_find? found
      have least := far_end .leaf (by simp) c member
      rw [same, RingAddress.separation_self, Nat.le_zero, RingAddress.separation_eq_zero_iff] at least
      exact here least
    have kept := Routing.routeRing_eq_kept f.incoming left (place ▸ here) leafless
      fun c member => by
        rw [place, Nat.not_lt]
        exact far_end .structured (by simp) c member
    rw [kept]
    simp [Ne.symm here]

private theorem Closed.passes (closed : net.Closed m) (ws : Words)
    (approach : net.Approach m dest p f)
    (left : f.packet.hops < f.packet.ttl)
    (nearer : net.remaining dest k < net.remaining dest f.node) :
    (m.handle f ws).outcome.deliver = false ∧ ∃ g, (m.handle f ws).passed = [g] ∧
      net.Approach m dest p g ∧ g.packet.hops.toNat = f.packet.hops.toNat + 1 := by
  have place : (m.site f.node).here = net.position f.node := closed.here f.node
  have away : dest ≠ (m.site f.node).here := by
    rintro same
    rw [remaining, remaining, ← place, ← same, RingAddress.separation_self] at nearer
    exact Nat.not_lt_zero _ nearer
  obtain ⟨d, member, closer⟩ := closed.exists_closer_link nearer
  -- The packet came from a farther node, so the link to the nearer one is not on its edge.
  have other_edge : some d.edge ≠ f.incoming := by
    intro same
    obtain ⟨sender, back, far, behind⟩ := approach.sender d.edge same.symm
    have leads := closed.links f.node .structured (by simp) d member
    rw [far] at leads
    have at_sender : net.position sender = d.address := Option.some.inj leads
    rw [remaining, remaining, at_sender, RingAddress.separation_comm,
      RingAddress.separation_comm _ dest] at behind
    exact Nat.lt_asymm closer behind
  rw [← place] at closer
  obtain ⟨c, onward, sent⟩ := Routing.routeRing_eq_forwarded left away (closed.accepts f.node)
    (RingView.mem_avoiding.mpr ⟨member, other_edge⟩) closer
  have outcome : (m.handle f ws).outcome = .forwarded c.edge f.packet.oneHopFurther :=
    (outcome_eq approach.ring).trans sent
  obtain ⟨g, pass, packet, -, descends, -⟩ :=
    closed.toTruthful.pass_onward away onward f.packet.oneHopFurther
  have passed : (m.handle f ws).passed = [g] := by
    change (m.handle f ws).outcome.copies.filterMap (m.pass f.node) = [g]
    rw [outcome]
    simp [RouteOutcome.forwarded, pass]
  have hops : g.packet.hops.toNat = f.packet.hops.toNat + 1 := by
    rw [packet, Packet.oneHopFurther_eq left]
    exact Packet.toNat_hops_add_one left
  refine ⟨by rw [outcome]; rfl, g, passed, ?_, hops⟩
  exact {
    ring := by rw [packet]; exact approach.ring
    mode := by rw [packet]; exact approach.mode
    ttl := by rw [packet]; exact approach.ttl
    hops := by
      have behind := card_farther_lt_of_lt descends
      have before := approach.hops
      omega
    sender := by
      intro e came
      obtain ⟨⟨o, back⟩, far, rfl⟩ := Option.map_eq_some_iff.mp pass
      cases came
      exact ⟨f.node, c.edge, closed.back f.node c.edge o e far, descends⟩ }

/-- The steps in which the only copy in flight is handled, time after time. -/
def handlings (m : Moment ν) (words : List Words) : List (TransitStep ν) :=
  words.map (.handle 0 m)

omit [Fintype ν] in
private theorem run_at_rest {t : Transit ν} (rest : t.flying = []) (words : List Words) :
    t.run (handlings m words) = t := by
  induction words with
  | nil => rfl
  | cons ws words ih =>
    have idle : t.step (.handle 0 m ws) = t := by simp [Transit.step, rest]
    change (t.step (.handle 0 m ws)).run (handlings m words) = t
    rw [idle, ih]

private theorem Closed.run (closed : net.Closed m) (enough : Fintype.card ν ≤ p.ttl.toNat)
    {t : Transit ν} (one : t.flying = [f]) (approach : net.Approach m dest p f)
    (words : List Words) (long : Fintype.card ν ≤ f.packet.hops.toNat + words.length) :
    (t.run (handlings m words)).flying = [] ∧ ∃ n, net.Nearest dest n ∧
      (t.run (handlings m words)).takers =
        t.takers ++ if net.position n = dest ∨ p.delivery ≠ .exact then [n] else [] := by
  induction words generalizing t f with
  | nil =>
    have behind := card_farther_lt net dest f.node
    have hops := approach.hops
    rw [List.length_nil] at long
    omega
  | cons ws words ih =>
    have left := approach.hops_lt_ttl enough
    have next : t.run (handlings m (ws :: words)) =
        Transit.run ⟨(m.handle f ws).passed, t.log ++ [m.handle f ws]⟩ (handlings m words) := by
      change (t.step (.handle 0 m ws)).run (handlings m words) = _
      simp [Transit.step, one]
    rw [next]
    by_cases nearest : net.Nearest dest f.node
    · obtain ⟨passed, taken⟩ := closed.keeps ws approach left nearest
      rw [run_at_rest passed]
      refine ⟨passed, f.node, nearest, ?_⟩
      rw [takers_concat, taken, approach.mode]
      simp [Moment.handle]
    · obtain ⟨k, nearer⟩ := not_forall.mp nearest
      obtain ⟨kept, g, passed, further, hops⟩ :=
        closed.passes ws approach left (Nat.lt_of_not_le nearer)
      rw [passed]
      rw [List.length_cons] at long
      obtain ⟨rest, n, nearest, takers⟩ :=
        ih (t := ⟨[g], t.log ++ [m.handle f ws]⟩) rfl further (by omega)
      refine ⟨rest, n, nearest, ?_⟩
      rw [takers, takers_concat, kept]
      simp

end

/-- On a closed ring a packet towards a position that starts with hops for as many nodes as there are
comes to rest: with the node at the position, if there is one, and otherwise with a single node that
is nearest to it, or with nobody in exact mode. -/
theorem closed_ring_delivers [Fintype ν] (net : RingNetwork ν) (m : Moment ν)
    (closed : net.Closed m) (dest : RingAddress) (n : ν) (p : Packet)
    (ring : p.destination = .ring dest) (hops : p.hops = 0) (ttl : Fintype.card ν ≤ p.ttl.toNat)
    (words : List Words) (long : Fintype.card ν ≤ words.length) :
    ((Transit.start ⟨n, none, p⟩).run (handlings m words)).flying = [] ∧
    (∀ k, net.position k = dest →
      ((Transit.start ⟨n, none, p⟩).run (handlings m words)).takers = [k]) ∧
    ((∀ k, net.position k ≠ dest) →
      (p.delivery ≠ .exact → ∃ k, net.Nearest dest k ∧
        ((Transit.start ⟨n, none, p⟩).run (handlings m words)).takers = [k]) ∧
      (p.delivery = .exact →
        ((Transit.start ⟨n, none, p⟩).run (handlings m words)).takers = [])) := by
  have approach : net.Approach m dest p ⟨n, none, p⟩ := by
    refine ⟨ring, rfl, rfl, ?_, ?_⟩
    · simp [hops]
    · intro e came
      cases came
  have started : (Transit.start (⟨n, none, p⟩ : Flight ν)).takers = [] := rfl
  obtain ⟨rest, k, nearest, takers⟩ :=
    closed.run ttl (t := .start ⟨n, none, p⟩) rfl approach words (by simpa [hops] using long)
  rw [started, List.nil_append] at takers
  refine ⟨rest, ?_, ?_⟩
  · intro o there
    have least := nearest o
    rw [remaining, remaining, there, RingAddress.separation_self, Nat.le_zero,
      RingAddress.separation_eq_zero_iff] at least
    obtain rfl := net.distinct k o (least.trans there.symm)
    rw [takers, if_pos (Or.inl least)]
  · intro nobody
    refine ⟨?_, ?_⟩
    · intro mode
      exact ⟨k, nearest, by rw [takers, if_pos (Or.inr mode)]⟩
    · intro mode
      rw [takers, if_neg]
      rintro (there | other)
      · exact nobody k there
      · exact other mode

def square : RingNetwork (Fin 4) where
  position n := .floor (BitVec.ofNat 160 (n * 2 ^ 158))
  distinct := by decide +kernel

def squareMoment : Moment (Fin 4) where
  site n := ⟨square.position n,
    { ConnectionTable.empty with
      structured := ⟨[⟨n, square.position (n + 1), "structured.near", []⟩,
        ⟨(n + 3 : Fin 4), square.position (n + 3), "structured.near", []⟩]⟩ }, fun _ => true⟩
  far n e := if e = n then some (n + 1, e) else if e = (n + 3 : Fin 4) then some (n + 3, e) else none

def squarePacket : Packet :=
  ⟨0, 4, square.position 0, .ring (.floor (BitVec.ofNat 160 (3 * 2 ^ 157))), .nearest, 0, []⟩

theorem squareMoment_closed : square.Closed squareMoment where
  here _ := rfl
  links := by decide +kernel
  accepts _ _ _ _ _ := rfl
  back n e o f crossed := by
    simp only [squareMoment] at crossed ⊢
    split at crossed
    case isTrue same =>
      cases crossed
      subst same
      revert n
      decide
    case isFalse =>
      split at crossed
      case isTrue same =>
        cases crossed
        subst same
        revert n
        decide
      case isFalse => cases crossed
  left := by
    unfold NextLeft
    decide +kernel
  right := by
    unfold NextRight
    decide +kernel

theorem closed_ring_delivers_square :
    square.Closed squareMoment ∧
    ((Transit.start ⟨3, none, squarePacket⟩).run
      (handlings squareMoment (List.replicate 4 []))).handlers = [3, 2] ∧
    ((Transit.start ⟨3, none, squarePacket⟩).run
      (handlings squareMoment (List.replicate 4 []))).flying = [] :=
  ⟨squareMoment_closed, by decide +kernel,
    (closed_ring_delivers square squareMoment squareMoment_closed _ 3 squarePacket rfl rfl
      (by decide) (List.replicate 4 []) (by decide)).1⟩

end RingNetwork

end RingOverlay

import Mathlib.Data.Finset.Card
import Mathlib.Data.List.Chain
import RingOverlay.Proofs.Routing.Greedy
import RingOverlay.Proofs.Table.Arrangement
/-!
What every copy has in common, whatever the class of the destination. A copy is sent only while the
packet has hops left; it is the packet one hop further, it avoids the sender, and no edge takes two
of them. So a packet cannot be sent on more often than its hops allow.
-/

set_option autoImplicit false
set_option relaxedAutoImplicit false

namespace RingOverlay

namespace Packet

variable {p : Packet}

theorem hasTtlLeft_iff : p.hasTtlLeft = true ↔ p.hops < p.ttl := by
  simp [hasTtlLeft]

theorem toNat_hops_add_one (left : p.hops < p.ttl) : (p.hops + 1).toNat = p.hops.toNat + 1 := by
  have below : p.hops.toNat < p.ttl.toNat := UInt16.lt_iff_toNat_lt.mp left
  have bound := p.ttl.toNat_lt
  rw [UInt16.toNat_add, UInt16.toNat_one]
  omega

theorem oneHopFurther_eq (left : p.hops < p.ttl) : p.oneHopFurther = { p with hops := p.hops + 1 } := by
  have unsaturated : p.hops ≠ 0xffff := by
    rintro full
    have below : p.hops.toNat < p.ttl.toNat := UInt16.lt_iff_toNat_lt.mp left
    have bound := p.ttl.toNat_lt
    rw [full] at below
    change 65535 < p.ttl.toNat at below
    omega
  rw [oneHopFurther, if_neg unsaturated]

end Packet

namespace RingView

theorem mem_avoiding {v : RingView} {exclude : Option EdgeId} {c : Connection} :
    c ∈ v.avoiding exclude ↔ c ∈ v.connections ∧ some c.edge ≠ exclude := by
  simp [avoiding]

theorem mem_of_choose {α : Type} {xs : List α} {ws : Words} {x : α}
    (h : (ws.choose xs).1 = some x) : x ∈ xs := by
  unfold Words.choose at h
  split at h
  · cases h
  · exact List.mem_of_getElem? h

theorem mem_of_random {v : RingView} {exclude : Option EdgeId} {ws : Words} {c : Connection}
    (h : (v.random exclude ws).1 = some c) : c ∈ v.avoiding exclude :=
  mem_of_choose h

end RingView

/-- That as many copies were counted as edges took. -/
def RouteOutcome.Counted (o : RouteOutcome) : Prop := o.sent = o.copies.length

namespace Routing

def pickedEdge (site : RouteSite) (incoming : Option EdgeId) (ws : Words) : Option EdgeId :=
  (((site.table.view .unstructured).random incoming ws).1).map (·.edge)

/-- The destination of the copy on an edge: that of the packet, but on the first hop of a flood only
the neighbour picked at random gets it as it is. -/
def copyDestination (site : RouteSite) (incoming : Option EdgeId) (p : Packet) (ws : Words)
    (e : EdgeId) : Address :=
  match p.destination with
  | .flood flood =>
    if flood.firstHop && pickedEdge site incoming ws != some e then .flood flood.withoutFirstHop
    else .flood flood
  | other => other

structure SentOn (site : RouteSite) (incoming : Option EdgeId) (p : Packet) (ws : Words)
    (copy : PacketCopy) : Prop where
  hopsLeft : p.hops < p.ttl
  packet : copy.packet =
    { p with hops := p.hops + 1, destination := copyDestination site incoming p ws copy.edge }
  taken : site.accepts copy.edge = true
  away : some copy.edge ≠ incoming

section

variable {site : RouteSite} {incoming : Option EdgeId} {p q : Packet} {ws : Words} {c : Connection}
  {o : RouteOutcome}

/-- The packet is kept, or a single copy goes out: what all routers but that of floods do. -/
inductive LoneChoice (site : RouteSite) (incoming : Option EdgeId) (p : Packet) : RouteOutcome → Prop
  | kept (deliver : Bool) : LoneChoice site incoming p ⟨[], 0, deliver⟩
  | sent {e : EdgeId} : p.hops < p.ttl → site.accepts e = true → some e ≠ incoming →
      LoneChoice site incoming p (.forwarded e p.oneHopFurther)

private theorem lone_forwardOr {e : EdgeId} (left : p.hops < p.ttl) (away : some e ≠ incoming)
    (other : LoneChoice site incoming p o) :
    LoneChoice site incoming p (site.forwardOr e p.oneHopFurther o) := by
  unfold RouteSite.forwardOr
  split
  case isTrue taken => exact .sent left taken away
  case isFalse => exact other

private theorem lone_routeStructured (site : RouteSite) (incoming : Option EdgeId) (p : Packet)
    (dest : RingAddress) (left : p.hops < p.ttl) :
    LoneChoice site incoming p (routeStructured site incoming p dest) := by
  unfold routeStructured
  split
  case h_1 c found =>
    split
    case isTrue =>
      have away := (RingView.mem_avoiding.mp (mem_of_closest? found)).2
      exact lone_forwardOr left away (.kept _)
    case isFalse => exact .kept _
  case h_2 => exact .kept _

private theorem lone_routeRing (dest : RingAddress) :
    LoneChoice site incoming p (routeRing site incoming p dest) := by
  unfold routeRing
  split
  case isTrue => exact .kept _
  case isFalse =>
    split
    case isTrue => exact .kept _
    case isFalse =>
      split
      case isTrue => exact .kept _
      case isFalse spent =>
        have left : p.hops < p.ttl := Packet.hasTtlLeft_iff.mp (by simpa using spent)
        have further := lone_routeStructured site incoming p dest left
        dsimp only
        split
        case h_1 leaf found =>
          split
          case isTrue => exact further
          case isFalse away => exact lone_forwardOr left away further
        case h_2 => exact further

private theorem lone_routeDirectional (d : Bearing) :
    LoneChoice site incoming p (routeDirectional site incoming p d) := by
  unfold routeDirectional
  split
  case h_1 c found =>
    split
    case isTrue go =>
      rw [Bool.and_eq_true, bne_iff_ne] at go
      exact lone_forwardOr (Packet.hasTtlLeft_iff.mp go.1) go.2 (.kept _)
    case isFalse => exact .kept _
  case h_2 => exact .kept _

private theorem lone_routeRandomWalk (site : RouteSite) (incoming : Option EdgeId) (p : Packet)
    (ws : Words) : LoneChoice site incoming p (routeRandomWalk site incoming p ws).1 := by
  unfold routeRandomWalk
  dsimp only
  split
  case isTrue => exact .kept _
  case isFalse within =>
    split
    case isTrue => exact .kept _
    case isFalse go =>
      have left : p.hops < p.ttl := by
        have apart : p.hops ≠ p.ttl := by
          rintro same
          simp [same] at go
        grind
      split
      case h_1 c rest picked =>
        have member := RingView.mem_of_random (congrArg Prod.fst picked)
        exact lone_forwardOr left (RingView.mem_avoiding.mp member).2 (.kept _)
      case h_2 => exact .kept _

private theorem LoneChoice.sentOn (lone : LoneChoice site incoming p o)
    (whole : ∀ e, copyDestination site incoming p ws e = p.destination) :
    ∀ copy ∈ o.copies, SentOn site incoming p ws copy := by
  intro copy member
  cases lone with
  | kept => cases member
  | @sent e left taken away =>
    obtain rfl := List.mem_singleton.mp member
    refine ⟨left, ?_, taken, away⟩
    rw [whole, Packet.oneHopFurther_eq left]

private theorem LoneChoice.counted (lone : LoneChoice site incoming p o) : o.Counted := by
  cases lone with
  | kept => rfl
  | sent => rfl

private theorem LoneChoice.nodup (lone : LoneChoice site incoming p o) :
    (o.copies.map (·.edge)).Nodup := by
  cases lone with
  | kept => exact List.nodup_nil
  | sent => exact List.nodup_singleton _

theorem spread_sublist (site : RouteSite) (probability : Single) (q : Packet)
    (cs : List Connection) (ws : Words) :
    ((spread site probability q cs ws).1.map (·.edge)).Sublist (cs.map (·.edge)) := by
  induction cs generalizing ws with
  | nil => exact List.Sublist.refl _
  | cons c cs ih =>
    have rest := ih ws.fraction24.2
    simp only [spread]
    split
    case isTrue => exact rest.cons_cons _
    case isFalse => exact rest.cons _

theorem spread_counted (site : RouteSite) (probability : Single) (q : Packet) (cs : List Connection)
    (ws : Words) :
    (spread site probability q cs ws).2.1 = (spread site probability q cs ws).1.length := by
  induction cs generalizing ws with
  | nil => rfl
  | cons c cs ih =>
    simp only [spread]
    split
    case isTrue => exact congrArg Nat.succ (ih _)
    case isFalse => exact ih _

theorem of_mem_spread {probability : Single} {cs : List Connection} {copy : PacketCopy}
    (h : copy ∈ (spread site probability q cs ws).1) :
    copy.packet = q ∧ site.accepts copy.edge = true ∧ ∃ c ∈ cs, c.edge = copy.edge := by
  induction cs generalizing ws with
  | nil => cases h
  | cons c cs ih =>
    simp only [spread] at h
    split at h
    case isTrue go =>
      rw [Bool.and_eq_true] at go
      rcases List.mem_cons.mp h with rfl | later
      · exact ⟨rfl, go.2, c, List.mem_cons_self, rfl⟩
      · obtain ⟨packet, taken, d, member, same⟩ := ih later
        exact ⟨packet, taken, d, List.mem_cons_of_mem c member, same⟩
    case isFalse =>
      obtain ⟨packet, taken, d, member, same⟩ := ih h
      exact ⟨packet, taken, d, List.mem_cons_of_mem c member, same⟩

/-- What a flood's first hop sends, if the packet has its flag. -/
def firstHop (site : RouteSite) (incoming : Option EdgeId) (p : Packet) (flood : FloodAddress)
    (ws : Words) : Option EdgeId × List PacketCopy × Nat × Words :=
  if flood.firstHop then firstHopCopy site (site.table.view .unstructured) incoming p ws
  else (none, [], 0, ws)

def spreadOver (site : RouteSite) (incoming chosen : Option EdgeId) : List Connection :=
  ((site.table.view .unstructured).avoiding incoming).filter fun c => some c.edge != chosen

def floodRest (site : RouteSite) (incoming : Option EdgeId) (p : Packet) (flood : FloodAddress)
    (ws : Words) : List PacketCopy × Nat × Words :=
  spread site flood.probability (p.oneHopFurther.withDestination (.flood flood.withoutFirstHop))
    (spreadOver site incoming (firstHop site incoming p flood ws).1)
    (firstHop site incoming p flood ws).2.2.2

theorem routeFlood_cases (flood : FloodAddress) :
    (routeFlood site incoming p flood ws).1 = .stuck p ∨
    p.hops < p.ttl ∧
      (routeFlood site incoming p flood ws).1.copies =
        (firstHop site incoming p flood ws).2.1 ++ (floodRest site incoming p flood ws).1 ∧
      (routeFlood site incoming p flood ws).1.sent =
        (firstHop site incoming p flood ws).2.2.1 + (floodRest site incoming p flood ws).2.1 := by
  unfold routeFlood
  dsimp only
  split
  case isTrue => exact Or.inl rfl
  case isFalse go =>
    refine Or.inr ⟨?_, rfl, rfl⟩
    rw [Bool.or_eq_true, not_or, Bool.not_eq_true', Bool.not_eq_false] at go
    exact Packet.hasTtlLeft_iff.mp go.2

theorem firstHop_fst (site : RouteSite) (incoming : Option EdgeId) (p : Packet)
    (flood : FloodAddress) (ws : Words) : (firstHop site incoming p flood ws).1 =
    if flood.firstHop then pickedEdge site incoming ws else none := by
  unfold firstHop
  split
  case isTrue =>
    unfold firstHopCopy pickedEdge
    split <;> rename_i picked <;> rw [picked]
    · split <;> rfl
    · rfl
  case isFalse => rfl

theorem firstHop_counted (flood : FloodAddress) :
    (firstHop site incoming p flood ws).2.2.1 = (firstHop site incoming p flood ws).2.1.length := by
  unfold firstHop firstHopCopy
  split
  case isTrue =>
    split
    case h_1 => split <;> rfl
    case h_2 => rfl
  case isFalse => rfl

theorem firstHop_copies (flood : FloodAddress) :
    (firstHop site incoming p flood ws).2.1 = [] ∨
    ∃ e, (firstHop site incoming p flood ws).1 = some e ∧ site.accepts e = true ∧
      some e ≠ incoming ∧ (firstHop site incoming p flood ws).2.1 = [⟨e, p.oneHopFurther⟩] := by
  unfold firstHop
  split
  case isTrue =>
    unfold firstHopCopy
    split
    case h_1 c later picked =>
      have member := RingView.mem_of_random (congrArg Prod.fst picked)
      split
      case isTrue taken => exact Or.inr ⟨c.edge, rfl, taken, (RingView.mem_avoiding.mp member).2, rfl⟩
      case isFalse => exact Or.inl rfl
    case h_2 => exact Or.inl rfl
  case isFalse => exact Or.inl rfl

theorem mem_spreadOver {chosen : Option EdgeId} : c ∈ spreadOver site incoming chosen ↔
    (c ∈ (site.table.view .unstructured).connections ∧ some c.edge ≠ incoming) ∧
      some c.edge ≠ chosen := by
  rw [spreadOver, List.mem_filter, RingView.mem_avoiding, bne_iff_ne]

private theorem copyDestination_flood {flood : FloodAddress} (dest : p.destination = .flood flood)
    (e : EdgeId) : copyDestination site incoming p ws e =
      if flood.firstHop && pickedEdge site incoming ws != some e then .flood flood.withoutFirstHop
      else .flood flood := by
  simp only [copyDestination, dest]

theorem sentOn_routeFlood {flood : FloodAddress} (dest : p.destination = .flood flood) :
    ∀ copy ∈ (routeFlood site incoming p flood ws).1.copies, SentOn site incoming p ws copy := by
  intro copy member
  rcases routeFlood_cases flood with stuck | ⟨left, copies, -⟩
  · rw [stuck] at member
    cases member
  · have chosen := firstHop_fst site incoming p flood ws
    rw [copies] at member
    rcases List.mem_append.mp member with first | later
    · rcases firstHop_copies flood with none_sent | ⟨e, same, taken, away, one⟩
      · rw [none_sent] at first
        cases first
      · rw [one] at first
        obtain rfl := List.mem_singleton.mp first
        refine ⟨left, ?_, taken, away⟩
        -- The neighbour picked at random gets the packet with its flag.
        have picked : pickedEdge site incoming ws = some e := by
          rw [same] at chosen
          split at chosen
          · exact chosen.symm
          · cases chosen
        rw [copyDestination_flood dest, picked, bne_self_eq_false, Bool.and_false,
          if_neg Bool.false_ne_true, Packet.oneHopFurther_eq left, ← dest]
    · obtain ⟨packet, taken, c, among, same⟩ := of_mem_spread later
      obtain ⟨⟨-, away⟩, other⟩ := mem_spreadOver.mp among
      rw [same] at away other
      refine ⟨left, ?_, taken, away⟩
      rw [packet, Packet.oneHopFurther_eq left, copyDestination_flood dest, Packet.withDestination]
      cases flagged : flood.firstHop with
      | true =>
        rw [chosen, flagged, if_pos rfl] at other
        have unpicked : (pickedEdge site incoming ws != some copy.edge) = true :=
          bne_iff_ne.mpr (Ne.symm other)
        rw [unpicked]
        rfl
      | false =>
        have unflagged : flood.withoutFirstHop = flood := by
          rw [FloodAddress.withoutFirstHop, ← flagged]
        rw [unflagged]
        rfl

private theorem counted_routeFlood (flood : FloodAddress) :
    (routeFlood site incoming p flood ws).1.Counted := by
  rcases routeFlood_cases flood with stuck | ⟨-, copies, sent⟩
  · rw [stuck]
    rfl
  · rw [RouteOutcome.Counted, copies, sent, List.length_append, firstHop_counted, floodRest,
      spread_counted]

/-- No two unstructured links share an edge, and the neighbour picked first is left out later. -/
private theorem nodup_routeFlood (arranged : site.table.Arranged) (flood : FloodAddress) :
    ((routeFlood site incoming p flood ws).1.copies.map (·.edge)).Nodup := by
  rcases routeFlood_cases flood with stuck | ⟨-, copies, -⟩
  · rw [stuck]
    exact List.nodup_nil
  · rw [copies, List.map_append]
    have sub := spread_sublist site flood.probability
      (p.oneHopFurther.withDestination (.flood flood.withoutFirstHop))
      (spreadOver site incoming (firstHop site incoming p flood ws).1)
      (firstHop site incoming p flood ws).2.2.2
    have edges : (spreadOver site incoming (firstHop site incoming p flood ws).1).Sublist
        (site.table.view .unstructured).connections :=
      List.filter_sublist.trans List.filter_sublist
    have apart := ((arranged .unstructured).edges.sublist (edges.map _)).sublist sub
    rcases firstHop_copies flood with none_sent | ⟨e, same, -, -, one⟩
    · rw [none_sent]
      exact apart
    · rw [one]
      refine List.nodup_cons.mpr ⟨?_, apart⟩
      intro again
      obtain ⟨c, among, same_edge⟩ := List.mem_map.mp (sub.subset again)
      apply (mem_spreadOver.mp among).2
      rw [same]
      exact congrArg some same_edge

end

end Routing

namespace RouteSite

open Routing

variable {site : RouteSite}

theorem sentOn_route (site : RouteSite) (incoming : Option EdgeId) (p : Packet) (ws : Words) :
    ∀ copy ∈ (site.route incoming p ws).1.copies, SentOn site incoming p ws copy := by
  unfold route
  split
  case h_1 dest ring =>
    exact (lone_routeRing dest).sentOn fun e => by simp only [copyDestination, ring]
  case h_2 d directional =>
    exact (lone_routeDirectional d).sentOn fun e => by simp only [copyDestination, directional]
  case h_3 flood dest => exact sentOn_routeFlood dest
  case h_4 walk =>
    exact (lone_routeRandomWalk site incoming p ws).sentOn fun e => by
      simp only [copyDestination, walk]

theorem nodup_route (arranged : site.table.Arranged) (incoming : Option EdgeId) (p : Packet)
    (ws : Words) :
    ((site.route incoming p ws).1.copies.map (·.edge)).Nodup := by
  unfold route
  split
  case h_1 dest _ => exact (lone_routeRing dest).nodup
  case h_2 d _ => exact (lone_routeDirectional d).nodup
  case h_3 flood _ => exact nodup_routeFlood arranged flood
  case h_4 => exact (lone_routeRandomWalk site incoming p ws).nodup

theorem counted_route (site : RouteSite) (incoming : Option EdgeId) (p : Packet) (ws : Words) :
    (site.route incoming p ws).1.Counted := by
  unfold route
  split
  case h_1 dest _ => exact (lone_routeRing dest).counted
  case h_2 d _ => exact (lone_routeDirectional d).counted
  case h_3 flood _ => exact counted_routeFlood flood
  case h_4 => exact (lone_routeRandomWalk site incoming p ws).counted

end RouteSite

/-- Some node of some network sends a copy on, and the copy that flies further. -/
def Flight.Passes {ν : Type} (f g : Flight ν) : Prop :=
  ∃ (m : Moment ν) (ws : Words), g ∈ (m.handle f ws).passed

section

variable {ν : Type} {f g : Flight ν}

theorem Flight.Passes.spends_hop (passes : f.Passes g) :
    f.packet.hops < f.packet.ttl ∧ g.packet.hops.toNat = f.packet.hops.toNat + 1 ∧
      g.packet.ttl = f.packet.ttl := by
  obtain ⟨m, ws, passed⟩ := passes
  obtain ⟨copy, sent, flown⟩ := List.mem_filterMap.mp passed
  have sentOn := (m.site f.node).sentOn_route f.incoming f.packet ws copy sent
  obtain ⟨far, -, rfl⟩ := Option.map_eq_some_iff.mp flown
  refine ⟨sentOn.hopsLeft, ?_, ?_⟩
  · change copy.packet.hops.toNat = _
    rw [sentOn.packet]
    exact Packet.toNat_hops_add_one sentOn.hopsLeft
  · change copy.packet.ttl = _
    rw [sentOn.packet]

theorem Flight.length_le_of_chain {fs : List (Flight ν)} (chain : List.IsChain Passes (f :: fs)) :
    fs.length ≤ f.packet.ttl.toNat - f.packet.hops.toNat := by
  induction fs generalizing f with
  | nil => exact Nat.zero_le _
  | cons g fs ih =>
    obtain ⟨first, rest⟩ := List.isChain_cons_cons.mp chain
    obtain ⟨left, hops, ttl⟩ := first.spends_hop
    have fewer := ih rest
    have below : f.packet.hops.toNat < f.packet.ttl.toNat := UInt16.lt_iff_toNat_lt.mp left
    rw [hops, ttl] at fewer
    rw [List.length_cons]
    omega

end

namespace RouteSite

/-- Routing sends copies only while the packet has hops left. Every copy is the packet one hop
further, with the flag cleared on what a first hop of a flood spreads; it is taken by an edge other
than the one on which the packet came, no edge takes two, and as many are counted as edges took one.
So in every network a packet is sent on at most as often as it has hops left. -/
theorem forwarding_bounded_by_ttl (site : RouteSite) (reachable : site.table.Reachable)
    (incoming : Option EdgeId) (p : Packet) (ws : Words) :
    (∀ copy ∈ (site.route incoming p ws).1.copies, Routing.SentOn site incoming p ws copy ∧
      copy.packet.hops.toNat = p.hops.toNat + 1) ∧
    ((site.route incoming p ws).1.copies.map (·.edge)).Nodup ∧
    (site.route incoming p ws).1.sent =
      ((site.route incoming p ws).1.copies.map (·.edge)).toFinset.card ∧
    ∀ (ν : Type) (f : Flight ν) (fs : List (Flight ν)), List.IsChain Flight.Passes (f :: fs) →
      fs.length ≤ f.packet.ttl.toNat - f.packet.hops.toNat := by
  have apart := nodup_route reachable.arranged incoming p ws
  refine ⟨?_, apart, ?_, fun ν f fs chain => Flight.length_le_of_chain chain⟩
  · intro copy member
    have sentOn := sentOn_route site incoming p ws copy member
    refine ⟨sentOn, ?_⟩
    rw [sentOn.packet]
    exact Packet.toNat_hops_add_one sentOn.hopsLeft
  · rw [List.toFinset_card_of_nodup apart, List.length_map]
    exact counted_route site incoming p ws

def crossroads : RouteSite where
  here := .floor 0
  table := .after ((List.range 4).map fun n =>
    .add ⟨n, .floor (BitVec.ofNat 160 (16 * n + 16)), "unstructured", []⟩)
  accepts e := e != 3

def wave : Packet := ⟨0, 2, .floor 0, .flood ⟨true, .one⟩, .exact, 0, []⟩

theorem forwarding_bounded_crossroads :
    crossroads.table.Reachable ∧
    ((crossroads.route (some 0) wave [0x80000000]).1.copies.map fun copy =>
      (copy.edge, copy.packet.hops, copy.packet.destination)) =
      [(2, 1, .flood ⟨true, .one⟩), (1, 1, .flood ⟨false, .one⟩)] ∧
    (crossroads.route (some 0) wave [0x80000000]).1.sent =
      ((crossroads.route (some 0) wave [0x80000000]).1.copies.map (·.edge)).toFinset.card :=
  ⟨⟨_, rfl⟩, by decide +kernel,
    (forwarding_bounded_by_ttl crossroads ⟨_, rfl⟩ (some 0) wave [0x80000000]).2.2.1⟩

end RouteSite

end RingOverlay

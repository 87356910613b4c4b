import RingOverlay.Proofs.Routing.Wandering
/-!
What a node does with a packet of a flood. Which copies it hands to its edges does not depend on
which of these take them; at most one copy carries the flag of the first hop, and only if the packet
carried it.
-/

set_option autoImplicit false
set_option relaxedAutoImplicit false

namespace RingOverlay

namespace Single

theorem exceeds_of_low {x : Single} (zero : x.low = 0) (n : Nat) : x.exceeds n = false := by
  have magnitude : x.magnitude = .finite 0 (-149) false := by
    rw [Single.magnitude, zero]
    rfl
  simp [exceeds, magnitude]

theorem low_of_eq_zero {x : Single} (same : x.eq .zero = true) : x.low = 0 := by
  simp only [Single.eq, Bool.and_eq_true, beq_iff_eq] at same
  have rank : x.rank = 0 := same.2
  unfold Single.rank at rank
  split at rank <;> omega

theorem one_exceeds {n : Nat} (drawn : n < 2 ^ 24) : one.exceeds n = true := by
  have magnitude : one.magnitude = .finite (2 ^ 23) (-23) true := by decide
  have sign : one.negative = false := by decide
  have shift : ((-23 : Int) + 149).toNat = 126 := rfl
  simp only [exceeds, magnitude, sign, shift, Nat.shiftLeft_eq]
  simp
  omega

end Single

theorem Words.fraction24_lt (ws : Words) : ws.fraction24.1 < 2 ^ 24 := by
  have bound := ws.next.1.toNat_lt
  change ws.next.1.toNat / 256 < 2 ^ 24
  omega

def Packet.flagged (p : Packet) : Bool :=
  match p.destination with
  | .flood flood => flood.firstHop
  | _ => false

def RouteSite.opened (site : RouteSite) : RouteSite := { site with accepts := fun _ => true }

namespace Routing

def floodOffers (site : RouteSite) (incoming : Option EdgeId) (p : Packet) (flood : FloodAddress)
    (ws : Words) : List PacketCopy :=
  (routeFlood site.opened incoming p flood ws).1.copies

section

variable {site : RouteSite} {incoming : Option EdgeId} {p : Packet} {flood : FloodAddress}
  {ws : Words} {c : Connection} {copy : PacketCopy}

private theorem spread_opened (site : RouteSite) (probability : Single) (q : Packet)
    (cs : List Connection) (ws : Words) :
    (spread site probability q cs ws).1 =
        (spread site.opened probability q cs ws).1.filter (site.accepts ·.edge) ∧
      (spread site probability q cs ws).2.2 = (spread site.opened probability q cs ws).2.2 := by
  induction cs generalizing ws with
  | nil => exact ⟨rfl, rfl⟩
  | cons c cs ih =>
    obtain ⟨copies, words⟩ := ih ws.fraction24.2
    simp only [spread]
    cases probability.exceeds ws.fraction24.1 <;> cases taken : site.accepts c.edge <;>
      simp [RouteSite.opened, taken, copies, words]

private theorem firstHop_opened (site : RouteSite) (incoming : Option EdgeId) (p : Packet)
    (flood : FloodAddress) (ws : Words) :
    (firstHop site incoming p flood ws).1 = (firstHop site.opened incoming p flood ws).1 ∧
      (firstHop site incoming p flood ws).2.1 =
        (firstHop site.opened incoming p flood ws).2.1.filter (site.accepts ·.edge) ∧
      (firstHop site incoming p flood ws).2.2.2 =
        (firstHop site.opened incoming p flood ws).2.2.2 := by
  unfold firstHop firstHopCopy
  cases flood.firstHop
  · exact ⟨rfl, rfl, rfl⟩
  · have table : site.opened.table = site.table := rfl
    simp only [if_true, table]
    split
    · rename_i c ws' picked
      cases taken : site.accepts c.edge <;> simp [RouteSite.opened, taken]
    · exact ⟨rfl, rfl, rfl⟩

theorem routeFlood_stuck (stuck : site.table.count .unstructured < 2 ∨ ¬ p.hops < p.ttl) :
    (routeFlood site incoming p flood ws).1 = .stuck p := by
  have kept : (decide ((site.table.view .unstructured).size < 2) || !p.hasTtlLeft) = true := by
    rw [← Packet.hasTtlLeft_iff] at stuck
    rcases stuck with few | spent
    · have short : (site.table.view .unstructured).size < 2 := few
      simp [short]
    · simp [spent]
  unfold routeFlood
  dsimp only
  rw [if_pos kept]

theorem routeFlood_spread (two : 2 ≤ site.table.count .unstructured) (left : p.hops < p.ttl) :
    (routeFlood site incoming p flood ws).1 =
      ⟨(firstHop site incoming p flood ws).2.1 ++ (floodRest site incoming p flood ws).1,
        (firstHop site incoming p flood ws).2.2.1 + (floodRest site incoming p flood ws).2.1,
        true⟩ := by
  have going : ¬ (decide ((site.table.view .unstructured).size < 2) || !p.hasTtlLeft) = true := by
    have enough : ¬ (site.table.view .unstructured).size < 2 := Nat.not_lt.mpr two
    simpa [enough] using Packet.hasTtlLeft_iff.mpr left
  unfold routeFlood
  dsimp only
  rw [if_neg going]
  rfl

theorem copies_routeFlood (site : RouteSite) (incoming : Option EdgeId) (p : Packet)
    (flood : FloodAddress) (ws : Words) : (routeFlood site incoming p flood ws).1.copies =
      (floodOffers site incoming p flood ws).filter (site.accepts ·.edge) := by
  unfold floodOffers
  by_cases stuck : site.table.count .unstructured < 2 ∨ ¬ p.hops < p.ttl
  · have same : site.opened.table.count .unstructured < 2 ∨ ¬ p.hops < p.ttl := stuck
    rw [routeFlood_stuck stuck, routeFlood_stuck same]
    rfl
  · rw [not_or, Nat.not_lt, not_not] at stuck
    have two : 2 ≤ site.opened.table.count .unstructured := stuck.1
    obtain ⟨picked, first, words⟩ := firstHop_opened site incoming p flood ws
    rw [routeFlood_spread stuck.1 stuck.2, routeFlood_spread two stuck.2, List.filter_append, first,
      floodRest, (spread_opened ..).1, picked, words]
    rfl

theorem unflagged_routeFlood (dest : p.destination = .flood flood) (unflagged : flood.firstHop = false) :
    ∀ copy ∈ (routeFlood site incoming p flood ws).1.copies, copy.packet.flagged = false := by
  intro copy member
  have sent := sentOn_routeFlood dest copy member
  rw [sent.packet, Packet.flagged]
  simp [copyDestination, dest, unflagged]

private theorem unflagged_spread (q : Packet) (unflagged : q.flagged = false) (probability : Single)
    (cs : List Connection) (ws : Words) :
    (spread site probability q cs ws).1.filter (·.packet.flagged) = [] := by
  rw [List.filter_eq_nil_iff]
  intro copy member
  rw [(of_mem_spread member).1, unflagged]
  exact Bool.false_ne_true

theorem flagged_floodOffers (reachable : site.table.Reachable)
    (two : 2 ≤ site.table.count .unstructured) (left : p.hops < p.ttl)
    (dest : p.destination = .flood flood) (flagged : flood.firstHop = true) :
    ∃ c ∈ (site.table.view .unstructured).connections, some c.edge ≠ incoming ∧
      (floodOffers site incoming p flood ws).filter (·.packet.flagged) =
        [⟨c.edge, p.oneHopFurther⟩] := by
  have candidates := (reachable.arranged .unstructured).avoiding_ne_nil two incoming
  obtain ⟨c, among, picked⟩ := Words.exists_choose candidates ws
  obtain ⟨member, away⟩ := RingView.mem_avoiding.mp among
  refine ⟨c, member, away, ?_⟩
  have first : (firstHop site.opened incoming p flood ws).2.1 = [⟨c.edge, p.oneHopFurther⟩] := by
    have chosen : ((site.opened.table.view .unstructured).random incoming ws).1 = some c := picked
    simp only [firstHop, flagged, if_true, firstHopCopy]
    generalize (site.opened.table.view .unstructured).random incoming ws = pick at chosen ⊢
    obtain ⟨found, rest⟩ := pick
    obtain rfl : found = some c := chosen
    rfl
  have carried : (p.oneHopFurther).flagged = true := by
    simp [Packet.flagged, Packet.oneHopFurther, dest, flagged]
  have opened : 2 ≤ site.opened.table.count .unstructured := two
  rw [floodOffers, routeFlood_spread opened left, List.filter_append, floodRest,
    unflagged_spread _ rfl, first]
  simp [carried]

private theorem length_firstHop_le_one (site : RouteSite) (incoming : Option EdgeId) (p : Packet)
    (flood : FloodAddress) (ws : Words) : (firstHop site incoming p flood ws).2.1.length ≤ 1 := by
  rcases firstHop_copies flood with none_sent | ⟨e, -, -, -, one⟩
  · rw [none_sent]
    exact Nat.zero_le 1
  · rw [one]
    exact Nat.le_refl 1

theorem length_flagged_le_one : ((routeFlood site incoming p flood ws).1.copies.filter
    (·.packet.flagged)).length ≤ 1 := by
  rcases routeFlood_cases flood with stuck | ⟨-, copies, -⟩
  · rw [stuck]
    exact Nat.zero_le 1
  · rw [copies, List.filter_append, floodRest, unflagged_spread _ rfl, List.append_nil]
    exact (List.length_filter_le ..).trans (length_firstHop_le_one ..)

private theorem spread_of_low {probability : Single} (zero : probability.low = 0) (q : Packet)
    (cs : List Connection) (ws : Words) : (spread site probability q cs ws).1 = [] := by
  induction cs generalizing ws with
  | nil => rfl
  | cons c cs ih => simp [spread, Single.exceeds_of_low zero, ih]

theorem length_routeFlood_of_low (zero : flood.probability.low = 0) :
    (routeFlood site incoming p flood ws).1.copies.length ≤ 1 := by
  rcases routeFlood_cases flood with stuck | ⟨-, copies, -⟩
  · rw [stuck]
    exact Nat.zero_le 1
  · rw [copies, floodRest, spread_of_low zero, List.append_nil]
    exact length_firstHop_le_one ..

theorem link_of_mem_routeFlood (member : copy ∈ (routeFlood site incoming p flood ws).1.copies) :
    ∃ c ∈ (site.table.view .unstructured).connections, c.edge = copy.edge := by
  rcases routeFlood_cases flood with stuck | ⟨-, copies, -⟩
  · rw [stuck] at member
    cases member
  · rw [copies, List.mem_append] at member
    rcases member with first | later
    · simp only [firstHop, firstHopCopy] at first
      split at first
      · split at first
        · rename_i c rest picked
          have among := RingView.mem_of_random (congrArg Prod.fst picked)
          refine ⟨c, (RingView.mem_avoiding.mp among).1, ?_⟩
          split at first
          · rw [List.mem_singleton.mp first]
          · cases first
        · cases first
      · cases first
    · obtain ⟨-, -, c, among, same⟩ := of_mem_spread later
      exact ⟨c, (mem_spreadOver.mp among).1.1, same⟩

private theorem firstHop_taken {e : EdgeId}
    (chosen : (firstHop site incoming p flood ws).1 = some e) (taken : site.accepts e = true) :
    (firstHop site incoming p flood ws).2.1 = [⟨e, p.oneHopFurther⟩] := by
  revert chosen
  unfold firstHop firstHopCopy
  split
  · split
    · split
      · rintro ⟨⟩
        rfl
      · rintro ⟨⟩
        contradiction
    · rintro ⟨⟩
  · rintro ⟨⟩

private theorem spread_certain (q : Packet) {cs : List Connection} (member : c ∈ cs)
    (taken : site.accepts c.edge = true) (ws : Words) : ⟨c.edge, q⟩ ∈ (spread site .one q cs ws).1 := by
  induction cs generalizing ws with
  | nil => cases member
  | cons d cs ih =>
    simp only [spread, Single.one_exceeds ws.fraction24_lt, Bool.true_and]
    rcases List.mem_cons.mp member with rfl | later
    · simp [taken]
    · split
      · exact List.mem_cons_of_mem _ (ih later _)
      · exact ih later _

theorem certain_routeFlood (flood : FloodAddress) (ws : Words)
    (two : 2 ≤ site.table.count .unstructured) (left : p.hops < p.ttl)
    (certain : flood.probability = .one) (member : c ∈ (site.table.view .unstructured).connections)
    (away : some c.edge ≠ incoming) (taken : site.accepts c.edge = true) :
    ∃ copy ∈ (routeFlood site incoming p flood ws).1.copies, copy.edge = c.edge := by
  rw [routeFlood_spread two left, floodRest, certain]
  by_cases chosen : (firstHop site incoming p flood ws).1 = some c.edge
  · refine ⟨⟨c.edge, p.oneHopFurther⟩, List.mem_append_left _ ?_, rfl⟩
    rw [firstHop_taken chosen taken]
    exact List.mem_singleton_self _
  · have among : c ∈ spreadOver site incoming (firstHop site incoming p flood ws).1 :=
      mem_spreadOver.mpr ⟨⟨member, away⟩, Ne.symm chosen⟩
    exact ⟨⟨c.edge, _⟩, List.mem_append_right _ (spread_certain _ among taken _), rfl⟩

theorem deliver_routeFlood_of_last (mode : p.delivery = .last) :
    (routeFlood site incoming p flood ws).1.deliver = true := by
  by_cases stuck : site.table.count .unstructured < 2 ∨ ¬ p.hops < p.ttl
  · rw [routeFlood_stuck stuck, RouteOutcome.stuck, mode]
    rfl
  · rw [not_or, Nat.not_lt, not_not] at stuck
    rw [routeFlood_spread stuck.1 stuck.2]

end

end Routing

end RingOverlay

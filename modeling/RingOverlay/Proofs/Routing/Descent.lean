import Mathlib.Data.Fintype.Card
import RingOverlay.Proofs.Address.Distance
import RingOverlay.Proofs.Routing.Greedy
/-!
Packets towards a position cannot loop. With every forward the packet comes strictly closer to its
destination, whatever links the nodes have at the moment they handle it, so that it reaches no node
twice.
-/

set_option autoImplicit false
set_option relaxedAutoImplicit false

namespace RingOverlay

structure RingNetwork (ν : Type) where
  position : ν → RingAddress
  distinct : ∀ m n, position m = position n → m = n

namespace RingNetwork

variable {ν : Type}

/-- Nodes know their positions, and the leaf and structured links they have name the position of the
node at the other end of the edge. -/
structure Truthful (net : RingNetwork ν) (m : Moment ν) : Prop where
  here : ∀ n, (m.site n).here = net.position n
  links : ∀ n, ∀ k ∈ [MainType.leaf, MainType.structured],
    ∀ c ∈ ((m.site n).table.view k).connections,
      (m.far n c.edge).map (fun other => net.position other.1) = some c.address

def TruthfulStep (net : RingNetwork ν) : TransitStep ν → Prop
  | .handle _ m _ => net.Truthful m
  | .lose _ => True

def remaining (net : RingNetwork ν) (dest : RingAddress) (n : ν) : Nat :=
  (net.position n).separation dest

/-- A copy that was sent on: it reaches a node closer to the destination, on a leaf link the node at
the destination itself. -/
def Descends (net : RingNetwork ν) (dest : RingAddress) (h : Handling ν) (copy : PacketCopy)
    (g : Flight ν) : Prop :=
  g.packet = copy.packet ∧ net.remaining dest g.node < net.remaining dest h.flight.node ∧
    ∃ c : Connection, c.edge = copy.edge ∧ c.address = net.position g.node ∧
      ((h.site.table.get? .leaf dest = some c ∧ net.position g.node = dest) ∨
        c ∈ (h.site.table.view .structured).connections)

section

variable {net : RingNetwork ν} {m : Moment ν} {f : Flight ν} {ws : Words} {dest : RingAddress}
  {site : RouteSite} {c : Connection}

theorem Truthful.pass_onward (truthful : net.Truthful m) {n : ν}
    (away : dest ≠ (m.site n).here) (onward : Routing.Onward (m.site n) dest c) (p : Packet) :
    ∃ g, m.pass n ⟨c.edge, p⟩ = some g ∧ g.packet = p ∧ c.address = net.position g.node ∧
      net.remaining dest g.node < net.remaining dest n ∧
      (((m.site n).table.get? .leaf dest = some c ∧ net.position g.node = dest) ∨
        c ∈ ((m.site n).table.view .structured).connections) := by
  have reached : (m.far n c.edge).map (fun other => net.position other.1) = some c.address := by
    rcases onward with ⟨found, -⟩ | ⟨member, -⟩
    · exact truthful.links n .leaf (by simp) c (RingView.mem_of_find? found).1
    · exact truthful.links n .structured (by simp) c member
  obtain ⟨⟨other, edge⟩, far, place⟩ := Option.map_eq_some_iff.mp reached
  refine ⟨⟨other, some edge, p⟩, by simp [Moment.pass, far], rfl, place.symm, ?_⟩
  have place : net.position other = c.address := place
  unfold remaining
  simp only [place, ← truthful.here n]
  rcases onward with ⟨found, same⟩ | ⟨member, closer⟩
  · refine ⟨?_, Or.inl ⟨found, same⟩⟩
    rw [same, RingAddress.separation_self]
    apply Nat.pos_of_ne_zero
    intro none_left
    exact away (RingAddress.separation_eq_zero_iff.mp none_left).symm
  · refine ⟨?_, Or.inr member⟩
    rw [RingAddress.separation_comm _ dest, RingAddress.separation_comm _ dest]
    simpa [RingAddress.isCloser] using closer

private theorem Truthful.handle_cases (truthful : net.Truthful m) (ws : Words)
    (ring : f.packet.destination = .ring dest) :
    ((m.handle f ws).outcome.copies = [] ∧ (m.handle f ws).passed = [] ∧
      (f.packet.delivery = .exact → (m.handle f ws).outcome.deliver = true →
        net.position f.node = dest)) ∨
    ∃ copy g, (m.handle f ws).outcome = ⟨[copy], 1, false⟩ ∧ (m.handle f ws).passed = [g] ∧
      g.packet = f.packet.oneHopFurther ∧ net.Descends dest (m.handle f ws) copy g := by
  have routed : (m.handle f ws).outcome =
      Routing.routeRing (m.site f.node) f.incoming f.packet dest := by
    simp [Moment.handle, RouteSite.route, ring]
  have passed : (m.handle f ws).passed =
      (m.handle f ws).outcome.copies.filterMap (m.pass f.node) := rfl
  have choice := Routing.choice_routeRing (m.site f.node) f.incoming f.packet dest
  rw [← routed] at choice
  generalize outcome : (m.handle f ws).outcome = o at choice passed ⊢
  cases choice with
  | arrived here =>
    refine Or.inl ⟨rfl, passed, fun _ _ => ?_⟩
    rw [here, truthful.here]
  | kept exact_keeps =>
    refine Or.inl ⟨rfl, passed, fun mode taken => ?_⟩
    rw [exact_keeps mode] at taken
    cases taken
  | @forwarded c away onward =>
    obtain ⟨g, pass, packet, place, closer, kind⟩ :=
      truthful.pass_onward away onward f.packet.oneHopFurther
    refine Or.inr ⟨⟨c.edge, f.packet.oneHopFurther⟩, g, rfl, ?_, packet, packet, closer, c, rfl,
      place, kind⟩
    rw [passed]
    simp [RouteOutcome.forwarded, pass]

end

/-- The nodes that copies have flown to, in order. -/
def reached (first : Flight ν) (t : Transit ν) : List ν :=
  first.node :: (t.log.flatMap (·.passed)).map (·.node)

/-- What holds while a packet is on its way to a position: it has come closer with every node that it
reached, the only copy in flight is towards the closest of them, and nothing is in flight once a
node has taken it. -/
structure Descent (net : RingNetwork ν) (dest : RingAddress) (first : Flight ν) (t : Transit ν) :
    Prop where
  descending : (reached first t).Pairwise fun m n => net.remaining dest n < net.remaining dest m
  trail : (t.handlers ++ t.flying.map (·.node)).Sublist (reached first t)
  flying : t.flying = [] ∨ ∃ f, t.flying = [f] ∧ f.packet.destination = .ring dest ∧
    f.packet.delivery = first.packet.delivery ∧
    ∀ n ∈ reached first t, net.remaining dest f.node ≤ net.remaining dest n
  takers : t.takers = [] ∨ t.flying = [] ∧ t.takers.length = 1
  atDestination : first.packet.delivery = .exact → ∀ n ∈ t.takers, net.position n = dest
  forwards : t.forwards = (t.log.flatMap (·.passed)).length
  copies : ∀ h ∈ t.log, ∀ copy ∈ h.outcome.copies, ∃ g ∈ h.passed, net.Descends dest h copy g

section

variable {net : RingNetwork ν} {m : Moment ν} {f first : Flight ν} {ws : Words} {dest : RingAddress}
  {t : Transit ν} {fs : List (Flight ν)} {h : Handling ν}

private theorem handlers_concat :
    (⟨fs, t.log ++ [h]⟩ : Transit ν).handlers = t.handlers ++ [h.flight.node] := by
  simp [Transit.handlers]

theorem takers_concat : (⟨fs, t.log ++ [h]⟩ : Transit ν).takers =
    t.takers ++ if h.outcome.deliver then [h.flight.node] else [] := by
  cases taken : h.outcome.deliver <;> simp [Transit.takers, taken]

theorem forwards_concat :
    (⟨fs, t.log ++ [h]⟩ : Transit ν).forwards = t.forwards + h.outcome.copies.length := by
  simp [Transit.forwards]

private theorem passed_concat :
    (t.log ++ [h]).flatMap (·.passed) = t.log.flatMap (·.passed) ++ h.passed := by
  simp

private theorem reached_concat : reached first ⟨fs, t.log ++ [h]⟩ =
    reached first t ++ h.passed.map (·.node) := by
  simp [reached]

private theorem descent_start (net : RingNetwork ν) (ring : first.packet.destination = .ring dest) :
    net.Descent dest first (.start first) where
  descending := List.pairwise_singleton _ _
  trail := List.Sublist.refl _
  flying := Or.inr ⟨first, rfl, ring, rfl, by simp [reached, Transit.start]⟩
  takers := Or.inl rfl
  atDestination _ := by simp [Transit.takers, Transit.start]
  forwards := rfl
  copies := by simp [Transit.start]

private theorem Descent.lose (descent : net.Descent dest first t) (i : Nat) :
    net.Descent dest first (t.step (.lose i)) := by
  have fewer : (t.flying.eraseIdx i).Sublist t.flying := List.eraseIdx_sublist _ _
  exact {
    descending := descent.descending
    trail := ((List.Sublist.refl _).append (fewer.map _)).trans descent.trail
    flying := by
      rcases descent.flying with none_left | ⟨f, one, rest⟩
      · exact Or.inl (List.eq_nil_of_sublist_nil (none_left ▸ fewer))
      · have within : (t.flying.eraseIdx i).Sublist [f] := fewer.trans (by rw [one])
        rcases List.sublist_singleton.mp within with gone | kept
        · exact Or.inl gone
        · exact Or.inr ⟨f, kept, rest⟩
    takers := descent.takers.imp_right fun ⟨none_left, one⟩ =>
      ⟨List.eq_nil_of_sublist_nil (none_left ▸ fewer), one⟩
    atDestination := descent.atDestination
    forwards := descent.forwards
    copies := descent.copies }

private structure Onto (net : RingNetwork ν) (dest : RingAddress) (first : Flight ν) (t : Transit ν)
    (f : Flight ν) : Prop where
  ring : f.packet.destination = .ring dest
  mode : f.packet.delivery = first.packet.delivery
  closest : ∀ n ∈ reached first t, net.remaining dest f.node ≤ net.remaining dest n
  trail : (t.handlers ++ [f.node]).Sublist (reached first t)
  untaken : t.takers = []

private theorem Descent.onto (descent : net.Descent dest first t) (one : t.flying = [f]) :
    Onto net dest first t f := by
  obtain ⟨ring, mode, closest⟩ : f.packet.destination = .ring dest ∧
      f.packet.delivery = first.packet.delivery ∧
      ∀ n ∈ reached first t, net.remaining dest f.node ≤ net.remaining dest n := by
    rcases descent.flying with none_left | ⟨g, same, rest⟩
    · rw [one] at none_left
      cases none_left
    · rw [one] at same
      cases same
      exact rest
  refine ⟨ring, mode, closest, ?_, ?_⟩
  · simpa [one] using descent.trail
  · rcases descent.takers with none_yet | ⟨none_left, -⟩
    · exact none_yet
    · rw [one] at none_left
      cases none_left

private theorem Descent.keep (descent : net.Descent dest first t) (one : t.flying = [h.flight])
    (copies : h.outcome.copies = []) (passed : h.passed = [])
    (exact_at : h.flight.packet.delivery = .exact → h.outcome.deliver = true →
      net.position h.flight.node = dest) :
    net.Descent dest first ⟨h.passed, t.log ++ [h]⟩ := by
  have onto := descent.onto one
  have reached_same : reached first ⟨h.passed, t.log ++ [h]⟩ = reached first t := by
    rw [reached_concat, passed, List.map_nil, List.append_nil]
  have takers : Transit.takers ⟨h.passed, t.log ++ [h]⟩ =
      if h.outcome.deliver then [h.flight.node] else [] := by
    rw [takers_concat, onto.untaken, List.nil_append]
  exact {
    descending := by
      rw [reached_same]
      exact descent.descending
    trail := by
      rw [reached_same, handlers_concat, passed, List.map_nil, List.append_nil]
      exact onto.trail
    flying := Or.inl passed
    takers := by
      rw [takers]
      split
      · exact Or.inr ⟨passed, rfl⟩
      · exact Or.inl rfl
    atDestination := by
      intro mode_exact n member
      rw [takers] at member
      split at member
      case isTrue taken =>
        obtain rfl := List.mem_singleton.mp member
        exact exact_at (onto.mode.trans mode_exact) taken
      case isFalse => cases member
    forwards := by
      rw [forwards_concat, passed_concat, copies, passed, List.append_nil, descent.forwards]
      rfl
    copies := by
      intro h' member copy sent
      rcases List.mem_append.mp member with earlier | now
      · exact descent.copies h' earlier copy sent
      · obtain rfl := List.mem_singleton.mp now
        rw [copies] at sent
        cases sent }

private theorem Descent.pass (descent : net.Descent dest first t) (one : t.flying = [h.flight])
    {copy : PacketCopy} {g : Flight ν} (outcome : h.outcome = ⟨[copy], 1, false⟩)
    (passed : h.passed = [g]) (packet : g.packet = h.flight.packet.oneHopFurther)
    (descends : net.Descends dest h copy g) :
    net.Descent dest first ⟨h.passed, t.log ++ [h]⟩ := by
  have onto := descent.onto one
  have further : ∀ n ∈ reached first t, net.remaining dest g.node < net.remaining dest n := by
    intro n earlier
    exact Nat.lt_of_lt_of_le descends.2.1 (onto.closest n earlier)
  have reached_further : reached first ⟨h.passed, t.log ++ [h]⟩ = reached first t ++ [g.node] := by
    rw [reached_concat, passed, List.map_singleton]
  have takers : Transit.takers ⟨h.passed, t.log ++ [h]⟩ = [] := by
    rw [takers_concat, onto.untaken, outcome]
    rfl
  exact {
    descending := by
      rw [reached_further, List.pairwise_append]
      refine ⟨descent.descending, List.pairwise_singleton _ _, ?_⟩
      intro n earlier k now
      obtain rfl := List.mem_singleton.mp now
      exact further n earlier
    trail := by
      rw [reached_further, handlers_concat, passed]
      exact onto.trail.append (List.Sublist.refl _)
    flying := by
      refine Or.inr ⟨g, passed, ?_, ?_, ?_⟩
      · rw [packet]
        exact onto.ring
      · rw [packet]
        exact onto.mode
      · intro n member
        rw [reached_further] at member
        rcases List.mem_append.mp member with earlier | now
        · exact Nat.le_of_lt (further n earlier)
        · obtain rfl := List.mem_singleton.mp now
          exact Nat.le_refl _
    takers := Or.inl takers
    atDestination := by
      intro _ n member
      rw [takers] at member
      cases member
    forwards := by
      rw [forwards_concat, passed_concat, outcome, passed, descent.forwards, List.length_append]
      rfl
    copies := by
      intro h' member copy' sent
      rcases List.mem_append.mp member with earlier | now
      · exact descent.copies h' earlier copy' sent
      · obtain rfl := List.mem_singleton.mp now
        rw [outcome] at sent
        obtain rfl := List.mem_singleton.mp sent
        exact ⟨g, by rw [passed]; exact List.mem_singleton_self g, descends⟩ }

private theorem Descent.handle (descent : net.Descent dest first t) (truthful : net.Truthful m)
    (one : t.flying = [f]) :
    net.Descent dest first ⟨(m.handle f ws).passed, t.log ++ [m.handle f ws]⟩ := by
  rcases truthful.handle_cases ws (descent.onto one).ring with
    ⟨copies, passed, exact_at⟩ | ⟨copy, g, outcome, passed, packet, descends⟩
  · exact descent.keep one copies passed exact_at
  · exact descent.pass one outcome passed packet descends

private theorem Descent.step (descent : net.Descent dest first t) {x : TransitStep ν}
    (truthful : net.TruthfulStep x) : net.Descent dest first (t.step x) := by
  cases x with
  | lose i => exact descent.lose i
  | handle i m ws =>
    cases found : t.flying[i]? with
    | none =>
      have idle : t.step (.handle i m ws) = t := by simp only [Transit.step, found]
      rw [idle]
      exact descent
    | some f =>
      have next : t.step (.handle i m ws) =
          ⟨t.flying.eraseIdx i ++ (m.handle f ws).passed, t.log ++ [m.handle f ws]⟩ := by
        simp only [Transit.step, found]
      rcases descent.flying with none_left | ⟨g, one, -⟩
      · rw [none_left] at found
        cases found
      · obtain ⟨rfl, rfl⟩ : i = 0 ∧ g = f := by
          rw [one] at found
          simpa [List.getElem?_singleton] using found
        have rest : t.flying.eraseIdx 0 = [] := by rw [one]; rfl
        rw [next, rest, List.nil_append]
        exact descent.handle truthful one

theorem Descent.run (descent : net.Descent dest first t) (steps : List (TransitStep ν))
    (truthful : ∀ x ∈ steps, net.TruthfulStep x) : net.Descent dest first (t.run steps) := by
  induction steps generalizing t with
  | nil => exact descent
  | cons x steps ih =>
    exact ih (descent.step (truthful x List.mem_cons_self))
      fun y member => truthful y (List.mem_cons_of_mem x member)

theorem Descent.nodup_reached (descent : net.Descent dest first t) : (reached first t).Nodup :=
  descent.descending.imp fun closer same => Nat.ne_of_gt closer (congrArg _ same)

/-- A packet towards a position comes closer to it with every forward, whatever truthful links the
nodes have at the moment they handle it; a forward on a leaf link reaches the destination itself. So
no node handles the packet twice, fewer copies are sent than there are nodes, one copy at most is in
flight at any time, and one node at most takes the packet: in exact mode only the node at the
destination. -/
theorem ring_packet_descends [Fintype ν] (net : RingNetwork ν) (dest : RingAddress)
    (first : Flight ν) (ring : first.packet.destination = .ring dest)
    (steps : List (TransitStep ν)) (truthful : ∀ x ∈ steps, net.TruthfulStep x) :
    (∀ h ∈ ((Transit.start first).run steps).log, ∀ copy ∈ h.outcome.copies,
      ∃ g ∈ h.passed, net.Descends dest h copy g) ∧
    ((Transit.start first).run steps).handlers.Nodup ∧
    ((Transit.start first).run steps).forwards < Fintype.card ν ∧
    ((Transit.start first).run steps).flying.length ≤ 1 ∧
    ((Transit.start first).run steps).takers.length ≤ 1 ∧
    (first.packet.delivery = .exact →
      ∀ n ∈ ((Transit.start first).run steps).takers, net.position n = dest) := by
  have descent := (descent_start net ring).run steps truthful
  refine ⟨descent.copies, ?_, ?_, ?_, ?_, descent.atDestination⟩
  · exact descent.nodup_reached.sublist ((List.sublist_append_left _ _).trans descent.trail)
  · have within := descent.nodup_reached.length_le_card
    rw [reached, List.length_cons, List.length_map] at within
    rw [descent.forwards]
    exact within
  · rcases descent.flying with none_left | ⟨f, one, -⟩
    · rw [none_left]
      exact Nat.zero_le 1
    · rw [one]
      exact Nat.le_refl 1
  · rcases descent.takers with none_yet | ⟨-, one⟩
    · rw [none_yet]
      exact Nat.zero_le 1
    · exact Nat.le_of_eq one

end

def row : RingNetwork (Fin 3) where
  position n := .floor (BitVec.ofNat 160 (16 * n))
  distinct := by decide

/-- The first node has a structured link to the second one, which has a leaf link to the third. -/
def rowMoment : Moment (Fin 3) where
  site n := ⟨row.position n,
    if n = 0 then
      { ConnectionTable.empty with structured := ⟨[⟨1, row.position 1, "structured.near", []⟩]⟩ }
    else if n = 1 then { ConnectionTable.empty with leaf := ⟨[⟨2, row.position 2, "leaf", []⟩]⟩ }
    else .empty, fun _ => true⟩
  far _ e := if e = 1 then some (1, 1) else some (2, 2)

def rowFlight : Flight (Fin 3) :=
  ⟨0, none, ⟨0, 9, row.position 0, .ring (row.position 2), .exact, 0, []⟩⟩

theorem ring_packet_descends_row :
    row.Truthful rowMoment ∧
    ((Transit.start rowFlight).run (List.replicate 4 (.handle 0 rowMoment []))).handlers = [0, 1, 2] ∧
    ((Transit.start rowFlight).run (List.replicate 4 (.handle 0 rowMoment []))).takers = [2] ∧
    ((Transit.start rowFlight).run (List.replicate 4 (.handle 0 rowMoment []))).forwards <
      Fintype.card (Fin 3) := by
  have truthful : row.Truthful rowMoment := ⟨fun _ => rfl, by decide⟩
  refine ⟨truthful, by decide +kernel, by decide +kernel, ?_⟩
  refine (ring_packet_descends row (row.position 2) rowFlight rfl _ fun x member => ?_).2.2.1
  rw [List.eq_of_mem_replicate member]
  exact truthful

end RingNetwork

end RingOverlay

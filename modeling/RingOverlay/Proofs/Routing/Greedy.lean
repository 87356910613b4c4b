import RingOverlay.Proofs.Table.Search
import RingOverlay.Routing.Network
/-!
What routing to a position can do with a packet: keep it, or send a single copy, either on a leaf
link to the destination itself or on a structured link to a node that is strictly closer.
-/

set_option autoImplicit false
set_option relaxedAutoImplicit false

namespace RingOverlay.Routing

section

variable {site : RouteSite} {incoming : Option EdgeId} {p : Packet} {dest : RingAddress}
  {c : Connection}

/-- The link on which a copy towards a position goes out: a leaf link to the position, or else a
structured link whose end is closer to it. -/
def Onward (site : RouteSite) (dest : RingAddress) (c : Connection) : Prop :=
  (site.table.get? .leaf dest = some c ∧ c.address = dest) ∨
    (c ∈ (site.table.view .structured).connections ∧ dest.isCloser c.address site.here = true)

private theorem mem_of_foldl_closerOf (best : Connection) (cs : List Connection) :
    cs.foldl (closerOf dest) best ∈ best :: cs := by
  induction cs generalizing best with
  | nil => simp
  | cons c cs ih =>
    have member := ih (closerOf dest best c)
    simp only [List.foldl_cons, List.mem_cons] at member ⊢
    rcases member with same | member
    · rw [same]
      unfold closerOf
      split
      · exact Or.inr (Or.inl rfl)
      · exact Or.inl rfl
    · exact Or.inr (Or.inr member)

theorem mem_of_closest? {cs : List Connection} (h : closest? dest cs = some c) : c ∈ cs := by
  cases cs with
  | nil => cases h
  | cons best cs =>
    obtain rfl := Option.some.inj h
    exact mem_of_foldl_closerOf best cs

private theorem kept_of_stuck (h : p.delivery = .exact) : (RouteOutcome.stuck p).deliver = false := by
  simp [RouteOutcome.stuck, DeliveryMode.isLastHop, h]

inductive RingChoice (site : RouteSite) (p : Packet) (dest : RingAddress) : RouteOutcome → Prop
  | arrived : dest = site.here → RingChoice site p dest .delivered
  | kept {deliver : Bool} : (p.delivery = .exact → deliver = false) →
      RingChoice site p dest ⟨[], 0, deliver⟩
  | forwarded {c : Connection} : dest ≠ site.here → Onward site dest c →
      RingChoice site p dest (.forwarded c.edge p.oneHopFurther)

private theorem choice_stuck : RingChoice site p dest (.stuck p) :=
  .kept kept_of_stuck

private theorem choice_forwardOr {o : RouteOutcome} (away : dest ≠ site.here)
    (onward : Onward site dest c) (other : RingChoice site p dest o) :
    RingChoice site p dest (site.forwardOr c.edge p.oneHopFurther o) := by
  unfold RouteSite.forwardOr
  split
  · exact .forwarded away onward
  · exact other

private theorem choice_routeStructured (incoming : Option EdgeId) (p : Packet)
    (away : dest ≠ site.here) : RingChoice site p dest (routeStructured site incoming p dest) := by
  have nobody : RingChoice site p dest ⟨[], 0, p.delivery != .exact⟩ := .kept fun h => by simp [h]
  unfold routeStructured
  split
  case h_1 c found =>
    split
    case isTrue closer =>
      have member := (List.mem_filter.mp (mem_of_closest? found)).1
      exact choice_forwardOr away (Or.inr ⟨member, closer⟩) choice_stuck
    case isFalse => exact nobody
  case h_2 => exact nobody

theorem choice_routeRing (site : RouteSite) (incoming : Option EdgeId) (p : Packet)
    (dest : RingAddress) : RingChoice site p dest (routeRing site incoming p dest) := by
  unfold routeRing
  split
  case isTrue => exact .kept fun _ => rfl
  case isFalse =>
    split
    case isTrue arrived => exact .arrived arrived
    case isFalse away =>
      split
      case isTrue => exact choice_stuck
      case isFalse =>
        have further := choice_routeStructured incoming p away
        dsimp only
        split
        case h_1 leaf found =>
          split
          case isTrue => exact further
          case isFalse =>
            exact choice_forwardOr away (Or.inl ⟨found, (RingView.mem_of_find? found).2⟩) further
        case h_2 => exact further

end

end RingOverlay.Routing

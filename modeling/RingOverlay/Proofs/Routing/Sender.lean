import RingOverlay.Proofs.Routing.Forwarding
import RingOverlay.Proofs.Table.Arrangement
import RingOverlay.Proofs.Table.Neighbors
/-!
Directional routing and the edge that a packet came in on. To step past the sender within the whole view
leads to the same neighbour as to take the sender out of the view first.
-/

set_option autoImplicit false
set_option relaxedAutoImplicit false

namespace RingOverlay

namespace RingAddress

variable {d : Bearing} {a b c : RingAddress}

/-- The walk to whoever is met later leads past whoever is met earlier. -/
theorem turnTo_add (earlier : turnTo d a b < turnTo d a c) :
    turnTo d a c = turnTo d a b + turnTo d b c := by
  have ha := a.value_lt
  have hb := b.value_lt
  have hc := c.value_lt
  cases d <;>
  · simp only [turnTo, leftTurnTo_eq] at earlier ⊢
    split_ifs at earlier ⊢ <;> omega

end RingAddress

namespace RingView

def without (v : RingView) (exclude : Option EdgeId) : RingView := ⟨v.avoiding exclude⟩

section

variable {v : RingView} {k : MainType} {exclude : Option EdgeId} {d : Bearing} {a : RingAddress}
  {c e : Connection}

theorem Ascending.without (ascending : v.Ascending) : (v.without exclude).Ascending :=
  List.Pairwise.sublist List.filter_sublist ascending

theorem mem_without : c ∈ (v.without exclude).connections ↔
    c ∈ v.connections ∧ some c.edge ≠ exclude := mem_avoiding

theorem Arranged.eq_of_edge (arranged : v.Arranged k) (hc : c ∈ v.connections)
    (he : e ∈ v.connections) (same : c.edge = e.edge) : c = e :=
  List.inj_on_of_nodup_map arranged.edges hc he same

theorem Ascending.towards_without (ascending : v.Ascending) (next : v.towards d a = some c)
    (away : some c.edge ≠ exclude) : (v.without exclude).towards d a = some c := by
  obtain ⟨among, first⟩ := ascending.towards_eq_some_iff.mp next
  exact ascending.without.towards_eq_some_iff.mpr ⟨mem_without.mpr ⟨among, away⟩,
    fun e member other => first e (mem_without.mp member).1 other⟩

theorem Ascending.eq_of_towards_self (ascending : v.Ascending)
    (own : v.towards d c.address = some c) (he : e ∈ v.connections) : e = c := by
  by_contra other
  have before := (ascending.towards_eq_some_iff.mp own).2 e he other
  rw [RingAddress.turnTo_self] at before
  exact absurd (RingAddress.turnTo_le d c.address e.address) (Nat.not_le.mpr before)

theorem Arranged.towards_without_next (arranged : v.Arranged k)
    (next : v.towards d a = some c) (after : v.towards d c.address = some e) (other : e ≠ c) :
    (v.without (some c.edge)).towards d a = some e := by
  have ascending := arranged.ascending
  obtain ⟨hc, first⟩ := ascending.towards_eq_some_iff.mp next
  obtain ⟨he, second⟩ := ascending.towards_eq_some_iff.mp after
  refine ascending.without.towards_eq_some_iff.mpr ⟨mem_without.mpr ⟨he, fun shared => ?_⟩,
    fun f hf differs => ?_⟩
  · exact other (arranged.eq_of_edge he hc (Option.some.inj shared))
  · obtain ⟨member, away⟩ := mem_without.mp hf
    have apart : f ≠ c := fun same => away (congrArg (fun c => some c.edge) same)
    -- Both lie beyond the first neighbour, whose distance from the position they have in common.
    have past_e := RingAddress.turnTo_add (first e he other)
    have past_f := RingAddress.turnTo_add (first f member apart)
    have nearer := second f member differs
    omega

end

end RingView

namespace Routing

def routePastSender (site : RouteSite) (incoming : Option EdgeId) (p : Packet) (d : Bearing) :
    RouteOutcome :=
  match ((site.table.view .structured).without incoming).towards d site.here with
  | some c => if p.hasTtlLeft then site.forwardOr c.edge p.oneHopFurther (.stuck p) else .stuck p
  | none => .stuck p

section

variable {v : RingView} {k : MainType} {here : RingAddress} {incoming : Option EdgeId} {d : Bearing}

theorem nextTowards_filter (arranged : v.Arranged k) :
    (nextTowards v here incoming d).filter (fun c => some c.edge != incoming) =
      (v.without incoming).towards d here := by
  have ascending := arranged.ascending
  unfold nextTowards
  cases next : v.towards d here with
  | none =>
    have nil := RingView.towards_eq_none_iff.mp next
    refine (RingView.towards_eq_none_iff.mpr ?_).symm
    rw [RingView.without, RingView.avoiding, nil, List.filter_nil]
  | some c =>
    dsimp only
    split
    case isFalse away =>
      rw [ascending.towards_without next away, Option.filter_some, if_pos (bne_iff_ne.mpr away)]
    case isTrue sender =>
      subst sender
      obtain ⟨e, after⟩ := RingView.exists_towards
        (List.ne_nil_of_mem (RingView.mem_of_towards next)) d c.address
      rw [after]
      by_cases alone : e = c
      · -- There is no link but the sender's.
        subst alone
        rw [Option.filter_some, bne_self_eq_false, if_neg Bool.false_ne_true]
        refine (RingView.towards_eq_none_iff.mpr (List.eq_nil_iff_forall_not_mem.mpr fun f hf => ?_)).symm
        obtain ⟨member, away⟩ := RingView.mem_without.mp hf
        exact away (congrArg (fun c => some c.edge) (ascending.eq_of_towards_self after member))
      · have found := arranged.towards_without_next next after alone
        have away := (RingView.mem_without.mp (RingView.mem_of_towards found)).2
        rw [found, Option.filter_some, if_pos (bne_iff_ne.mpr away)]

theorem routeDirectional_eq (site : RouteSite) (incoming : Option EdgeId) (p : Packet) (d : Bearing) :
    routeDirectional site incoming p d =
      match (nextTowards (site.table.view .structured) site.here incoming d).filter
        fun c => some c.edge != incoming with
      | some c => if p.hasTtlLeft then site.forwardOr c.edge p.oneHopFurther (.stuck p) else .stuck p
      | none => .stuck p := by
  unfold routeDirectional
  cases nextTowards (site.table.view .structured) site.here incoming d with
  | none => rfl
  | some c =>
    rw [Option.filter_some]
    dsimp only
    cases some c.edge != incoming with
    | true => rw [Bool.and_true, if_pos rfl]
    | false => rw [Bool.and_false, if_neg Bool.false_ne_true, if_neg Bool.false_ne_true]

/-- To step past the sender is to leave it out. Whatever links calls on a table have led to, wherever
the node stands among them and whichever edge a packet came in on, directional routing does with it what
it would do if the structured link on that edge, of which there is at most one, were not there: the
neighbour that is left is the same, and so is the outcome. -/
theorem routeDirectional_skips_sender (site : RouteSite) (reachable : site.table.Reachable)
    (incoming : Option EdgeId) (p : Packet) (d : Bearing) :
    let v := site.table.view .structured
    (∀ c ∈ v.connections, ∀ e ∈ v.connections, c ∉ (v.without incoming).connections →
      e ∉ (v.without incoming).connections → c = e) ∧
    (nextTowards v site.here incoming d).filter (fun c => some c.edge != incoming) =
      (v.without incoming).towards d site.here ∧
    routeDirectional site incoming p d = routePastSender site incoming p d := by
  intro v
  have arranged : v.Arranged .structured := reachable.arranged .structured
  refine ⟨fun c hc e he gone lost => ?_, nextTowards_filter arranged, ?_⟩
  · have sent {c : Connection} (hc : c ∈ v.connections)
        (gone : c ∉ (v.without incoming).connections) : some c.edge = incoming := by
      by_contra away
      exact gone (RingView.mem_without.mpr ⟨hc, away⟩)
    exact arranged.eq_of_edge hc he (Option.some.inj ((sent hc gone).trans (sent he lost).symm))
  · rw [routeDirectional_eq, nextTowards_filter arranged, routePastSender]

def aroundHere : List TableCall :=
  [.add ⟨1, .floor 32, "structured.near", []⟩, .add ⟨2, .floor 16, "structured.near", []⟩,
    .add ⟨3, .floor 96, "structured.shortcut", []⟩]

/-- From position 32 the walk to the left comes from the last link round to the first one. The link to
the position itself is the last resort. -/
theorem routeDirectional_skips_sender_aroundHere :
    let site : RouteSite := ⟨.floor 32, ConnectionTable.after aroundHere, fun _ => true⟩
    let p : Packet := ⟨0, 8, .floor 200, .directional .left, .last, 0, []⟩
    routePastSender site (some 3) p .left = .forwarded 2 p.oneHopFurther ∧
    routeDirectional site (some 3) p .left = .forwarded 2 p.oneHopFurther := by
  intro site p
  obtain ⟨-, -, same⟩ := routeDirectional_skips_sender site ⟨_, rfl⟩ (some 3) p .left
  have plain : routePastSender site (some 3) p .left = .forwarded 2 p.oneHopFurther := by
    decide +kernel
  exact ⟨plain, same.trans plain⟩

end

end Routing

end RingOverlay

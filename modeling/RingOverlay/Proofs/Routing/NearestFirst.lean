import RingOverlay.Proofs.Routing.Forwarding
import RingOverlay.Proofs.Table.Nearest
/-!
The neighbour that routing to a position considers, and the list of links by their distance from that
position. A running minimum over a view and a stable sort of it settle links that are equally far away
in the same manner, so the neighbour is the first one of the list that is not the sender.
-/

set_option autoImplicit false
set_option relaxedAutoImplicit false

namespace RingOverlay

namespace RingView

section

variable {v : RingView} {a : RingAddress} {b c d : Connection} {cs : List Connection}
  {p : Connection → Bool} {m n : Nat}

theorem Before.trans (first : Before a b c) (second : Before a c d) : Before a b d := by
  unfold Before at *
  omega

theorem Before.asymm (first : Before a c d) : ¬ Before a d c := by
  unfold Before at *
  omega

theorem length_nearest (v : RingView) (a : RingAddress) (n : Nat) :
    (v.nearest a n).length = min n v.size := by
  rw [nearest, List.length_take, (byDistance_perm v a).length_eq]
  rfl

theorem mem_of_mem_nearest (h : c ∈ v.nearest a n) : c ∈ v.connections :=
  (byDistance_perm v a).mem_iff.mp (List.mem_of_mem_take h)

theorem nearest_size (v : RingView) (a : RingAddress) : v.nearest a v.size = v.byDistance a :=
  List.take_of_length_le (byDistance_perm v a).length_eq.le

theorem nearest_isPrefix (v : RingView) (a : RingAddress) (le : m ≤ n) :
    v.nearest a m <+: v.nearest a n :=
  List.take_prefix_take_left le

theorem Ascending.before_of_not_mem_nearest (ascending : v.Ascending) (hc : c ∈ v.nearest a n)
    (hd : d ∈ v.connections) (out : d ∉ v.nearest a n) : Before a c d := by
  have split := ascending.pairwise_byDistance a
  rw [← List.take_append_drop n (v.byDistance a), List.pairwise_append] at split
  have listed := (byDistance_perm v a).mem_iff.mpr hd
  rw [← List.take_append_drop n (v.byDistance a), List.mem_append] at listed
  exact split.2.2 c hc d (listed.resolve_left out)

theorem before_of_find? (ordered : cs.Pairwise (Before a)) (found : cs.find? p = some c)
    (hd : d ∈ cs) (fits : p d = true) (other : d ≠ c) : Before a c d := by
  rw [← List.head?_filter] at found
  obtain ⟨rest, kept⟩ := List.head?_eq_some_iff.mp found
  have kept_ordered := ordered.filter p
  have among : d ∈ cs.filter p := List.mem_filter.mpr ⟨hd, fits⟩
  rw [kept] at kept_ordered among
  exact List.rel_of_pairwise_cons kept_ordered ((List.mem_cons.mp among).resolve_left other)

end

end RingView

namespace Routing

section

variable {v : RingView} {a : RingAddress} {best c d : Connection} {cs : List Connection}

private theorem closerOf_cases (a : RingAddress) (below : best.address.value < c.address.value) :
    closerOf a best c = c ∧ RingView.Before a c best ∨
      closerOf a best c = best ∧ RingView.Before a best c := by
  unfold closerOf
  split
  case isTrue closer => exact Or.inl ⟨rfl, Or.inl closer⟩
  case isFalse farther =>
    rcases Nat.lt_or_eq_of_le (Nat.not_lt.mp farther) with closer | level
    · exact Or.inr ⟨rfl, Or.inl closer⟩
    · exact Or.inr ⟨rfl, Or.inr ⟨level, below⟩⟩

private theorem before_of_foldl_closerOf
    (ascending : (best :: cs).Pairwise fun c d => c.address.value < d.address.value)
    (hd : d ∈ best :: cs) (other : d ≠ cs.foldl (closerOf a) best) :
    RingView.Before a (cs.foldl (closerOf a) best) d := by
  induction cs generalizing best d with
  | nil => exact absurd (List.mem_singleton.mp hd) other
  | cons c cs ih =>
    rw [List.foldl_cons] at other ⊢
    obtain ⟨above, tail⟩ := List.pairwise_cons.mp ascending
    -- What is lost stands behind what is kept, and that behind the minimum unless it is the minimum.
    have behind {kept lost : Connection} (before : RingView.Before a kept lost)
        (rest : (kept :: cs).Pairwise fun c d => c.address.value < d.address.value) :
        RingView.Before a (cs.foldl (closerOf a) kept) lost := by
      by_cases same : kept = cs.foldl (closerOf a) kept
      · rw [← same]
        exact before
      · exact (ih rest List.mem_cons_self same).trans before
    have skipped : (best :: cs).Pairwise fun c d => c.address.value < d.address.value :=
      ascending.sublist (List.Sublist.cons_cons best (List.sublist_cons_self c cs))
    rcases closerOf_cases a (above c List.mem_cons_self) with ⟨same, before⟩ | ⟨same, before⟩
    · rw [same] at other ⊢
      rcases List.mem_cons.mp hd with rfl | later
      · exact behind before tail
      · exact ih tail later other
    · rw [same] at other ⊢
      rcases List.mem_cons.mp hd with rfl | later
      · exact ih skipped List.mem_cons_self other
      · rcases List.mem_cons.mp later with rfl | later
        · exact behind before skipped
        · exact ih skipped (List.mem_cons_of_mem best later) other

theorem before_of_closest?
    (ascending : cs.Pairwise fun c d => c.address.value < d.address.value)
    (found : closest? a cs = some c) (hd : d ∈ cs) (other : d ≠ c) : RingView.Before a c d := by
  cases cs with
  | nil => cases hd
  | cons best cs =>
    obtain rfl := Option.some.inj found
    exact before_of_foldl_closerOf ascending hd other

/-- The link at the least distance, of those that avoid an edge, is the first such link in the list of
all links by their distance. -/
theorem closest?_avoiding (ascending : v.Ascending) (a : RingAddress) (exclude : Option EdgeId) :
    closest? a (v.avoiding exclude) =
      (v.nearest a v.size).find? fun c => some c.edge != exclude := by
  rw [RingView.nearest_size]
  cases found : closest? a (v.avoiding exclude) with
  | none =>
    have nil : v.avoiding exclude = [] := by
      cases cs : v.avoiding exclude with
      | nil => rfl
      | cons c cs =>
        rw [cs] at found
        cases found
    refine (List.find?_eq_none.mpr fun c listed fits => ?_).symm
    have among := (RingView.byDistance_perm v a).mem_iff.mp listed
    exact List.not_mem_nil (nil ▸ RingView.mem_avoiding.mpr ⟨among, bne_iff_ne.mp fits⟩)
  | some c =>
    have member := mem_of_closest? found
    obtain ⟨among, away⟩ := RingView.mem_avoiding.mp member
    have listed := (RingView.byDistance_perm v a).mem_iff.mpr among
    obtain ⟨d, first⟩ : ∃ d, (v.byDistance a).find? (fun c => some c.edge != exclude) = some d := by
      rw [← Option.isSome_iff_exists, List.find?_isSome]
      exact ⟨c, listed, bne_iff_ne.mpr away⟩
    rw [first]
    by_contra apart
    have other : c ≠ d := fun same => apart (congrArg some same)
    have fits := List.find?_some first
    have inView := (RingView.byDistance_perm v a).mem_iff.mp (List.mem_of_find?_eq_some first)
    have candidate := RingView.mem_avoiding.mpr ⟨inView, bne_iff_ne.mp fits⟩
    have one := before_of_closest? (ascending.sublist List.filter_sublist) found candidate other.symm
    have two := RingView.before_of_find? (ascending.pairwise_byDistance a) first listed
      (bne_iff_ne.mpr away) other
    exact one.asymm two

/-- What is done with a packet to a position, where one neighbour is considered: the packet goes on to
it if it is closer than this node. -/
def passTo (site : RouteSite) (p : Packet) (dest : RingAddress) : Option Connection → RouteOutcome
  | some c =>
    if dest.isCloser c.address site.here then site.forwardOr c.edge p.oneHopFurther (.stuck p)
    else ⟨[], 0, p.delivery != .exact⟩
  | none => ⟨[], 0, p.delivery != .exact⟩

theorem routeRing_onward {site : RouteSite} {incoming : Option EdgeId} {p : Packet} {dest : RingAddress}
    (left : p.hops < p.ttl) (away : dest ≠ site.here)
    (unlinked : ∀ leaf, site.table.get? .leaf dest = some leaf →
      some leaf.edge = incoming ∨ site.accepts leaf.edge = false) :
    routeRing site incoming p dest =
      passTo site p dest (closest? dest ((site.table.view .structured).avoiding incoming)) := by
  have structured : routeStructured site incoming p dest =
      passTo site p dest (closest? dest ((site.table.view .structured).avoiding incoming)) := by
    unfold routeStructured passTo
    cases closest? dest ((site.table.view .structured).avoiding incoming) <;> rfl
  have within : ¬ p.ttl < p.hops := UInt16.not_lt.mpr (UInt16.le_of_lt left)
  rw [← structured, routeRing, if_neg within, if_neg away, Packet.hasTtlLeft_iff.mpr left]
  rw [Bool.not_true, if_neg Bool.false_ne_true]
  cases here : site.table.get? .leaf dest with
  | none => rfl
  | some leaf =>
    dsimp only
    split
    case isTrue => rfl
    case isFalse other =>
      have refused := (unlinked leaf here).resolve_left other
      rw [RouteSite.forwardOr, refused, if_neg Bool.false_ne_true]

end

end Routing

namespace ConnectionTable

/-- Take a table that calls have led to. For each type the list of at most `n` links nearest to a
position holds so many distinct links, or all of them if there are fewer. They stand in the order of
their distance, and in that of their positions where this is the same; nothing that is left out is
strictly closer than anything in the list, and a shorter list begins a longer one. Whatever edge a
packet to the position comes in on, routing considers the first structured link of the full list that is
not on that edge: a packet that has hops left, is not for this node and cannot use a leaf link goes to
this neighbour, or no further. -/
theorem nearest_first (t : ConnectionTable) (reachable : t.Reachable) (a : RingAddress) :
    (∀ k n, ((t.view k).nearest a n).length = min n (t.count k) ∧ ((t.view k).nearest a n).Nodup ∧
      ((t.view k).nearest a n).Pairwise (RingView.Before a) ∧
      (∀ c ∈ (t.view k).nearest a n, c ∈ (t.view k).connections ∧
        ∀ d ∈ (t.view k).connections, d ∉ (t.view k).nearest a n →
          a.separation c.address ≤ a.separation d.address) ∧
      ∀ m ≤ n, (t.view k).nearest a m <+: (t.view k).nearest a n) ∧
    ∀ incoming : Option EdgeId,
      let first := (t.nearest a (t.count .structured)).find? fun c => some c.edge != incoming
      Routing.closest? a ((t.view .structured).avoiding incoming) = first ∧
      ∀ (site : RouteSite) (p : Packet), site.table = t → p.hops < p.ttl → a ≠ site.here →
        (∀ leaf, t.get? .leaf a = some leaf →
          some leaf.edge = incoming ∨ site.accepts leaf.edge = false) →
        Routing.routeRing site incoming p a = Routing.passTo site p a first := by
  have arranged := reachable.arranged
  refine ⟨fun k n => ?_, fun incoming => ?_⟩
  · have ordered : ((t.view k).nearest a n).Pairwise (RingView.Before a) :=
      ((arranged k).ascending.pairwise_byDistance a).sublist (List.take_sublist ..)
    refine ⟨RingView.length_nearest .., ?_, ordered, fun c hc => ⟨?_, fun d hd out => ?_⟩,
      fun m le => RingView.nearest_isPrefix _ a le⟩
    · exact ((RingView.byDistance_perm _ a).nodup_iff.mpr (arranged k).nodup).sublist
        (List.take_sublist ..)
    · exact RingView.mem_of_mem_nearest hc
    · have before := (arranged k).ascending.before_of_not_mem_nearest hc hd out
      unfold RingView.Before at before
      omega
  · have considered := Routing.closest?_avoiding (arranged .structured).ascending a incoming
    refine ⟨considered, fun site p same left away unlinked => ?_⟩
    subst same
    rw [Routing.routeRing_onward left away unlinked]
    exact congrArg _ considered

/-- Two structured links equally far from position 32 on either side, and one further away. -/
def aroundTarget : List TableCall :=
  [.add ⟨1, .floor 48, "structured.near", []⟩, .add ⟨2, .floor 16, "structured.near", []⟩,
    .add ⟨3, .floor 200, "structured.shortcut", []⟩]

/-- Of two links at the same distance the one at the smaller position comes first; a packet that came
in on it goes to the other one. -/
theorem nearest_first_aroundTarget :
    let t := after aroundTarget
    let p : Packet := ⟨0, 8, .floor 200, .ring (.floor 32), .exact, 0, []⟩
    (t.nearest (.floor 32) 2).length = 2 ∧ t.nearest (.floor 32) 1 <+: t.nearest (.floor 32) 2 ∧
    (t.nearest (.floor 32) (t.count .structured)).find? (fun c => some c.edge != none) =
      some ⟨2, .floor 16, "structured.near", []⟩ ∧
    Routing.routeRing ⟨.floor 100, t, fun _ => true⟩ (some 2) p (.floor 32) =
      .forwarded 1 p.oneHopFurther := by
  intro t p
  obtain ⟨lists, neighbor⟩ := nearest_first t ⟨_, rfl⟩ (.floor 32)
  obtain ⟨length, -, -, -, shorter⟩ := lists .structured 2
  have three : t.count .structured = 3 := by decide +kernel
  have nobody : t.get? .leaf (.floor 32) = none := by decide +kernel
  refine ⟨length.trans (by rw [three]; rfl), shorter 1 (by decide), ?_, ?_⟩
  · rw [← (neighbor none).1]
    decide +kernel
  · obtain ⟨considered, passed⟩ := neighbor (some 2)
    rw [passed ⟨.floor 100, t, fun _ => true⟩ p rfl (by decide) (by decide +kernel)
      (fun leaf here => absurd (nobody.symm.trans here) nofun), ← considered]
    decide +kernel

end ConnectionTable

end RingOverlay

import RingOverlay.Proofs.Routing.Descent
import RingOverlay.Proofs.Routing.Forwarding
import RingOverlay.Proofs.Routing.Transit
/-!
A random walk keeps a single copy of its packet. As long as edges deliver what they take, a node that
handles the packet either takes it or hands exactly one copy on, so the walk ends at exactly one node.
Where every node has two open unstructured links, it uses up all its hops.
-/

set_option autoImplicit false
set_option relaxedAutoImplicit false

namespace RingOverlay

namespace Words

variable {α : Type}

theorem index_lt {n : Nat} (some_candidate : 0 < n) (ws : Words) : (index n ws).1 < n := by
  induction ws with
  | nil => exact some_candidate
  | cons w ws ih =>
    simp only [index]
    split
    · have below : w.toNat < UInt32.size := w.toNat_lt
      exact Nat.div_lt_of_lt_mul (Nat.mul_lt_mul_of_pos_right below some_candidate)
    · exact ih

theorem exists_choose {xs : List α} (nonempty : xs ≠ []) (ws : Words) :
    ∃ x ∈ xs, (ws.choose xs).1 = some x := by
  have within := index_lt (List.length_pos_iff.mpr nonempty) ws
  refine ⟨xs[(index xs.length ws).1], List.getElem_mem within, ?_⟩
  rw [choose, if_neg (by simpa using nonempty)]
  exact List.getElem?_eq_getElem within

end Words

theorem RingView.Arranged.avoiding_ne_nil {v : RingView} {k : MainType} (arranged : v.Arranged k)
    (two : 2 ≤ v.size) (exclude : Option EdgeId) : v.avoiding exclude ≠ [] := by
  have edges := arranged.edges
  obtain ⟨c, d, rest, links⟩ : ∃ c d rest, v.connections = c :: d :: rest := by
    match links : v.connections with
    | [] | [_] => simp [size, links] at two
    | c :: d :: rest => exact ⟨c, d, rest, rfl⟩
  have apart : c.edge ≠ d.edge := by
    rw [links] at edges
    exact List.rel_of_pairwise_cons edges List.mem_cons_self
  intro none_left
  have on_edge : ∀ x ∈ v.connections, some x.edge = exclude := by
    intro x member
    by_contra other
    have kept := RingView.mem_avoiding.mpr ⟨member, other⟩
    rw [none_left] at kept
    cases kept
  have here := on_edge c (by simp [links])
  have there := on_edge d (by simp [links])
  exact apart (Option.some.inj (here.trans there.symm))

namespace Routing

/-- A node at which a walk can always go on: two unstructured links or more, all on edges that take
packets. -/
structure Wide (site : RouteSite) : Prop where
  reachable : site.table.Reachable
  two : 2 ≤ site.table.count .unstructured
  opened : ∀ c ∈ (site.table.view .unstructured).connections, site.accepts c.edge = true

section

variable {site : RouteSite} {incoming : Option EdgeId} {p : Packet}

theorem routeRandomWalk_past (past : p.ttl < p.hops) (ws : Words) :
    (routeRandomWalk site incoming p ws).1 = .dropped := by
  rw [routeRandomWalk, if_pos past]

/-- Within its hops a walk ends with the node or goes on over one edge. It ends early only at a node
that is not wide. -/
theorem routeRandomWalk_cases (within : p.hops ≤ p.ttl) (ws : Words) :
    (routeRandomWalk site incoming p ws).1 = .delivered ∧ (p.hops = p.ttl ∨ ¬ Wide site) ∨
    ∃ e, p.hops < p.ttl ∧ some e ≠ incoming ∧ site.accepts e = true ∧
      (routeRandomWalk site incoming p ws).1 = .forwarded e p.oneHopFurther := by
  have unspent : ¬ p.ttl < p.hops := UInt16.not_lt.mpr within
  unfold routeRandomWalk
  dsimp only
  rw [if_neg unspent]
  split
  case isTrue ended =>
    rw [Bool.or_eq_true, decide_eq_true_eq, decide_eq_true_eq] at ended
    refine Or.inl ⟨rfl, ended.imp_right fun narrow wide => ?_⟩
    exact absurd wide.two (Nat.not_le.mpr (Nat.lt_succ_of_le narrow))
  case isFalse more =>
    rw [Bool.or_eq_true, decide_eq_true_eq, decide_eq_true_eq, not_or] at more
    have left : p.hops < p.ttl := UInt16.lt_of_le_of_ne within more.1
    split
    case h_1 c rest picked =>
      obtain ⟨member, away⟩ :=
        RingView.mem_avoiding.mp (RingView.mem_of_random (congrArg Prod.fst picked))
      dsimp only [RouteSite.forwardOr]
      split
      case isTrue taken => exact Or.inr ⟨c.edge, left, away, taken, rfl⟩
      case isFalse closed => exact Or.inl ⟨rfl, Or.inr fun wide => closed (wide.opened c member)⟩
    case h_2 rest picked =>
      refine Or.inl ⟨rfl, Or.inr fun wide => ?_⟩
      have candidates := (wide.reachable.arranged .unstructured).avoiding_ne_nil wide.two incoming
      obtain ⟨c, -, chosen⟩ := Words.exists_choose candidates ws
      have nobody : (ws.choose ((site.table.view .unstructured).avoiding incoming)).1 = none :=
        congrArg Prod.fst picked
      rw [nobody] at chosen
      cases chosen

end

end Routing

/-- What an edge takes reaches a node at its other end. -/
def Moment.Carries {ν : Type} (m : Moment ν) : Prop :=
  ∀ n e, (m.site n).accepts e = true → ∃ far, m.far n e = some far

namespace TransitStep

variable {ν : Type}

/-- A step in which no copy is lost on its way. -/
def Carries : TransitStep ν → Prop
  | .handle _ m _ => m.Carries
  | .lose _ => False

def handlesFirst : TransitStep ν → Bool
  | .handle 0 _ _ => true
  | _ => false

end TransitStep

namespace Transit

variable {ν : Type}

/-- A walk under way: one copy, which has taken as many hops more than the first one as there were
forwards. -/
structure Walking (first : Flight ν) (t : Transit ν) (f : Flight ν) : Prop where
  flying : t.flying = [f]
  untaken : t.takers = []
  walk : f.packet.destination = .randomWalk
  ttl : f.packet.ttl = first.packet.ttl
  within : f.packet.hops ≤ f.packet.ttl
  hops : f.packet.hops.toNat = first.packet.hops.toNat + t.forwards
  handled : t.log.length = t.forwards

structure Ended (first : Flight ν) (t : Transit ν) : Prop where
  landed : t.flying = []
  taken : ∃ n, t.takers = [n]
  within : first.packet.hops.toNat + t.forwards ≤ first.packet.ttl.toNat
  early : first.packet.hops.toNat + t.forwards = first.packet.ttl.toNat ∨
    ∃ h ∈ t.log, ¬ Routing.Wide h.site
  handled : t.log.length = t.forwards + 1

section

variable {first f : Flight ν} {t : Transit ν} {m : Moment ν} {ws : Words} {x : TransitStep ν}

private theorem outcome_walk (walk : f.packet.destination = .randomWalk) : (m.handle f ws).outcome =
    (Routing.routeRandomWalk (m.site f.node) f.incoming f.packet ws).1 := by
  simp [Moment.handle, RouteSite.route, walk]

private theorem Walking.take (walking : Walking first t f) (outcome : (m.handle f ws).outcome = .delivered)
    (last : f.packet.hops = f.packet.ttl ∨ ¬ Routing.Wide (m.site f.node)) :
    Ended first (t.step (.handle 0 m ws)) := by
  have landed : (m.handle f ws).passed = [] := by
    change (m.handle f ws).outcome.copies.filterMap _ = []
    rw [outcome]
    rfl
  have hops := walking.hops
  have within := UInt16.le_iff_toNat_le.mp walking.within
  rw [walking.ttl] at within last
  rw [step_handle walking.flying]
  refine ⟨landed, ⟨f.node, ?_⟩, ?_, ?_, ?_⟩
  · rw [RingNetwork.takers_concat, walking.untaken, outcome]
    rfl
  · rw [RingNetwork.forwards_concat, outcome]
    exact hops ▸ within
  · rw [RingNetwork.forwards_concat, outcome]
    rcases last with spent | narrow
    · left
      rw [← spent]
      exact hops.symm
    · exact Or.inr ⟨m.handle f ws, by simp, narrow⟩
  · rw [RingNetwork.forwards_concat, outcome, List.length_append, walking.handled]
    rfl

private theorem Walking.pass (walking : Walking first t f) (carries : m.Carries) {e : EdgeId}
    (left : f.packet.hops < f.packet.ttl) (taken : (m.site f.node).accepts e = true)
    (outcome : (m.handle f ws).outcome = .forwarded e f.packet.oneHopFurther) :
    ∃ g, Walking first (t.step (.handle 0 m ws)) g := by
  obtain ⟨⟨other, edge⟩, far⟩ := carries f.node e taken
  have passed : (m.handle f ws).passed = [⟨other, some edge, f.packet.oneHopFurther⟩] := by
    change (m.handle f ws).outcome.copies.filterMap (m.pass f.node) = _
    rw [outcome]
    simp [RouteOutcome.forwarded, Moment.pass, far]
  have one : (m.handle f ws).outcome.copies.length = 1 := by rw [outcome]; rfl
  have further := Packet.toNat_hops_add_one left
  rw [step_handle walking.flying]
  refine ⟨_, passed, ?_, ?_, ?_, ?_, ?_, ?_⟩
  · rw [RingNetwork.takers_concat, walking.untaken, outcome]
    rfl
  · exact walking.walk
  · exact walking.ttl
  · rw [Packet.oneHopFurther_eq left, UInt16.le_iff_toNat_le]
    exact further ▸ Nat.succ_le_of_lt (UInt16.lt_iff_toNat_lt.mp left)
  · rw [RingNetwork.forwards_concat, one, Packet.oneHopFurther_eq left, further, walking.hops]
    rfl
  · rw [RingNetwork.forwards_concat, one, List.length_append, walking.handled]
    rfl

private theorem Walking.handle (walking : Walking first t f) (carries : m.Carries) (ws : Words) :
    Ended first (t.step (.handle 0 m ws)) ∨ ∃ g, Walking first (t.step (.handle 0 m ws)) g := by
  have outcome : (m.handle f ws).outcome = _ := outcome_walk walking.walk
  rcases Routing.routeRandomWalk_cases walking.within ws with ⟨routed, last⟩ | ⟨e, left, -, taken, routed⟩
  · exact Or.inl (walking.take (outcome.trans routed) last)
  · exact Or.inr (walking.pass carries left taken (outcome.trans routed))

private theorem Walking.step (walking : Walking first t f) (carried : x.Carries) :
    Ended first (t.step x) ∨
      (∃ g, Walking first (t.step x) g) ∧ (t.step x).log.length = t.log.length + [x].countP (·.handlesFirst) := by
  cases x with
  | lose => cases carried
  | handle i m ws =>
    cases i with
    | zero =>
      refine (walking.handle carried ws).imp_right fun further => ⟨further, ?_⟩
      rw [step_handle walking.flying, List.length_append]
      rfl
    | succ i =>
      rw [step_handle_of_none (by simp [walking.flying])]
      exact Or.inr ⟨⟨f, walking⟩, rfl⟩

private theorem Walking.run (walking : Walking first t f) (steps : List (TransitStep ν))
    (carried : ∀ x ∈ steps, x.Carries) :
    Ended first (t.run steps) ∨ (∃ g, Walking first (t.run steps) g) ∧
      (t.run steps).log.length = t.log.length + steps.countP (·.handlesFirst) := by
  induction steps generalizing t f with
  | nil => exact Or.inr ⟨⟨f, walking⟩, rfl⟩
  | cons x steps ih =>
    rcases walking.step (carried x List.mem_cons_self) with ended | ⟨⟨g, further⟩, length⟩
    · left
      rw [run_cons, run_of_landed ended.landed]
      exact ended
    · refine (ih further fun y member => carried y (List.mem_cons_of_mem x member)).imp_right ?_
      rintro ⟨on, later⟩
      refine ⟨on, later.trans ?_⟩
      rw [length, Nat.add_assoc, ← List.countP_append, List.singleton_append]

private theorem run_past (walk : f.packet.destination = .randomWalk) (past : f.packet.ttl < f.packet.hops)
    (one : t.flying = [f]) (steps : List (TransitStep ν)) (carried : ∀ x ∈ steps, x.Carries) :
    (t.run steps).forwards = t.forwards ∧ (t.run steps).takers = t.takers ∧
      (0 < steps.countP (·.handlesFirst) → (t.run steps).flying = []) := by
  induction steps generalizing t with
  | nil => exact ⟨rfl, rfl, fun some_step => absurd some_step (Nat.lt_irrefl 0)⟩
  | cons x steps ih =>
    have later := fun y member => carried y (List.mem_cons_of_mem x member)
    cases x with
    | lose => cases carried _ List.mem_cons_self
    | handle i m ws =>
      cases i with
      | zero =>
        have outcome : (m.handle f ws).outcome = .dropped :=
          (outcome_walk walk).trans (Routing.routeRandomWalk_past past ws)
        have landed : (m.handle f ws).passed = [] := by
          change (m.handle f ws).outcome.copies.filterMap _ = []
          rw [outcome]
          rfl
        rw [run_cons, step_handle one, run_of_landed landed, RingNetwork.forwards_concat,
          RingNetwork.takers_concat, outcome]
        exact ⟨rfl, List.append_nil _, fun _ => landed⟩
      | succ i =>
        rw [run_cons, step_handle_of_none (by simp [one])]
        exact ih one later

/-- Take a packet on a random walk, at any node and with any hops, and let nodes handle it with
whatever tables they have then, in a network that delivers what edges take. Within its hops there is
always one copy in flight or one node that took the packet, and never both; copies are sent at most as
often as there were hops left, none of them back over the edge on which the packet came; after one
handling more than that the walk has ended. If all nodes that handled it were wide, it took all its
hops. A packet past its hops is dropped. -/
theorem random_walk_ends_once (first : Flight ν) (walk : first.packet.destination = .randomWalk)
    (steps : List (TransitStep ν)) (carried : ∀ x ∈ steps, x.Carries) :
    let t := (Transit.start first).run steps
    let left := first.packet.ttl.toNat - first.packet.hops.toNat
    (first.packet.hops ≤ first.packet.ttl →
      t.flying.length + t.takers.length = 1 ∧ t.forwards ≤ left ∧
      (∀ h ∈ t.log, ∀ copy ∈ h.outcome.copies, some copy.edge ≠ h.flight.incoming) ∧
      (left < steps.countP (·.handlesFirst) → t.flying = [] ∧ ∃ n, t.takers = [n]) ∧
      (t.flying = [] → (∀ h ∈ t.log, Routing.Wide h.site) → t.forwards = left)) ∧
    (first.packet.ttl < first.packet.hops → t.forwards = 0 ∧ t.takers = [] ∧
      (0 < steps.countP (·.handlesFirst) → t.flying = [])) := by
  intro t left
  refine ⟨fun within => ?_, fun past => run_past walk past rfl steps carried⟩
  have away : ∀ h ∈ t.log, ∀ copy ∈ h.outcome.copies, some copy.edge ≠ h.flight.incoming := by
    intro h member copy sent
    rcases handled_of_mem_log steps member with before | ⟨-, m, f, ws, -, rfl⟩
    · cases before
    · exact ((m.site f.node).sentOn_route f.incoming f.packet ws copy sent).away
  have start : Walking first (.start first) first := ⟨rfl, rfl, walk, rfl, within, rfl, rfl⟩
  have reached : Ended first t ∨ (∃ f, Walking first t f) ∧
      t.log.length = 0 + steps.countP (·.handlesFirst) := start.run steps carried
  have hops_left : left = first.packet.ttl.toNat - first.packet.hops.toNat := rfl
  clear_value t left
  rcases reached with ended | ⟨⟨f, walking⟩, handled⟩
  · obtain ⟨n, taken⟩ := ended.taken
    have forwards := ended.within
    refine ⟨?_, by omega, away, fun _ => ⟨ended.landed, n, taken⟩, fun _ wide => ?_⟩
    · rw [ended.landed, taken]
      rfl
    · rcases ended.early with spent | ⟨h, member, narrow⟩
      · omega
      · exact absurd (wide h member) narrow
  · have hops := walking.hops
    have bound := UInt16.le_iff_toNat_le.mp walking.within
    rw [walking.ttl] at bound
    refine ⟨?_, by omega, away, fun enough => ?_, fun landed => ?_⟩
    · rw [walking.flying, walking.untaken]
      rfl
    · -- Every handling so far was a forward, and there are not so many.
      have all := walking.handled
      omega
    · rw [walking.flying] at landed
      cases landed

/-- Three nodes, each with unstructured links to the two others; edge `n` leads from node `n` to the
one after it. -/
def triangle : Moment (Fin 3) where
  site n :=
    { here := .floor (BitVec.ofNat 160 (16 * n))
      table := .after [.add ⟨n, .floor (BitVec.ofNat 160 (16 * around n 1)), "unstructured", []⟩,
        .add ⟨around n 2, .floor (BitVec.ofNat 160 (16 * around n 2)), "unstructured", []⟩]
      accepts := fun e => e < 3 }
  far n e := if e = n then some (around n 1, e) else if e < 3 then some (around n 2, e) else none

def stroll : Flight (Fin 3) := ⟨.last 2, some 1, ⟨1, 4, .floor 0, .randomWalk, .exact, 0, []⟩⟩

def strolling : List (TransitStep (Fin 3)) :=
  [.handle 0 triangle [], .handle 1 triangle [], .handle 0 triangle [0xffffffff], .handle 0 triangle [7],
    .handle 0 triangle []]

theorem triangle_carries : triangle.Carries := by
  intro n e taken
  simp only [triangle] at taken ⊢
  split
  · exact ⟨_, rfl⟩
  · rw [if_pos (of_decide_eq_true taken)]
    exact ⟨_, rfl⟩

theorem triangle_wide (n : Fin 3) : Routing.Wide (triangle.site n) := by
  refine ⟨⟨_, rfl⟩, ?_, ?_⟩ <;> revert n <;> decide +kernel

theorem random_walk_ends_once_stroll :
    (∃ n, ((Transit.start stroll).run strolling).takers = [n]) ∧
      ((Transit.start stroll).run strolling).forwards = 3 ∧
      ((Transit.start stroll).run strolling).handlers = [2, 0, 1, 2] := by
  have each : ∀ x ∈ strolling, ∃ i ws, x = .handle i triangle ws := by simp [strolling]
  have carried : ∀ x ∈ strolling, x.Carries := by
    intro x member
    obtain ⟨i, ws, rfl⟩ := each x member
    exact triangle_carries
  obtain ⟨-, -, -, ends, uses⟩ := (random_walk_ends_once stroll rfl strolling carried).1 (by decide)
  obtain ⟨landed, taken⟩ := ends (by decide)
  refine ⟨taken, uses landed fun h member => ?_, by decide +kernel⟩
  rcases handled_of_mem_log strolling member with before | ⟨i, m, f, ws, among, rfl⟩
  · cases before
  · obtain ⟨i, ws, same⟩ := each _ among
    cases same
    exact triangle_wide f.node

end

end Transit

end RingOverlay

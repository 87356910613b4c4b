import RingOverlay.Proofs.Routing.Flooding
/-!
The flag of a flood's first hop travels on one path. A node that handles the flagged copy hands it on
to one neighbour, so there is never a second one, and no other copy takes the flag up. Where nobody
else gets a copy, the flood is a single walk.
-/

set_option autoImplicit false
set_option relaxedAutoImplicit false

namespace RingOverlay

namespace Moment

variable {ν : Type} {m : Moment ν} {f : Flight ν} {p : Single}

theorem mem_passed {g : Flight ν} {ws : Words} (member : g ∈ (m.handle f ws).passed) :
    ∃ copy ∈ (m.handle f ws).outcome.copies, g.packet = copy.packet ∧
      ∃ e, g.incoming = some e ∧ m.far f.node copy.edge = some (g.node, e) := by
  obtain ⟨copy, sent, flown⟩ := List.mem_filterMap.mp member
  obtain ⟨⟨k, e⟩, far, rfl⟩ := Option.map_eq_some_iff.mp flown
  exact ⟨copy, sent, rfl, e, rfl, far⟩

theorem length_flagged_passed_le (m : Moment ν) (f : Flight ν) (ws : Words) :
    ((m.handle f ws).passed.filter (·.packet.flagged)).length ≤
      ((m.handle f ws).outcome.copies.filter (·.packet.flagged)).length := by
  have passed :
      (m.handle f ws).passed = (m.handle f ws).outcome.copies.filterMap (m.pass f.node) := rfl
  rw [passed]
  generalize (m.handle f ws).outcome.copies = copies
  induction copies with
  | nil => exact Nat.le_refl _
  | cons copy copies ih =>
    rw [List.filterMap_cons]
    cases flown : m.pass f.node copy with
    | none =>
      refine ih.trans ((List.sublist_cons_self copy copies).filter _).length_le
    | some g =>
      obtain ⟨far, -, rfl⟩ := Option.map_eq_some_iff.mp flown
      cases flagged : copy.packet.flagged <;> simp [flagged] <;> omega

end Moment

namespace Transit

variable {ν : Type}

def OfFlood (p : Single) (f : Flight ν) : Prop := ∃ flag, f.packet.destination = .flood ⟨flag, p⟩

def flagged (t : Transit ν) : List (Flight ν) := t.flights.filter (·.packet.flagged)

structure OneFlag (p : Single) (t : Transit ν) : Prop where
  floods : ∀ f ∈ t.flights, OfFlood p f
  one : (t.flying.filter (·.packet.flagged)).length ≤ 1
  path : List.IsChain Flight.Passes t.flagged

section

variable {first f g : Flight ν} {t : Transit ν} {m : Moment ν} {ws : Words} {p : Single}
  {x : TransitStep ν} {rest : List (Flight ν)}

theorem outcome_flood {flood : FloodAddress} (dest : f.packet.destination = .flood flood) :
    (m.handle f ws).outcome =
      (Routing.routeFlood (m.site f.node) f.incoming f.packet flood ws).1 := by
  simp [Moment.handle, RouteSite.route, dest]

theorem OfFlood.passed (flood : OfFlood p f) (member : g ∈ (m.handle f ws).passed) :
    OfFlood p g := by
  obtain ⟨flag, dest⟩ := flood
  obtain ⟨copy, sent, packet, -⟩ := Moment.mem_passed member
  have sentOn := (m.site f.node).sentOn_route f.incoming f.packet ws copy sent
  rw [OfFlood, packet, sentOn.packet]
  simp only [Routing.copyDestination, dest]
  split
  · exact ⟨false, rfl⟩
  · exact ⟨flag, rfl⟩

private theorem OfFlood.flagged_passed (flood : OfFlood p f) (m : Moment ν) (ws : Words) :
    (m.handle f ws).passed.filter (·.packet.flagged) = [] ∨
      ∃ g, (m.handle f ws).passed.filter (·.packet.flagged) = [g] ∧ f.Passes g := by
  obtain ⟨flag, dest⟩ := flood
  have few : ((m.handle f ws).passed.filter (·.packet.flagged)).length ≤ 1 := by
    refine (m.length_flagged_passed_le f ws).trans ?_
    rw [outcome_flood dest]
    exact Routing.length_flagged_le_one
  rcases List.eq_nil_or_concat' ((m.handle f ws).passed.filter (·.packet.flagged)) with
    none_left | ⟨before, g, onwards⟩
  · exact Or.inl none_left
  · rw [onwards, List.length_append, List.length_singleton] at few
    have alone : before = [] := List.eq_nil_of_length_eq_zero (by omega)
    rw [alone, List.nil_append] at onwards
    have member : g ∈ (m.handle f ws).passed :=
      (List.mem_filter.mp (onwards ▸ List.mem_singleton_self g)).1
    exact Or.inr ⟨g, onwards, m, ws, member⟩

private theorem OfFlood.unflagged (flood : OfFlood p f) (plain : f.packet.flagged = false) :
    ∀ copy ∈ (m.handle f ws).outcome.copies, copy.packet.flagged = false := by
  obtain ⟨flag, dest⟩ := flood
  have cleared : flag = false := by simpa [Packet.flagged, dest] using plain
  rw [outcome_flood dest]
  exact Routing.unflagged_routeFlood dest cleared

private theorem OfFlood.unflagged_passed (flood : OfFlood p f) (plain : f.packet.flagged = false) :
    (m.handle f ws).passed.filter (·.packet.flagged) = [] := by
  have none_sent : (m.handle f ws).outcome.copies.filter (·.packet.flagged) = [] := by
    rw [List.filter_eq_nil_iff]
    intro copy member
    rw [flood.unflagged plain copy member]
    exact Bool.false_ne_true
  have fewer := m.length_flagged_passed_le f ws
  rw [none_sent] at fewer
  exact List.eq_nil_of_length_eq_zero (Nat.le_zero.mp fewer)

private theorem oneFlag_start (dest : first.packet.destination = .flood ⟨true, p⟩) :
    OneFlag p (.start first) where
  floods f member := by
    obtain rfl := List.mem_singleton.mp member
    exact ⟨true, dest⟩
  one := List.length_filter_le ..
  path := by
    have carried : first.packet.flagged = true := by simp [Packet.flagged, dest]
    simp [flagged, flights, start, carried]

private theorem OneFlag.taken (oneFlag : OneFlag p t) (taken : t.flying.Perm (f :: rest)) :
    f.packet.flagged = true ∧ rest.filter (·.packet.flagged) = [] ∧
        List.IsChain Flight.Passes ((t.log.map (·.flight)).filter (·.packet.flagged) ++ [f]) ∨
      f.packet.flagged = false ∧ (rest.filter (·.packet.flagged)).length ≤ 1 ∧
        List.IsChain Flight.Passes
          ((t.log.map (·.flight)).filter (·.packet.flagged) ++ rest.filter (·.packet.flagged)) := by
  have one := oneFlag.one
  have path := oneFlag.path
  have same := taken.filter (·.packet.flagged)
  rw [flagged, flights, List.filter_append] at path
  generalize t.flying.filter (·.packet.flagged) = flags at one path same
  cases carried : f.packet.flagged with
  | true =>
    left
    rw [List.filter_cons, if_pos carried] at same
    have alone : rest.filter (·.packet.flagged) = [] := by
      have counted := same.length_eq
      rw [List.length_cons] at counted
      exact List.eq_nil_of_length_eq_zero (by omega)
    rw [alone, List.perm_singleton] at same
    exact ⟨rfl, alone, same ▸ path⟩
  | false =>
    right
    rw [List.filter_cons, if_neg (by simp [carried])] at same
    have still : flags = rest.filter (·.packet.flagged) := by
      rcases flags with _ | ⟨g, more⟩
      · exact same.nil_eq
      · have alone : more = [] := List.eq_nil_of_length_eq_zero (by simpa using one)
        subst alone
        exact (List.perm_singleton.mp same.symm).symm
    exact ⟨rfl, still ▸ one, still ▸ path⟩

private theorem OneFlag.step (oneFlag : OneFlag p t) (x : TransitStep ν) : OneFlag p (t.step x) := by
  have floods := forall_flights_step (x := x) oneFlag.floods fun _ m ws _ f flood g member =>
    flood.passed member
  suffices kept : ((t.step x).flying.filter (·.packet.flagged)).length ≤ 1 ∧
      List.IsChain Flight.Passes (t.step x).flagged from ⟨floods, kept.1, kept.2⟩
  rcases t.step_cases x with idle | ⟨f, rest, taken, ⟨lost, -⟩ | ⟨m, ws, -, handled⟩⟩
  · rw [idle]
    exact ⟨oneFlag.one, oneFlag.path⟩
  · rw [lost, flagged, flights, List.filter_append]
    rcases oneFlag.taken taken with ⟨-, none_left, path⟩ | ⟨-, one, path⟩
    · rw [none_left, List.append_nil]
      exact ⟨Nat.zero_le 1, path.left_of_append⟩
    · exact ⟨one, path⟩
  · have flood : OfFlood p f :=
      oneFlag.floods f (List.mem_append_right _ (taken.mem_iff.mpr List.mem_cons_self))
    have flew : (m.handle f ws).flight = f := rfl
    simp only [handled, flagged, flights, List.map_append, List.map_cons, List.map_nil, flew,
      List.filter_append]
    rcases oneFlag.taken taken with ⟨carried, none_left, path⟩ | ⟨plain, one, path⟩
    · have alone : [f].filter (·.packet.flagged) = [f] := by simp [carried]
      rw [alone, none_left, List.nil_append]
      rcases flood.flagged_passed m ws with ended | ⟨g, onwards, passes⟩
      · rw [ended, List.append_nil]
        exact ⟨Nat.zero_le 1, path⟩
      · rw [onwards]
        exact ⟨Nat.le_refl 1, path.append (.singleton g) (by simpa using passes)⟩
    · have nobody : [f].filter (·.packet.flagged) = [] := by simp [plain]
      rw [nobody, flood.unflagged_passed plain, List.append_nil, List.append_nil]
      exact ⟨one, path⟩

private theorem OneFlag.run (oneFlag : OneFlag p t) (steps : List (TransitStep ν)) :
    OneFlag p (t.run steps) := by
  induction steps generalizing t with
  | nil => exact oneFlag
  | cons x steps ih => exact ih (oneFlag.step x)

/-- A flood that only the neighbour picked at random ever gets: a single copy, with no more hops left
than the sends so far have not used up. -/
structure SingleWalk (first : Flight ν) (t : Transit ν) : Prop where
  lone : t.flying.length ≤ 1
  sends : t.forwards ≤ first.packet.ttl.toNat - first.packet.hops.toNat
  left : ∀ f ∈ t.flying, t.forwards + (f.packet.ttl.toNat - f.packet.hops.toNat) ≤
    first.packet.ttl.toNat - first.packet.hops.toNat

private theorem SingleWalk.step (walk : SingleWalk first t) (floods : ∀ f ∈ t.flights, OfFlood p f)
    (zero : p.low = 0) (x : TransitStep ν) : SingleWalk first (t.step x) := by
  rcases t.step_cases x with idle | ⟨f, rest, taken, step⟩
  · rw [idle]
    exact walk
  have flying : f ∈ t.flying := taken.mem_iff.mpr List.mem_cons_self
  have left := walk.left f flying
  have alone : rest = [] := by
    have few := walk.lone
    rw [taken.length_eq, List.length_cons] at few
    exact List.eq_nil_of_length_eq_zero (by omega)
  rcases step with ⟨lost, -⟩ | ⟨m, ws, -, handled⟩
  · rw [lost, alone]
    exact ⟨Nat.zero_le 1, walk.sends, by simp⟩
  obtain ⟨flag, dest⟩ := floods f (List.mem_append_right _ flying)
  have few : (m.handle f ws).outcome.copies.length ≤ 1 := by
    rw [outcome_flood dest]
    exact Routing.length_routeFlood_of_low zero
  have flown : (m.handle f ws).passed.length ≤ (m.handle f ws).outcome.copies.length :=
    List.length_filterMap_le ..
  have onwards : t.forwards + (m.handle f ws).outcome.copies.length ≤
      first.packet.ttl.toNat - first.packet.hops.toNat := by
    rcases eq_or_ne (m.handle f ws).outcome.copies [] with none_sent | some_copy
    · rw [none_sent]
      exact walk.sends
    · obtain ⟨copy, sent⟩ := List.exists_mem_of_ne_nil _ some_copy
      have below := UInt16.lt_iff_toNat_lt.mp
        ((m.site f.node).sentOn_route f.incoming f.packet ws copy sent).hopsLeft
      omega
  rw [handled, alone, List.nil_append]
  refine ⟨flown.trans few, ?_, ?_⟩ <;> rw [RingNetwork.forwards_concat]
  · exact onwards
  · intro g passed
    obtain ⟨below, hops, ttl⟩ := Flight.Passes.spends_hop ⟨m, ws, passed⟩
    rw [UInt16.lt_iff_toNat_lt] at below
    rw [hops, ttl]
    omega

private theorem SingleWalk.run (walk : SingleWalk first t) (floods : ∀ f ∈ t.flights, OfFlood p f)
    (zero : p.low = 0) (steps : List (TransitStep ν)) : SingleWalk first (t.run steps) := by
  induction steps generalizing t with
  | nil => exact walk
  | cons x steps ih =>
    refine ih (walk.step floods zero x) (forall_flights_step floods ?_)
    exact fun _ m ws _ f flood g member => flood.passed member

/-- Inject a flood whose packet has the flag of the first hop, and let nodes handle the copies in any
order, with whatever tables and open edges they have then; copies may get lost. At every moment at
most one copy in flight has the flag, and the flagged copies that were handled form one path. A node
with two unstructured links that handles the flagged copy with hops left offers it, flag and all, to
exactly one neighbour that is not the sender; a copy without the flag gives rise to none with it. If
the probability is zero, there is never more than one copy, and it is sent on no more often than it
has hops left. -/
theorem flag_travels_on_one_path (first : Flight ν) {p : Single}
    (dest : first.packet.destination = .flood ⟨true, p⟩) (steps : List (TransitStep ν)) :
    let t := (Transit.start first).run steps
    (t.flying.filter (·.packet.flagged)).length ≤ 1 ∧
    List.IsChain Flight.Passes t.flagged ∧
    (∀ f ∈ t.flying, ∃ flag, f.packet.destination = .flood ⟨flag, p⟩ ∧
      ∀ (m : Moment ν) (ws : Words),
        let site := m.site f.node
        let offers := Routing.floodOffers site f.incoming f.packet ⟨flag, p⟩ ws
        (m.handle f ws).outcome.copies = offers.filter (site.accepts ·.edge) ∧
        (flag = true → site.table.Reachable → 2 ≤ site.table.count .unstructured →
          f.packet.hops < f.packet.ttl →
          ∃ c ∈ (site.table.view .unstructured).connections, some c.edge ≠ f.incoming ∧
            offers.filter (·.packet.flagged) = [⟨c.edge, f.packet.oneHopFurther⟩]) ∧
        (flag = false → ∀ copy ∈ offers, copy.packet.flagged = false)) ∧
    (p.eq .zero = true → t.flying.length ≤ 1 ∧
      t.forwards ≤ first.packet.ttl.toNat - first.packet.hops.toNat) := by
  intro t
  have start : OneFlag p (.start first) := oneFlag_start dest
  have oneFlag : OneFlag p t := start.run steps
  refine ⟨oneFlag.one, oneFlag.path, fun f flying => ?_, fun zero => ?_⟩
  · obtain ⟨flag, dest⟩ := oneFlag.floods f (List.mem_append_right _ flying)
    refine ⟨flag, dest, fun m ws => ⟨?_, fun flagged reachable two left => ?_, fun plain => ?_⟩⟩
    · rw [outcome_flood dest]
      exact Routing.copies_routeFlood ..
    · exact Routing.flagged_floodOffers reachable two left dest flagged
    · exact Routing.unflagged_routeFlood dest plain
  · have walk : SingleWalk first (.start first) := by
      refine ⟨Nat.le_refl 1, Nat.zero_le _, fun f flying => ?_⟩
      obtain rfl := List.mem_singleton.mp flying
      exact (Nat.zero_add _).le
    have walked := walk.run start.floods (Single.low_of_eq_zero zero) steps
    exact ⟨walked.lone, walked.sends⟩

/-- The packet of a flood at a node of `triangle`, which only one random neighbour at a time is to
get. -/
def drifter : Flight (Fin 3) := ⟨.last 2, none, ⟨0, 2, .floor 0, .flood ⟨true, .zero⟩, .exact, 0, []⟩⟩

theorem flag_travels_drifter :
    let t := (Transit.start drifter).run [.handle 0 triangle [], .handle 0 triangle [0xffffffff]]
    t.handlers = [2, 0] ∧ t.flying.map (·.node) = [1] ∧ t.flagged.length = 3 ∧
      (t.flying.filter (·.packet.flagged)).length ≤ 1 ∧ t.forwards ≤ 2 := by
  obtain ⟨one, -, -, walk⟩ := flag_travels_on_one_path drifter rfl
    [.handle 0 triangle [], .handle 0 triangle [0xffffffff]]
  exact ⟨by decide +kernel, by decide +kernel, by decide +kernel, one, (walk (by decide)).2⟩

end

end Transit

end RingOverlay

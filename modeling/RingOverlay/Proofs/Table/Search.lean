import Mathlib.Data.List.Basic
import RingOverlay.Table.View
/-!
Looking up a position by halving. In a view whose positions ascend strictly, the search finds the
link at a position whenever there is one, and otherwise the only index at which a link to that
position can stand.
-/

set_option autoImplicit false
set_option relaxedAutoImplicit false

namespace RingOverlay

namespace RingAddress

theorem compare_eq_iff {a b : RingAddress} : a.compare b = .eq ↔ a = b := by
  unfold compare
  rw [Nat.compare_eq_eq]
  exact ⟨value_injective, congrArg value⟩

theorem compare_lt_iff {a b : RingAddress} : a.compare b = .lt ↔ a.value < b.value :=
  Nat.compare_eq_lt

theorem compare_gt_iff {a b : RingAddress} : a.compare b = .gt ↔ b.value < a.value :=
  Nat.compare_eq_gt

end RingAddress

namespace RingView

def Ascending (v : RingView) : Prop :=
  v.connections.Pairwise fun c d => c.address.value < d.address.value

theorem ascending_empty : empty.Ascending := List.Pairwise.nil

section

variable {v : RingView} {a : RingAddress} {c d : Connection} {i j : Nat}

theorem Ascending.value_lt (ascending : v.Ascending) (hc : v.connections[i]? = some c)
    (hd : v.connections[j]? = some d) (h : i < j) : c.address.value < d.address.value := by
  obtain ⟨hi, rfl⟩ := List.getElem?_eq_some_iff.mp hc
  obtain ⟨hj, rfl⟩ := List.getElem?_eq_some_iff.mp hd
  exact List.pairwise_iff_getElem.mp ascending i j hi hj h

theorem Ascending.index_unique (ascending : v.Ascending) (hc : v.connections[i]? = some c)
    (hd : v.connections[j]? = some d) (h : c.address = d.address) : i = j := by
  have value : c.address.value = d.address.value := congrArg RingAddress.value h
  rcases Nat.lt_trichotomy i j with lt | eq | gt
  · have := ascending.value_lt hc hd lt
    omega
  · exact eq
  · have := ascending.value_lt hd hc gt
    omega

end

/-- What the halving search keeps: all links from the end of the run on stand beyond the position,
and the first one of the run does not, unless the run begins the list. -/
private structure Bracket (cs : List Connection) (a : RingAddress) (base stop : Nat) : Prop where
  beyond : ∀ j c, cs[j]? = some c → stop ≤ j → a.value < c.address.value
  below : base = 0 ∨ ∃ c, cs[base]? = some c ∧ c.address.value ≤ a.value

private theorem bracket_narrow {v : RingView} (ascending : v.Ascending) (a : RingAddress)
    (base size : Nat) (nonempty : 0 < size) (inside : base + size ≤ v.size)
    (bracket : Bracket v.connections a base (base + size)) :
    narrow v.connections a base size < v.size ∧
      Bracket v.connections a (narrow v.connections a base size)
        (narrow v.connections a base size + 1) := by
  fun_induction narrow v.connections a base size with
  | case1 base size small =>
    have one : size = 1 := by omega
    subst one
    exact ⟨by omega, bracket⟩
  | case2 base size large side ih =>
    -- The middle link stands beyond the position, and with it all that follow.
    obtain ⟨middle, at_middle, beyond⟩ := (Option.any_eq_true _ _).mp side
    simp only [RingAddress.lt, decide_eq_true_eq] at beyond
    refine ih (by omega) (by omega) ⟨?_, bracket.below⟩
    intro j c hc hj
    rcases Nat.lt_or_ge (base + size / 2) j with after | upto
    · exact Nat.lt_trans beyond (ascending.value_lt at_middle hc after)
    · have same : j = base + size / 2 := by omega
      rw [same, at_middle] at hc
      exact Option.some.inj hc ▸ beyond
  | case3 base size large side ih =>
    have inside_middle : base + size / 2 < v.connections.length := by
      have : v.size = v.connections.length := rfl
      omega
    have at_middle := List.getElem?_eq_getElem inside_middle
    rw [at_middle] at side
    simp only [Option.any_some, RingAddress.lt, decide_eq_true_eq, Nat.not_lt] at side
    refine ih (by omega) (by omega) ⟨?_, Or.inr ⟨_, at_middle, side⟩⟩
    have stop : base + size / 2 + (size - size / 2) = base + size := by omega
    rw [stop]
    exact bracket.beyond

private theorem bracket_search {v : RingView} (ascending : v.Ascending) (a : RingAddress)
    (nonempty : 0 < v.size) :
    narrow v.connections a 0 v.size < v.size ∧
      Bracket v.connections a (narrow v.connections a 0 v.size)
        (narrow v.connections a 0 v.size + 1) := by
  apply bracket_narrow ascending a 0 v.size nonempty (by omega)
  refine ⟨?_, Or.inl rfl⟩
  intro j c hc hj
  have : j < v.connections.length := (List.getElem?_eq_some_iff.mp hc).1
  have : v.size = v.connections.length := rfl
  omega

section

variable {v : RingView} {a : RingAddress} {c : Connection} {i : Nat}

theorem position_found (h : v.position a = .found i) :
    ∃ c, v.connections[i]? = some c ∧ c.address = a := by
  simp only [position] at h
  split at h
  case h_1 c hc =>
    split at h
    case h_1 => cases h
    case h_2 equal =>
      cases h
      exact ⟨c, hc, RingAddress.compare_eq_iff.mp equal⟩
    case h_3 => cases h
  case h_2 => cases h

theorem position_insertAt (ascending : v.Ascending) (h : v.position a = .insertAt i) :
    i ≤ v.size ∧ ∀ j c, v.connections[j]? = some c →
      (j < i → c.address.value < a.value) ∧ (i ≤ j → a.value < c.address.value) := by
  simp only [position] at h
  split at h
  case h_1 c hc =>
    have inside : narrow v.connections a 0 v.size < v.size := (List.getElem?_eq_some_iff.mp hc).1
    obtain ⟨-, bracket⟩ := bracket_search ascending a (by omega)
    generalize narrow v.connections a 0 v.size = last at *
    split at h
    case h_1 less =>
      have less := RingAddress.compare_lt_iff.mp less
      cases h
      refine ⟨inside, fun j d hd => ⟨fun hj => ?_, fun hj => bracket.beyond j d hd hj⟩⟩
      rcases Nat.lt_succ_iff_lt_or_eq.mp hj with lt | same
      · exact Nat.lt_trans (ascending.value_lt hd hc lt) less
      · rw [same, hc] at hd
        exact Option.some.inj hd ▸ less
    case h_2 => cases h
    case h_3 greater =>
      have greater := RingAddress.compare_gt_iff.mp greater
      -- The first link of the run stands beyond the position, so the run begins the list.
      have first : last = 0 := by
        rcases bracket.below with zero | ⟨d, hd, le⟩
        · exact zero
        · rw [hc] at hd
          have := Option.some.inj hd ▸ le
          omega
      cases h
      refine ⟨by omega, fun j d hd => ⟨fun hj => by omega, fun hj => ?_⟩⟩
      rcases Nat.eq_or_lt_of_le hj with same | after
      · rw [← same, hc] at hd
        exact Option.some.inj hd ▸ greater
      · exact bracket.beyond j d hd after
  case h_2 absent =>
    -- Only the empty view has no link at the end of the search.
    have none_left : v.size = 0 := by
      by_contra nonempty
      have inside := (bracket_search ascending a (by omega)).1
      rw [List.getElem?_eq_none_iff] at absent
      exact absurd inside (Nat.not_lt.mpr absent)
    have nil : v.connections = [] := List.length_eq_zero_iff.mp none_left
    cases h
    simp [nil, none_left, narrow]

theorem position_eq_found_iff (ascending : v.Ascending) :
    v.position a = .found i ↔ ∃ c, v.connections[i]? = some c ∧ c.address = a := by
  refine ⟨position_found, ?_⟩
  rintro ⟨c, hc, rfl⟩
  cases h : v.position c.address with
  | found j =>
    obtain ⟨d, hd, same⟩ := position_found h
    rw [ascending.index_unique hd hc same]
  | insertAt j =>
    have apart := (position_insertAt ascending h).2 i c hc
    rcases Nat.lt_or_ge i j with lt | ge
    · exact absurd (apart.1 lt) (Nat.lt_irrefl _)
    · exact absurd (apart.2 ge) (Nat.lt_irrefl _)

theorem mem_of_find? (h : v.find? a = some c) : c ∈ v.connections ∧ c.address = a := by
  unfold find? at h
  split at h
  case h_1 i hi =>
    obtain ⟨d, hd, same⟩ := position_found hi
    rw [h] at hd
    cases hd
    exact ⟨List.mem_of_getElem? h, same⟩
  case h_2 => cases h

theorem find?_eq_some_iff (ascending : v.Ascending) :
    v.find? a = some c ↔ c ∈ v.connections ∧ c.address = a := by
  refine ⟨mem_of_find?, ?_⟩
  rintro ⟨member, same⟩
  obtain ⟨i, hi⟩ := List.mem_iff_getElem?.mp member
  unfold find?
  rw [(position_eq_found_iff ascending).mpr ⟨c, hi, same⟩]
  exact hi

theorem ne_of_position_insertAt (ascending : v.Ascending) (h : v.position a = .insertAt i)
    (member : c ∈ v.connections) : c.address ≠ a := by
  intro same
  obtain ⟨j, hj⟩ := List.mem_iff_getElem?.mp member
  have := (position_eq_found_iff ascending).mpr ⟨c, hj, same⟩
  rw [h] at this
  cases this

end

end RingView

end RingOverlay

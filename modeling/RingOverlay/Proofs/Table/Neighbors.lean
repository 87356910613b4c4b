import RingOverlay.Proofs.Address.Circle
import RingOverlay.Proofs.Table.Search
import RingOverlay.Routing.Directional
/-!
The neighbours of a position in a view. Counting a link to the position itself as a full turn away,
the next link in a direction is the one that the walk in that direction meets first.
-/

set_option autoImplicit false
set_option relaxedAutoImplicit false

namespace RingOverlay

namespace RingAddress

/-- How far one walks left from `a` until one meets `b`; whoever starts there walks a full turn. -/
def leftTurnTo (a b : RingAddress) : Nat := if b = a then 2 ^ 160 else a.leftDistanceTo b

/-- How far one walks right from `a` until one meets `b`; whoever starts there walks a full turn. -/
def rightTurnTo (a b : RingAddress) : Nat := if b = a then 2 ^ 160 else a.rightDistanceTo b

theorem rightTurnTo_eq (a b : RingAddress) : a.rightTurnTo b = b.leftTurnTo a := by
  unfold rightTurnTo leftTurnTo
  rw [rightDistanceTo_eq]
  simp only [eq_comm]

def turnTo : Bearing → RingAddress → RingAddress → Nat
  | .left, a, b => a.leftTurnTo b
  | .right, a, b => b.leftTurnTo a

theorem leftTurnTo_eq (a b : RingAddress) : a.leftTurnTo b =
    if a.value < b.value then b.value - a.value else 2 ^ 160 + b.value - a.value := by
  unfold leftTurnTo
  by_cases same : b = a
  · rw [if_pos same, same, if_neg (Nat.lt_irrefl _), Nat.add_sub_cancel]
  · have apart : a.value ≠ b.value := fun h => same (value_injective h.symm)
    rw [if_neg same, leftDistanceTo_eq_value]
    simp only [Nat.lt_iff_le_and_ne, ne_eq, apart, not_false_eq_true, and_true]

theorem turnTo_of_ne (d : Bearing) {a b : RingAddress} (apart : b ≠ a) : turnTo d a b =
    match d with
    | .left => a.leftDistanceTo b
    | .right => a.rightDistanceTo b := by
  cases d with
  | left => exact if_neg apart
  | right => exact if_neg (Ne.symm apart)

theorem turnTo_self (d : Bearing) (a : RingAddress) : turnTo d a a = 2 ^ 160 := by
  cases d <;> exact if_pos rfl

theorem turnTo_le (d : Bearing) (a b : RingAddress) : turnTo d a b ≤ 2 ^ 160 := by
  by_cases same : b = a
  · rw [same, turnTo_self]
  · rw [turnTo_of_ne d same]
    cases d <;> exact Nat.le_of_lt (leftDistanceTo_lt ..)

theorem turnTo_injective {d : Bearing} {a b c : RingAddress} (h : turnTo d a b = turnTo d a c) : b = c := by
  have ha := a.value_lt
  have hb := b.value_lt
  have hc := c.value_lt
  apply value_injective
  cases d <;>
  · simp only [turnTo, leftTurnTo_eq] at h
    split_ifs at h <;> omega

end RingAddress

namespace RingView

section

variable {v : RingView} {a : RingAddress} {c : Connection} {i : Nat}

theorem mem_of_get? {i : Int} (h : v.get? i = some c) : c ∈ v.connections := List.mem_of_getElem? h

theorem get?_of_lt (within : i < v.size) : v.get? (i : Int) = v.connections[i]? := by
  unfold get?
  rw [Int.emod_eq_of_lt (Int.natCast_nonneg i) (Int.ofNat_lt.mpr within), Int.toNat_natCast]

theorem get?_size (v : RingView) : v.get? (v.size : Int) = v.connections[0]? := by
  unfold get?
  rw [Int.emod_self, Int.toNat_zero]

theorem get?_neg_one (v : RingView) : v.get? (-1) = v.connections[v.size - 1]? := by
  unfold get?
  rcases Nat.eq_zero_or_pos v.size with none_left | some_left
  · have nil : v.connections = [] := List.length_eq_zero_iff.mp none_left
    simp [nil]
  · have last : (-1 : Int) % v.size = v.size - 1 := by
      rw [← Int.add_emod_right, Int.emod_eq_of_lt (by omega) (by omega)]
      omega
    rw [last]
    congr 1
    omega

theorem Ascending.exists_leftOf (ascending : v.Ascending) (a : RingAddress) :
    ∃ i ≤ v.size, v.leftOf a = v.get? (i : Int) ∧ ∀ j c, v.connections[j]? = some c →
      (j < i → c.address.value ≤ a.value) ∧ (i ≤ j → a.value < c.address.value) := by
  unfold leftOf
  cases h : v.position a with
  | found i =>
    obtain ⟨c, hc, rfl⟩ := position_found h
    refine ⟨i + 1, (List.getElem?_eq_some_iff.mp hc).1, rfl, fun j d hd => ⟨fun before => ?_, fun after => ?_⟩⟩
    · rcases Nat.lt_succ_iff_lt_or_eq.mp before with lt | rfl
      · exact Nat.le_of_lt (ascending.value_lt hd hc lt)
      · cases hd.symm.trans hc
        exact Nat.le_refl _
    · exact ascending.value_lt hc hd after
  | insertAt i =>
    obtain ⟨within, parted⟩ := position_insertAt ascending h
    exact ⟨i, within, rfl, fun j d hd =>
      ⟨fun before => Nat.le_of_lt ((parted j d hd).1 before), (parted j d hd).2⟩⟩

theorem Ascending.exists_rightOf (ascending : v.Ascending) (a : RingAddress) :
    ∃ i ≤ v.size, v.rightOf a = v.get? ((i : Int) - 1) ∧ ∀ j c, v.connections[j]? = some c →
      (j < i → c.address.value < a.value) ∧ (i ≤ j → a.value ≤ c.address.value) := by
  unfold rightOf
  cases h : v.position a with
  | found i =>
    obtain ⟨c, hc, rfl⟩ := position_found h
    refine ⟨i, Nat.le_of_lt (List.getElem?_eq_some_iff.mp hc).1, rfl, fun j d hd =>
      ⟨ascending.value_lt hd hc, fun after => ?_⟩⟩
    rcases Nat.lt_or_eq_of_le after with lt | rfl
    · exact Nat.le_of_lt (ascending.value_lt hc hd lt)
    · cases hd.symm.trans hc
      exact Nat.le_refl _
  | insertAt i =>
    obtain ⟨within, parted⟩ := position_insertAt ascending h
    exact ⟨i, within, rfl, fun j d hd =>
      ⟨(parted j d hd).1, fun after => Nat.le_of_lt ((parted j d hd).2 after)⟩⟩

theorem Ascending.leftOf_least (ascending : v.Ascending) (h : v.leftOf a = some c) {e : Connection}
    (member : e ∈ v.connections) : a.leftTurnTo c.address ≤ a.leftTurnTo e.address := by
  obtain ⟨i, within, neighbor, parted⟩ := ascending.exists_leftOf a
  obtain ⟨j, hj⟩ := List.mem_iff_getElem?.mp member
  rw [neighbor] at h
  have ordered : ∀ {k}, v.connections[k]? = some c → k ≤ j → c.address.value ≤ e.address.value := by
    intro k hk before
    rcases Nat.lt_or_eq_of_le before with lt | rfl
    · exact Nat.le_of_lt (ascending.value_lt hk hj lt)
    · cases hk.symm.trans hj
      exact Nat.le_refl _
  have hc := c.address.value_lt
  rw [RingAddress.leftTurnTo_eq, RingAddress.leftTurnTo_eq]
  rcases Nat.lt_or_eq_of_le within with inside | rfl
  · rw [get?_of_lt inside] at h
    rw [if_pos ((parted i c h).2 (Nat.le_refl i))]
    rcases Nat.lt_or_ge j i with before | after
    · have near := (parted j e hj).1 before
      rw [if_neg (Nat.not_lt.mpr near)]
      omega
    · have near := ordered h after
      rw [if_pos ((parted j e hj).2 after)]
      omega
  · -- No link stands beyond the position, so the walk meets the first of all.
    rw [get?_size] at h
    have first := (parted 0 c h).1 (List.getElem?_eq_some_iff.mp h).1
    have near := ordered h (Nat.zero_le j)
    have last := (parted j e hj).1 (List.getElem?_eq_some_iff.mp hj).1
    rw [if_neg (Nat.not_lt.mpr first), if_neg (Nat.not_lt.mpr last)]
    omega

theorem Ascending.rightOf_least (ascending : v.Ascending) (h : v.rightOf a = some c) {e : Connection}
    (member : e ∈ v.connections) : c.address.leftTurnTo a ≤ e.address.leftTurnTo a := by
  obtain ⟨i, within, neighbor, parted⟩ := ascending.exists_rightOf a
  obtain ⟨j, hj⟩ := List.mem_iff_getElem?.mp member
  rw [neighbor] at h
  have ordered : ∀ {k}, v.connections[k]? = some c → j ≤ k → e.address.value ≤ c.address.value := by
    intro k hk before
    rcases Nat.lt_or_eq_of_le before with lt | rfl
    · exact Nat.le_of_lt (ascending.value_lt hj hk lt)
    · cases hk.symm.trans hj
      exact Nat.le_refl _
  have he := e.address.value_lt
  rw [RingAddress.leftTurnTo_eq, RingAddress.leftTurnTo_eq]
  cases i with
  | succ i =>
    rw [Int.natCast_succ, Int.add_sub_cancel, get?_of_lt within] at h
    rw [if_pos ((parted i c h).1 (Nat.lt_succ_self i))]
    rcases Nat.lt_or_ge j (i + 1) with before | after
    · have near := ordered h (Nat.le_of_lt_succ before)
      rw [if_pos ((parted j e hj).1 before)]
      omega
    · have near := (parted j e hj).2 after
      rw [if_neg (Nat.not_lt.mpr near)]
      omega
  | zero =>
    -- No link stands before the position, so the walk meets the last of all.
    rw [Int.natCast_zero, Int.zero_sub, get?_neg_one] at h
    have last := (parted _ c h).2 (Nat.zero_le _)
    have inside : j < v.size := (List.getElem?_eq_some_iff.mp hj).1
    have near := ordered h (Nat.le_sub_one_of_lt inside)
    have first := (parted j e hj).2 (Nat.zero_le j)
    rw [if_neg (Nat.not_lt.mpr last), if_neg (Nat.not_lt.mpr first)]
    omega

theorem mem_of_towards {d : Bearing} (h : v.towards d a = some c) : c ∈ v.connections := by
  cases d with
  | left =>
    simp only [towards, leftOf] at h
    split at h <;> exact mem_of_get? h
  | right =>
    simp only [towards, rightOf] at h
    split at h <;> exact mem_of_get? h

theorem Ascending.towards_least (ascending : v.Ascending) {d : Bearing} (h : v.towards d a = some c)
    {e : Connection} (member : e ∈ v.connections) :
    RingAddress.turnTo d a c.address ≤ RingAddress.turnTo d a e.address := by
  cases d with
  | left => exact ascending.leftOf_least h member
  | right => exact ascending.rightOf_least h member

theorem get?_add_mul (v : RingView) (i k : Int) : v.get? (i + k * v.size) = v.get? i := by
  unfold get?
  rw [Int.add_mul_emod_self_right]

theorem exists_get? (nonempty : v.connections ≠ []) (i : Int) : ∃ c, v.get? i = some c := by
  have some_left : 0 < v.size := List.length_pos_iff.mpr nonempty
  have low := Int.emod_nonneg i (b := v.size) (by omega)
  have high := Int.emod_lt_of_pos i (b := v.size) (by omega)
  have inside : (i % v.size).toNat < v.connections.length := by
    have : v.size = v.connections.length := rfl
    omega
  exact ⟨_, List.getElem?_eq_getElem inside⟩

theorem exists_towards (nonempty : v.connections ≠ []) (d : Bearing) (a : RingAddress) :
    ∃ c, v.towards d a = some c := by
  cases d with
  | left =>
    simp only [towards, leftOf]
    split <;> exact exists_get? nonempty _
  | right =>
    simp only [towards, rightOf]
    split <;> exact exists_get? nonempty _

theorem towards_eq_none_iff {d : Bearing} : v.towards d a = none ↔ v.connections = [] := by
  constructor
  · intro nobody
    by_contra nonempty
    obtain ⟨c, stands⟩ := exists_towards nonempty d a
    rw [nobody] at stands
    cases stands
  · intro nil
    cases stands : v.towards d a with
    | none => rfl
    | some c =>
      have among := mem_of_towards stands
      rw [nil] at among
      cases among

theorem Ascending.eq_of_address (ascending : v.Ascending) {c d : Connection}
    (hc : c ∈ v.connections) (hd : d ∈ v.connections) (same : c.address = d.address) : c = d :=
  Option.some.inj (((find?_eq_some_iff ascending).mpr ⟨hc, same⟩).symm.trans
    ((find?_eq_some_iff ascending).mpr ⟨hd, rfl⟩))

theorem Ascending.towards_eq_some_iff (ascending : v.Ascending) {d : Bearing} :
    v.towards d a = some c ↔ c ∈ v.connections ∧ ∀ e ∈ v.connections, e ≠ c →
      RingAddress.turnTo d a c.address < RingAddress.turnTo d a e.address := by
  constructor
  · intro stands
    have among := mem_of_towards stands
    refine ⟨among, fun e member other => ?_⟩
    refine Nat.lt_of_le_of_ne (ascending.towards_least stands member) fun level => other ?_
    exact ascending.eq_of_address member among (RingAddress.turnTo_injective level).symm
  · rintro ⟨among, first⟩
    obtain ⟨b, stands⟩ := exists_towards (List.ne_nil_of_mem among) d a
    have least := ascending.towards_least stands among
    by_cases same : b = c
    · rw [← same]
      exact stands
    · exact absurd (first b (mem_of_towards stands) same) (Nat.not_lt.mpr least)

end

end RingView

end RingOverlay

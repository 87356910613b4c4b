import Mathlib.GroupTheory.Perm.Cycle.Concrete
import Mathlib.Tactic.Ring
import RingOverlay.Proofs.Address.Betweenness
import RingOverlay.Proofs.Table.Arrangement
import RingOverlay.Proofs.Table.Neighbors
/-!
A view as a ring. Of all links the left neighbour of a position is the one that a walk to the left meets
first, and nothing lies on the way to it; the right neighbour is found by a walk to the right. From
neighbour to neighbour one comes round all links, in one direction as in the other.
-/

set_option autoImplicit false
set_option relaxedAutoImplicit false

namespace RingOverlay

namespace RingAddress

variable {a b c : RingAddress}

theorem leftTurnTo_lt_of_between (h : b.isBetweenFromLeft a c = true) :
    a.leftTurnTo b < a.leftTurnTo c := by
  rw [isBetweenFromLeft, Bool.and_eq_true, bne_iff_ne, decide_eq_true_eq] at h
  obtain ⟨apart, before⟩ := h
  have hb : b ≠ a := by
    rintro rfl
    exact apart (by rw [leftDistanceTo, BitVec.sub_self]; rfl)
  rw [leftTurnTo, if_neg hb, leftTurnTo]
  split
  · exact leftDistanceTo_lt a b
  · exact before

theorem rightTurnTo_lt_of_between (h : b.isBetweenFromRight a c = true) :
    a.rightTurnTo b < a.rightTurnTo c := by
  rw [isBetweenFromRight, Bool.and_eq_true, bne_iff_ne, decide_eq_true_eq] at h
  obtain ⟨apart, before⟩ := h
  have hb : b ≠ a := by
    rintro rfl
    exact apart (by rw [rightDistanceTo, BitVec.sub_self]; rfl)
  rw [rightTurnTo, if_neg hb, rightTurnTo]
  split
  · exact leftDistanceTo_lt b a
  · exact before

end RingAddress

namespace RingView

section

variable {v : RingView} {k : MainType} {a : RingAddress} {c d e : Connection} {i : Nat}

theorem get?_natCast (v : RingView) (i : Nat) : v.get? (i : Int) = v.connections[i % v.size]? := by
  rw [get?, ← Int.natCast_mod, Int.toNat_natCast]

theorem Ascending.leftOf_index (ascending : v.Ascending) (here : v.connections[i]? = some c) :
    v.leftOf c.address = v.get? (i + 1 : Int) := by
  rw [leftOf, (position_eq_found_iff ascending).mpr ⟨c, here, rfl⟩]

theorem Ascending.rightOf_index (ascending : v.Ascending) (here : v.connections[i]? = some c) :
    v.rightOf c.address = v.get? (i - 1 : Int) := by
  rw [rightOf, (position_eq_found_iff ascending).mpr ⟨c, here, rfl⟩]

theorem formPerm_index (nodup : v.connections.Nodup) (here : v.connections[i]? = some c) :
    v.connections[(i + 1) % v.size]? = some (v.connections.formPerm c) := by
  obtain ⟨inside, rfl⟩ := List.getElem?_eq_some_iff.mp here
  rw [List.formPerm_apply_getElem _ nodup i inside]
  exact List.getElem?_eq_getElem _

theorem Arranged.leftOf_eq (arranged : v.Arranged k) (hc : c ∈ v.connections) :
    v.leftOf c.address = some (v.connections.formPerm c) := by
  obtain ⟨i, here⟩ := List.mem_iff_getElem?.mp hc
  rw [arranged.ascending.leftOf_index here, ← Int.natCast_succ, get?_natCast]
  exact formPerm_index arranged.nodup here

theorem Arranged.rightOf_eq (arranged : v.Arranged k) (hc : c ∈ v.connections) :
    v.rightOf c.address = some (v.connections.formPerm.symm c) := by
  let d := v.connections.formPerm.symm c
  have step : v.connections.formPerm d = c := Equiv.apply_symm_apply _ c
  obtain ⟨j, there⟩ := List.mem_iff_getElem?.mp (List.formPerm_mem_iff_mem.mp (step ▸ hc))
  have here : v.connections[(j + 1) % v.size]? = some c :=
    (formPerm_index arranged.nodup there).trans (congrArg some step)
  -- One index down from the index of `c` is that of `d`, but for whole turns.
  have turns : (((j + 1) % v.size : Nat) : Int) - 1 = j + -((j + 1 : Int) / v.size) * v.size := by
    rw [Int.natCast_mod, Int.emod_def]
    push_cast
    ring
  have inside : j < v.size := (List.getElem?_eq_some_iff.mp there).1
  rw [arranged.ascending.rightOf_index here, turns, get?_add_mul, get?_of_lt inside]
  exact there

end

end RingView

namespace ConnectionTable

/-- Take the links of a type in a table that calls have led to. A position has a left neighbour unless
there is no link; it is the one link that a walk to the left meets first, where a link to the position
itself is met after a full turn, so no link lies on the way to it. The same holds on the right. Among
the links themselves the steps to the left neighbour are one cycle through all of them, and the steps
to the right neighbour undo them. Whole turns make no difference to an index. -/
theorem neighbors_first_met (t : ConnectionTable) (reachable : t.Reachable) (k : MainType) :
    let v := t.view k
    (∀ a, (v.leftOf a = none ↔ v.isEmpty = true) ∧ (v.rightOf a = none ↔ v.isEmpty = true)) ∧
    (∀ a c, v.leftOf a = some c ↔ c ∈ v.connections ∧ ∀ e ∈ v.connections, e ≠ c →
      a.leftTurnTo c.address < a.leftTurnTo e.address) ∧
    (∀ a c, v.rightOf a = some c ↔ c ∈ v.connections ∧ ∀ e ∈ v.connections, e ≠ c →
      a.rightTurnTo c.address < a.rightTurnTo e.address) ∧
    (∀ a c, ∀ e ∈ v.connections,
      (v.leftOf a = some c → e.address.isBetweenFromLeft a c.address = false) ∧
      (v.rightOf a = some c → e.address.isBetweenFromRight a c.address = false)) ∧
    (v.connections.formPerm.IsCycleOn {c | c ∈ v.connections} ∧ ∀ c ∈ v.connections,
      v.leftOf c.address = some (v.connections.formPerm c) ∧
      v.rightOf c.address = some (v.connections.formPerm.symm c)) ∧
    (∀ i turns : Int, v.get? (i + turns * v.size) = v.get? i) := by
  intro v
  have arranged : v.Arranged k := reachable.arranged k
  have ascending := arranged.ascending
  have nobody (d : Bearing) (a : RingAddress) : v.towards d a = none ↔ v.isEmpty = true := by
    rw [RingView.towards_eq_none_iff, RingView.isEmpty, List.isEmpty_iff]
  have onLeft (a : RingAddress) (c : Connection) : v.leftOf a = some c ↔ c ∈ v.connections ∧
      ∀ e ∈ v.connections, e ≠ c → a.leftTurnTo c.address < a.leftTurnTo e.address :=
    ascending.towards_eq_some_iff (d := .left)
  have onRight (a : RingAddress) (c : Connection) : v.rightOf a = some c ↔ c ∈ v.connections ∧
      ∀ e ∈ v.connections, e ≠ c → a.rightTurnTo c.address < a.rightTurnTo e.address := by
    simp only [RingAddress.rightTurnTo_eq]
    exact ascending.towards_eq_some_iff (d := .right)
  refine ⟨fun a => ⟨nobody .left a, nobody .right a⟩, onLeft, onRight, fun a c e member => ⟨?_, ?_⟩,
    ⟨arranged.nodup.isCycleOn_formPerm, fun c member =>
      ⟨arranged.leftOf_eq member, arranged.rightOf_eq member⟩⟩, v.get?_add_mul⟩
  · intro next
    have least := ascending.leftOf_least next member
    rw [← Bool.not_eq_true]
    exact fun between => Nat.not_lt.mpr least (RingAddress.leftTurnTo_lt_of_between between)
  · intro next
    have least := ascending.rightOf_least next member
    rw [← RingAddress.rightTurnTo_eq, ← RingAddress.rightTurnTo_eq] at least
    rw [← Bool.not_eq_true]
    exact fun between => Nat.not_lt.mpr least (RingAddress.rightTurnTo_lt_of_between between)

def threeOnRing : List TableCall :=
  [.add ⟨1, .floor 64, "structured.near", []⟩, .add ⟨2, .floor 16, "structured.near", []⟩,
    .add ⟨3, .floor 96, "structured.shortcut", []⟩, .add ⟨4, .floor 80, "leaf", []⟩]

theorem neighbors_first_met_three :
    let v := (after threeOnRing).view .structured
    v.leftOf (.floor 96) = some ⟨2, .floor 16, "structured.near", []⟩ ∧
    v.rightOf (.floor 4) = some ⟨3, .floor 96, "structured.shortcut", []⟩ ∧
    v.leftOf (.floor 80) = some ⟨3, .floor 96, "structured.shortcut", []⟩ ∧
    v.connections.formPerm.SameCycle ⟨1, .floor 64, "structured.near", []⟩
      ⟨2, .floor 16, "structured.near", []⟩ ∧
    v.get? (-1) = v.get? 5 := by
  obtain ⟨-, onLeft, onRight, -, ⟨cycle, -⟩, turns⟩ :=
    neighbors_first_met (after threeOnRing) ⟨_, rfl⟩ .structured
  refine ⟨(onLeft _ _).mpr ?_, (onRight _ _).mpr ?_, (onLeft _ _).mpr ?_, cycle.2 ?_ ?_, ?_⟩
  · decide +kernel
  · decide +kernel
  · decide +kernel
  · change _ ∈ ((after threeOnRing).view .structured).connections
    decide +kernel
  · change _ ∈ ((after threeOnRing).view .structured).connections
    decide +kernel
  · have size : ((after threeOnRing).view .structured).size = 3 := by decide +kernel
    rw [← turns (-1) 2, size]
    rfl

end ConnectionTable

end RingOverlay

import Mathlib.Data.List.Nodup
import RingOverlay.Overlord.Managed
/-!
The states of pinned peers after each operation on them, and that no peer is pinned twice.
-/

set_option autoImplicit false
set_option relaxedAutoImplicit false

namespace RingOverlay.ManagedOverlord

variable {o : ManagedOverlord} {a b : RingAddress}

def Distinct (o : ManagedOverlord) : Prop := (o.pins.map (·.1)).Nodup

private theorem keys_mapStates (o : ManagedOverlord) (f : RingAddress → PinState → PinState) :
    (o.mapStates f).pins.map (·.1) = o.pins.map (·.1) := by
  simp [mapStates, Function.comp_def]

theorem Distinct.mapStates (distinct : o.Distinct) (f : RingAddress → PinState → PinState) :
    (o.mapStates f).Distinct := by
  rw [Distinct, keys_mapStates]
  exact distinct

theorem state?_mapStates (o : ManagedOverlord) (f : RingAddress → PinState → PinState)
    (a : RingAddress) : (o.mapStates f).state? a = (o.state? a).map (f a) := by
  unfold state? mapStates
  induction o.pins with
  | nil => rfl
  | cons p pins ih =>
    obtain ⟨b, s⟩ := p
    rw [List.map_cons, List.lookup_cons, List.lookup_cons]
    by_cases same : a = b
    · subst same
      simp
    · rw [beq_false_of_ne same]
      exact ih

theorem state?_setState_self (o : ManagedOverlord) (a : RingAddress) (s : PinState) :
    (o.setState a s).state? a = (o.state? a).map fun _ => s := by
  rw [setState, state?_mapStates]
  simp

theorem state?_setState_of_ne (other : b ≠ a) (s : PinState) :
    (o.setState a s).state? b = o.state? b := by
  rw [setState, state?_mapStates]
  simp [other]

theorem Distinct.pin (distinct : o.Distinct) (here a : RingAddress) (connected : Bool) :
    (o.pin here a connected).2.Distinct := by
  unfold ManagedOverlord.pin
  split
  · exact distinct
  · rename_i fresh
    have absent : a ∉ o.pins.map (·.1) := by
      intro member
      obtain ⟨⟨b, s⟩, found, rfl⟩ := List.mem_map.mp member
      have unpinned : o.state? b = none := by
        simp only [Bool.or_eq_true, decide_eq_true_eq, not_or, isPinned, Bool.not_eq_true,
          Option.isSome_eq_false_iff, Option.isNone_iff_eq_none] at fresh
        exact fresh.2
      have apart := List.lookup_eq_none_iff.mp unpinned _ found
      simp at apart
    have moved : (insertPin a (.ofConnected connected) o.pins).Perm
        ((a, .ofConnected connected) :: o.pins) := by
      have whole := List.takeWhile_append_dropWhile (p := (·.1.lt a)) (l := o.pins)
      conv_rhs => rw [← whole]
      exact List.perm_middle
    rw [Distinct, (moved.map (·.1)).nodup_iff]
    exact List.nodup_cons.mpr ⟨absent, distinct⟩

theorem state?_pin_of_ne (other : b ≠ a) (here : RingAddress) (connected : Bool) :
    (o.pin here a connected).2.state? b = o.state? b := by
  unfold ManagedOverlord.pin
  split
  · rfl
  · have apart : (b == a) = false := beq_false_of_ne other
    simp only [state?, insertPin]
    rw [List.lookup_append, List.lookup_cons, apart]
    conv_rhs => rw [← List.takeWhile_append_dropWhile (p := (·.1.lt a)) (l := o.pins)]
    rw [List.lookup_append]

theorem Distinct.unpin (distinct : o.Distinct) (a : RingAddress) : (o.unpin a).2.Distinct :=
  distinct.sublist (List.filter_sublist.map _)

theorem state?_unpin_of_ne (other : b ≠ a) : (o.unpin a).2.state? b = o.state? b := by
  simp only [ManagedOverlord.unpin, state?]
  induction o.pins with
  | nil => rfl
  | cons p pins ih =>
    obtain ⟨c, s⟩ := p
    by_cases removed : c = a
    · subst removed
      have apart : (b == c) = false := beq_false_of_ne other
      rw [List.filter_cons_of_neg (by simp), List.lookup_cons, apart]
      exact ih
    · rw [List.filter_cons_of_pos (by simpa using removed), List.lookup_cons, List.lookup_cons, ih]

theorem finish_of_none (unpinned : o.state? a = none) (connected : Bool) :
    o.finish a connected = (false, o) := by
  rw [finish, unpinned]

theorem finish_of_some {s : PinState} (pinned : o.state? a = some s) (connected : Bool) :
    o.finish a connected =
      (!connected && (if connected then PinState.on else s.afterFailure).isAttempt,
        o.setState a (if connected then .on else s.afterFailure)) := by
  rw [finish, pinned]

theorem Distinct.finish (distinct : o.Distinct) (a : RingAddress) (connected : Bool) :
    (o.finish a connected).2.Distinct := by
  cases stands : o.state? a with
  | none =>
    rw [finish_of_none stands]
    exact distinct
  | some s =>
    rw [finish_of_some stands]
    exact distinct.mapStates _

theorem state?_finish_of_ne (other : b ≠ a) (connected : Bool) :
    (o.finish a connected).2.state? b = o.state? b := by
  cases stands : o.state? a with
  | none => rw [finish_of_none stands]
  | some s =>
    rw [finish_of_some stands]
    exact state?_setState_of_ne other _

theorem Distinct.nodup_idle (distinct : o.Distinct) (busy : RingAddress → Bool) :
    (o.idle busy).Nodup :=
  distinct.sublist (List.filter_sublist.map _)

theorem state?_mapStates_eq_none_iff (f : RingAddress → PinState → PinState) :
    (o.mapStates f).state? a = none ↔ o.state? a = none := by
  rw [state?_mapStates, Option.map_eq_none_iff]

theorem state?_unpin_self (o : ManagedOverlord) (a : RingAddress) : (o.unpin a).2.state? a = none := by
  refine List.lookup_eq_none_iff.mpr fun p member => ?_
  have other : p.1 ≠ a := bne_iff_ne.mp (List.mem_filter.mp member).2
  exact bne_iff_ne.mpr other.symm

theorem state?_finish_eq_none (connected : Bool) (unpinned : o.state? b = none) :
    (o.finish a connected).2.state? b = none := by
  cases stands : o.state? a with
  | none =>
    rw [finish_of_none stands]
    exact unpinned
  | some s =>
    rw [finish_of_some stands]
    exact (state?_mapStates_eq_none_iff _).mpr unpinned

theorem state?_unpin_eq_none (a : RingAddress) (unpinned : o.state? b = none) :
    (o.unpin a).2.state? b = none := by
  by_cases same : b = a
  · rw [same]
    exact state?_unpin_self o a
  · rw [state?_unpin_of_ne same]
    exact unpinned

theorem state?_pin_ne_none {here : RingAddress} {connected : Bool}
    (started : (o.pin here a connected).1 = true) : (o.pin here a connected).2.state? a ≠ none := by
  unfold ManagedOverlord.pin at started ⊢
  split at started
  · cases started
  · rename_i fresh
    rw [if_neg fresh]
    intro unpinned
    have member : (a, PinState.ofConnected connected) ∈
        insertPin a (.ofConnected connected) o.pins := by simp [insertPin]
    have apart := List.lookup_eq_none_iff.mp unpinned _ member
    simp at apart

theorem state?_ne_none_of_mem_idle {busy : RingAddress → Bool} (member : a ∈ o.idle busy) :
    o.state? a ≠ none := by
  obtain ⟨p, kept, rfl⟩ := List.mem_map.mp member
  intro unpinned
  have apart := List.lookup_eq_none_iff.mp unpinned p (List.mem_of_mem_filter kept)
  simp at apart

theorem state?_ne_none_of_wantsRetry (wanted : o.wantsRetry a = true) : o.state? a ≠ none := by
  intro unpinned
  simp [wantsRetry, unpinned] at wanted

end RingOverlay.ManagedOverlord

import Mathlib.Data.List.Perm.Basic
import RingOverlay.Routing.Network
/-!
Runs of a network: which step handles what, and that nothing happens any more once no copy is in
flight.
-/

set_option autoImplicit false
set_option relaxedAutoImplicit false

namespace RingOverlay

/-- The node so many places after another one, where the nodes are counted round. -/
def around {m : Nat} (n : Fin m) (k : Nat) : Fin m := ⟨(n + k) % m, Nat.mod_lt _ n.pos⟩

namespace Transit

variable {ν : Type} {t : Transit ν} {f : Flight ν} {h : Handling ν} {i : Nat}

theorem step_handle (one : t.flying = [f]) (m : Moment ν) (ws : Words) :
    t.step (.handle 0 m ws) = ⟨(m.handle f ws).passed, t.log ++ [m.handle f ws]⟩ := by
  simp [step, one]

theorem step_handle_of_none (nobody : t.flying[i]? = none) (m : Moment ν) (ws : Words) :
    t.step (.handle i m ws) = t := by
  simp only [step, nobody]

theorem step_cases (t : Transit ν) (x : TransitStep ν) :
    t.step x = t ∨ ∃ f rest, t.flying.Perm (f :: rest) ∧
      (t.step x = ⟨rest, t.log⟩ ∧ (∃ i, x = .lose i) ∨
        ∃ m ws, (∃ i, x = .handle i m ws) ∧
          t.step x = ⟨rest ++ (m.handle f ws).passed, t.log ++ [m.handle f ws]⟩) := by
  have taken (i : Nat) (f : Flight ν) (found : t.flying[i]? = some f) :
      t.flying.Perm (f :: t.flying.eraseIdx i) := by
    obtain ⟨within, rfl⟩ := List.getElem?_eq_some_iff.mp found
    exact (List.getElem_cons_eraseIdx_perm within).symm
  cases x with
  | lose i =>
    cases found : t.flying[i]? with
    | none =>
      left
      rw [step, List.eraseIdx_of_length_le (List.getElem?_eq_none_iff.mp found)]
    | some f => exact Or.inr ⟨f, _, taken i f found, Or.inl ⟨rfl, i, rfl⟩⟩
  | handle i m ws =>
    cases found : t.flying[i]? with
    | none => exact Or.inl (step_handle_of_none found m ws)
    | some f =>
      refine Or.inr ⟨f, _, taken i f found, Or.inr ⟨m, ws, ⟨i, rfl⟩, ?_⟩⟩
      simp only [step, found]

def flights (t : Transit ν) : List (Flight ν) := t.log.map (·.flight) ++ t.flying

/-- What each copy hands on to the copies that it gives rise to still holds of every copy after a step. -/
theorem forall_flights_step {P : Flight ν → Prop} {x : TransitStep ν} (holds : ∀ f ∈ t.flights, P f)
    (passed : ∀ i m ws, x = .handle i m ws → ∀ f, P f → ∀ g ∈ (m.handle f ws).passed, P g) :
    ∀ f ∈ (t.step x).flights, P f := by
  rcases t.step_cases x with idle | ⟨f, rest, taken, ⟨lost, -⟩ | ⟨m, ws, ⟨i, rfl⟩, handled⟩⟩
  · rw [idle]
    exact holds
  all_goals
    simp only [flights, List.mem_append, taken.mem_iff, List.mem_cons] at holds
  · rw [lost]
    intro g member
    exact holds g ((List.mem_append.mp member).imp_right Or.inr)
  · rw [handled]
    intro g member
    simp only [flights, List.map_append, List.mem_append, List.map_cons, List.map_nil,
      List.mem_singleton] at member
    rcases member with (before | rfl) | (still | onwards)
    · exact holds g (Or.inl before)
    · exact holds _ (Or.inr (Or.inl rfl))
    · exact holds g (Or.inr (Or.inr still))
    · exact passed i m ws rfl f (holds f (Or.inr (Or.inl rfl))) g onwards

theorem mem_flights_handle {m : Moment ν} {ws : Words} (member : f ∈ t.flights) :
    f ∈ (t.step (.handle i m ws)).flights := by
  rcases t.step_cases (.handle i m ws) with
    idle | ⟨g, rest, taken, ⟨-, j, ⟨⟩⟩ | ⟨n, vs, ⟨j, ⟨⟩⟩, handled⟩⟩
  · rw [idle]
    exact member
  · rw [handled]
    simp only [flights, List.mem_append, taken.mem_iff, List.mem_cons, List.map_append, List.map_cons,
      List.map_nil, List.not_mem_nil, or_false] at member ⊢
    rcases member with before | rfl | still
    · exact Or.inl (Or.inl before)
    · exact Or.inl (Or.inr rfl)
    · exact Or.inr (Or.inl still)

theorem run_cons (t : Transit ν) (x : TransitStep ν) (steps : List (TransitStep ν)) :
    t.run (x :: steps) = (t.step x).run steps := rfl

theorem run_of_landed (landed : t.flying = []) (steps : List (TransitStep ν)) : t.run steps = t := by
  induction steps with
  | nil => rfl
  | cons x steps ih =>
    have rests : t.step x = t := by
      cases x with
      | handle i m ws => exact step_handle_of_none (by simp [landed]) m ws
      | lose i =>
        change { t with flying := t.flying.eraseIdx i } = t
        rw [List.eraseIdx_of_length_le (by simp [landed])]
    rw [run_cons, rests, ih]

theorem handled_of_mem_log (steps : List (TransitStep ν)) (member : h ∈ (t.run steps).log) :
    h ∈ t.log ∨ ∃ i m f ws, .handle i m ws ∈ steps ∧ h = Moment.handle m f ws := by
  induction steps generalizing t with
  | nil => exact Or.inl member
  | cons x steps ih =>
    rcases ih member with before | ⟨i, m, f, ws, later, handled⟩
    · cases x with
      | lose i => exact Or.inl before
      | handle i m ws =>
        simp only [step] at before
        split at before
        case h_1 f found =>
          refine (List.mem_append.mp before).imp_right fun now => ?_
          exact ⟨i, m, f, ws, List.mem_cons_self, List.mem_singleton.mp now⟩
        case h_2 => exact Or.inl before
    · exact Or.inr ⟨i, m, f, ws, List.mem_cons_of_mem x later, handled⟩

end Transit

end RingOverlay

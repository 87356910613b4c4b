import RingOverlay.Config.Loading
import RingOverlay.Proofs.Config.Given
import RingOverlay.Proofs.Config.Overrides
/-!
Numbers in the environment, and what a file holds. The number of leaf links that a loaded configuration
asks for fits 64 bits, whether it comes from the environment, the file or the defaults; and the
environment can ask for every number that does.
-/

set_option autoImplicit false
set_option relaxedAutoImplicit false

namespace RingOverlay

/-- A text without the plus sign that may stand before a number. -/
def withoutPlus : List Char → List Char
  | '+' :: ds => ds
  | ds => ds

section

variable {bound n : Nat} {s : String} {ds : List Char}

theorem withoutPlus_of_digits (digits : ∀ c ∈ ds, c.isDigit = true) : withoutPlus ds = ds := by
  unfold withoutPlus
  split
  case h_1 => exact absurd (digits '+' List.mem_cons_self) (by decide)
  case h_2 => rfl

theorem readBounded_eq_some_iff : readBounded bound s = some n ↔
    withoutPlus s.toList ≠ [] ∧ (∀ c ∈ withoutPlus s.toList, c.isDigit = true) ∧
      Nat.ofDigitChars 10 (withoutPlus s.toList) 0 = n ∧ n < bound := by
  have read : readBounded bound s =
      if !(withoutPlus s.toList).isEmpty && (withoutPlus s.toList).all Char.isDigit &&
        decide (Nat.ofDigitChars 10 (withoutPlus s.toList) 0 < bound)
      then some (Nat.ofDigitChars 10 (withoutPlus s.toList) 0) else none := rfl
  rw [read, Option.ite_none_right_eq_some, Bool.and_eq_true, Bool.and_eq_true, Bool.not_eq_true',
    List.isEmpty_eq_false_iff, List.all_eq_true, decide_eq_true_eq, Option.some.injEq]
  constructor
  · rintro ⟨⟨⟨some_left, digits⟩, below⟩, rfl⟩
    exact ⟨some_left, digits, rfl, below⟩
  · rintro ⟨some_left, digits, rfl, below⟩
    exact ⟨⟨⟨some_left, digits⟩, below⟩, rfl⟩

theorem readBounded_lt (h : readBounded bound s = some n) : n < bound :=
  (readBounded_eq_some_iff.mp h).2.2.2

theorem readBounded_toString (within : n < bound) : readBounded bound (toString n) = some n := by
  have digits : ∀ c ∈ Nat.toDigits 10 n, c.isDigit = true :=
    fun c => Nat.isDigit_of_mem_toDigits (by omega) (by omega)
  rw [readBounded_eq_some_iff, Nat.toString_eq_ofList_toDigits, String.toList_ofList,
    withoutPlus_of_digits digits]
  exact ⟨Nat.toDigits_ne_nil, digits, Nat.ofDigitChars_toDigits (by omega) (by omega), within⟩

end

/-- What is parsed from a file. A missing file is as good as an empty one. -/
def ConfigFile.parsed? : ConfigFile → Option Value
  | .absent => some (.record [])
  | .directory => none
  | .content bytes => (Utf8.decode? bytes).bind Toml.parse?

namespace OverlayConfig

def leafVariable : String := "RINGMESH_LEAF__DESIRED"

section

variable {c cfg : OverlayConfig} {env : Environment} {file : ConfigFile}

theorem desired_lt_of_read {v : Value} (read : (OverlayConfig.shape true).read v = .ok c) :
    c.leaf.desired < UInt64.size := by
  obtain rfl := builtBy.eq_of_read read
  exact given_lt (by decide : 2 < 2 ^ 64)

theorem ofFile_eq_ok_iff : ofFile file = .ok c ↔
    ∃ v, file.parsed? = some v ∧ (OverlayConfig.shape true).read v = .ok c := by
  cases file with
  | absent =>
    have defaults : (OverlayConfig.shape true).read (.record []) = .ok {} := rfl
    simp [ofFile, ConfigFile.parsed?, defaults]
  | directory => simp [ofFile, ConfigFile.parsed?]
  | content bytes =>
    cases decoded : Utf8.decode? bytes with
    | none => simp [ofFile, ConfigFile.parsed?, decoded]
    | some s =>
      cases parsed : Toml.parse? s with
      | none => simp [ofFile, ofText?, ConfigFile.parsed?, decoded, parsed]
      | some v =>
        cases shaped : (OverlayConfig.shape true).read v <;>
          simp [ofFile, ofText?, ConfigFile.parsed?, decoded, parsed, shaped, Except.toOption]

theorem desired_lt_of_ofFile (read : ofFile file = .ok c) : c.leaf.desired < UInt64.size := by
  obtain ⟨v, -, shaped⟩ := ofFile_eq_ok_iff.mp read
  exact desired_lt_of_read shaped

/-- The environment decides how many leaf links are desired, if it names a number below `2 ^ 64`. -/
theorem override_desired (c : OverlayConfig) (env : Environment) : (c.override env).leaf.desired =
    ((env.lookup leafVariable).bind (readBounded UInt64.size)).getD c.leaf.desired := by
  rw [override_eq_applyTo]
  rfl

theorem load_desired_lt (loaded : load file env = .ok cfg) : cfg.leaf.desired < UInt64.size := by
  obtain ⟨c, read, rfl⟩ := Except.map_eq_ok_iff.mp loaded
  rw [override_desired]
  cases named : (env.lookup leafVariable).bind (readBounded UInt64.size) with
  | none => exact desired_lt_of_ofFile read
  | some n =>
    obtain ⟨value, -, number⟩ := Option.bind_eq_some_iff.mp named
    exact readBounded_lt number

theorem exists_load_desired {n : Nat} (within : n < UInt64.size) :
    ∃ cfg, load .absent [(leafVariable, toString n)] = .ok cfg ∧ cfg.leaf.desired = n := by
  refine ⟨_, rfl, ?_⟩
  rw [override_desired, List.lookup_cons_self, Option.bind_some, readBounded_toString within]
  rfl

end

end OverlayConfig

end RingOverlay

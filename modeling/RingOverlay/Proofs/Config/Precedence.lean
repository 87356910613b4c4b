import RingOverlay.Proofs.Config.Loading
import RingOverlay.Proofs.Config.Pieces
/-!
Where each field of a loaded configuration comes from: from the environment, if it overrides the field;
else from the file, if it gives the field; else from the defaults.
-/

set_option autoImplicit false
set_option relaxedAutoImplicit false

namespace RingOverlay

namespace OverlayConfig

/-- The configuration that the environment, what is parsed from a file and the defaults make together. -/
def byPrecedence (env : Environment) (v : Value) : OverlayConfig :=
  (Overrides.ofEnvironment env).applyTo (ofGiven (v.given? (forms.map (·.1))))

theorem read_overridden_iff (v : Value) (env : Environment) (cfg : OverlayConfig) :
    (·.override env) <$> (OverlayConfig.shape true).read v = .ok cfg ↔
      v.IsTable forms ∧ cfg = byPrecedence env v := by
  simp only [Except.map_eq_ok_iff, builtBy.read_eq_ok_iff, override_eq_applyTo]
  constructor
  · rintro ⟨_, ⟨typed, rfl⟩, rfl⟩
    exact ⟨typed, rfl⟩
  · rintro ⟨typed, rfl⟩
    exact ⟨_, ⟨typed, rfl⟩, rfl⟩

/-- What is parsed becomes a configuration exactly if it is a table of sections whose fields have the
forms that are asked for; and a configuration is loaded exactly if the file, or an empty one in its place
where there is none, is parsed to such a table. Each field is then what the environment says of it; else
what the file gives for it; else its default. A port or a number of leaf links counts if it is written in
decimal digits, perhaps after a plus sign, and fits its width. A list consists of the pieces between the
commas, trimmed and in their order, without those of which nothing is left, so that two lists with a
comma between them give the pieces of the one and then those of the other. To override a configuration
again changes nothing. -/
theorem fields_by_precedence :
    (∀ v env cfg, (·.override env) <$> (OverlayConfig.shape true).read v = .ok cfg ↔
      v.IsTable forms ∧ cfg = byPrecedence env v) ∧
    (∀ file env cfg, load file env = .ok cfg ↔
      ∃ v, file.parsed? = some v ∧ v.IsTable forms ∧ cfg = byPrecedence env v) ∧
    (∀ bound s n, readBounded bound s = some n ↔
      withoutPlus s.toList ≠ [] ∧ (∀ c ∈ withoutPlus s.toList, c.isDigit = true) ∧
        Nat.ofDigitChars 10 (withoutPlus s.toList) 0 = n ∧ n < bound) ∧
    (∀ s items, splitList s = items ↔ Lists s items) ∧
    (∀ a b, splitList (a ++ "," ++ b) = splitList a ++ splitList b) ∧
    (∀ (c : OverlayConfig) env, (c.override env).override env = c.override env) := by
  refine ⟨read_overridden_iff, fun file env cfg => ?_, fun _ _ _ => readBounded_eq_some_iff,
    fun _ _ => lists_iff.symm, splitList_append, fun c env => ?_⟩
  · have loaded : load file env = .ok cfg ↔ ∃ c, ofFile file = .ok c ∧ c.override env = cfg :=
      Except.map_eq_ok_iff
    simp only [loaded, ofFile_eq_ok_iff, ← read_overridden_iff, Except.map_eq_ok_iff]
    constructor
    · rintro ⟨c, ⟨v, parsed, read⟩, overridden⟩
      exact ⟨v, parsed, c, read, overridden⟩
    · rintro ⟨v, parsed, c, read, overridden⟩
      exact ⟨c, ⟨v, parsed, read⟩, overridden⟩
  · rw [override_eq_applyTo, override_eq_applyTo, Overrides.applyTo_applyTo]

/-- A file that gives some fields, and an environment that overrides others, or with no number. -/
example : load (.content (Utf8.encode "[leaf]\ndesired = 3\n[discovery]\nport = 9000\n".toList))
    [("RINGMESH_NETWORK__REMOTE_TAS", "udp://a:1, udp://b:2,"), ("RINGMESH_DISCOVERY__PORT", "no port")] =
      .ok { network := { remoteTransports := ["udp://a:1", "udp://b:2"] }
            leaf := { desired := 3 }
            discovery := { port := 9000 } } := by
  decide +kernel

end OverlayConfig

end RingOverlay

import Mathlib.Algebra.Group.Nat.Defs
import RingOverlay.Proofs.Config.Fields
/-!
What a file gives for the fields of a configuration, section by section. A field that is left out has
its default.
-/

set_option autoImplicit false
set_option relaxedAutoImplicit false

namespace RingOverlay

namespace Value

def IsText (v : Value) : Prop := ∃ s, v = .string s

def IsTexts (v : Value) : Prop := ∃ xs, v = .strings xs

def IsTruth (v : Value) : Prop := ∃ b, v = .bool b

def IsCount (width : Nat) (v : Value) : Prop := ∃ n < 2 ^ width, v = .nat n

def IsNumber (v : Value) : Prop := (∃ x, v = .float x) ∨ ∃ n, v = .int n

theorem exists_readString_iff (v : Value) : (∃ s, v.readString = .ok s) ↔ v.IsText := by
  cases v <;> simp [readString, unexpected, IsText]

theorem exists_readBool_iff (v : Value) : (∃ b, v.readBool = .ok b) ↔ v.IsTruth := by
  cases v <;> simp [readBool, unexpected, IsTruth]

theorem exists_readDouble_iff (v : Value) : (∃ x, v.readDouble = .ok x) ↔ v.IsNumber := by
  cases v <;> simp [readDouble, unexpected, IsNumber]

theorem readNat_eq_ok_iff {width n : Nat} {expected : String} {v : Value} :
    v.readNat width expected = .ok n ↔ n < 2 ^ width ∧ v = .nat n := by
  cases v with
  | int m =>
    simp only [readNat, Nat.one_shiftLeft, nat, int.injEq]
    constructor
    · intro read
      split at read
      case isTrue fits =>
        obtain rfl : m.toNat = n := Except.ok.inj read
        exact ⟨fits.2, (Int.toNat_of_nonneg fits.1).symm⟩
      case isFalse => cases read
    · rintro ⟨fits, rfl⟩
      exact if_pos ⟨Int.natCast_nonneg n, fits⟩
  | _ => simp [readNat, unexpected, nat]

theorem exists_readNat_iff (width : Nat) (expected : String) (v : Value) :
    (∃ n, v.readNat width expected = .ok n) ↔ v.IsCount width := by
  simp only [readNat_eq_ok_iff, IsCount]

theorem mapM_readString_eq_ok_iff {items : List Value} {xs : List String} :
    items.mapM readString = .ok xs ↔ items = xs.map .string := by
  induction items generalizing xs with
  | nil => cases xs <;> simp [pure, Except.pure]
  | cons v items ih =>
    simp only [List.mapM_cons, Except.bind_eq_ok_iff, ih]
    cases v <;> cases xs <;> simp [readString, unexpected, pure, Except.pure, and_comm]

theorem exists_readStrings_iff (v : Value) : (∃ xs, v.readStrings = .ok xs) ↔ v.IsTexts := by
  cases v with
  | list items =>
    simp only [readStrings, readList, mapM_readString_eq_ok_iff, IsTexts, strings, list.injEq]
  | _ => simp [readStrings, readList, unexpected, IsTexts, strings]

end Value

def given {β : Type} (file : String → Option Value) (key : String)
    (read : Value → Except ShapeError β) (default : β) : β :=
  ((file key).bind fun v => (read v).toOption).getD default

section

variable {β : Type} {file : String → Option Value} {key : String} {read : Value → Except ShapeError β}
  {v : Value} {x default : β}

theorem given_update_self (reads : read v = .ok x) :
    given (Function.update file key (some v)) key read default = x := by
  rw [given, Function.update_self, Option.bind_some, reads]
  rfl

theorem given_update_of_ne {other : String} {o : Option Value} (ne : key ≠ other) :
    given (Function.update file other o) key read default = given file key read default := by
  rw [given, Function.update_of_ne ne, given]

theorem given_lt {width n : Nat} {expected : String} (within : n < 2 ^ width) :
    given file key (Value.readNat width expected) n < 2 ^ width := by
  unfold given
  cases file key with
  | none => exact within
  | some v =>
    rw [Option.bind_some]
    cases read : v.readNat width expected with
    | error e => exact within
    | ok m => exact (Value.readNat_eq_ok_iff.mp read).1

end

/-- The fields of the section on the node, with the forms of their values. The other sections have lists
of the same kind. -/
def NodeConfig.forms : List (String × (Value → Prop)) :=
  [("realm", Value.IsText), ("address_seed", Value.IsText)]

def NodeConfig.ofGiven (file : String → Option Value) : NodeConfig where
  realm := given file "realm" Value.readString "ringmesh"
  addressSeed := given file "address_seed" Value.readString ""

theorem NodeConfig.builtBy : (NodeConfig.shape true).BuiltBy forms ofGiven where
  names := by decide
  surplus := rfl
  blank := rfl
  fields := by
    refine .cons (fills_optionalField Value.exists_readString_iff ?_) <|
      .cons (fills_optionalField Value.exists_readString_iff ?_) .nil
    all_goals
      intro file v x reads
      simp [ofGiven, given_update_self reads, given_update_of_ne]

def NetworkConfig.forms : List (String × (Value → Prop)) :=
  [("local_tas", Value.IsTexts), ("remote_tas", Value.IsTexts)]

def NetworkConfig.ofGiven (file : String → Option Value) : NetworkConfig where
  localTransports := given file "local_tas" Value.readStrings []
  remoteTransports := given file "remote_tas" Value.readStrings []

theorem NetworkConfig.builtBy : (NetworkConfig.shape true).BuiltBy forms ofGiven where
  names := by decide
  surplus := rfl
  blank := rfl
  fields := by
    refine .cons (fills_optionalField Value.exists_readStrings_iff ?_) <|
      .cons (fills_optionalField Value.exists_readStrings_iff ?_) .nil
    all_goals
      intro file v x reads
      simp [ofGiven, given_update_self reads, given_update_of_ne]

def TimingConfig.forms : List (String × (Value → Prop)) :=
  [("heartbeat_ms", Value.IsCount 64), ("reply_timeout_ms", Value.IsCount 64)]

def TimingConfig.ofGiven (file : String → Option Value) : TimingConfig where
  heartbeatMs := given file "heartbeat_ms" Value.readU64 1000
  replyTimeoutMs := given file "reply_timeout_ms" Value.readU64 20000

theorem TimingConfig.builtBy : (TimingConfig.shape true).BuiltBy forms ofGiven where
  names := by decide
  surplus := rfl
  blank := rfl
  fields := by
    refine .cons (fills_optionalField (Value.exists_readNat_iff 64 _) ?_) <|
      .cons (fills_optionalField (Value.exists_readNat_iff 64 _) ?_) .nil
    all_goals
      intro file v x reads
      simp [ofGiven, given_update_self reads, given_update_of_ne]

def HandshakeConfig.forms : List (String × (Value → Prop)) :=
  [("nearest_neighbors", Value.IsCount 64), ("max_transports", Value.IsCount 64)]

def HandshakeConfig.ofGiven (file : String → Option Value) : HandshakeConfig where
  nearestNeighbors := given file "nearest_neighbors" Value.readSize 4
  maxTransports := given file "max_transports" Value.readSize 12

theorem HandshakeConfig.builtBy : (HandshakeConfig.shape true).BuiltBy forms ofGiven where
  names := by decide
  surplus := rfl
  blank := rfl
  fields := by
    refine .cons (fills_optionalField (Value.exists_readNat_iff 64 _) ?_) <|
      .cons (fills_optionalField (Value.exists_readNat_iff 64 _) ?_) .nil
    all_goals
      intro file v x reads
      simp [ofGiven, given_update_self reads, given_update_of_ne]

def LeafConfig.forms : List (String × (Value → Prop)) :=
  [("desired", Value.IsCount 64), ("retry_interval_ms", Value.IsCount 64),
   ("max_retry_interval_ms", Value.IsCount 64)]

def LeafConfig.ofGiven (file : String → Option Value) : LeafConfig where
  desired := given file "desired" Value.readSize 2
  retryIntervalMs := given file "retry_interval_ms" Value.readU64 10000
  maxRetryIntervalMs := given file "max_retry_interval_ms" Value.readU64 60000

theorem LeafConfig.builtBy : (LeafConfig.shape true).BuiltBy forms ofGiven where
  names := by decide
  surplus := rfl
  blank := rfl
  fields := by
    refine .cons (fills_optionalField (Value.exists_readNat_iff 64 _) ?_) <|
      .cons (fills_optionalField (Value.exists_readNat_iff 64 _) ?_) <|
      .cons (fills_optionalField (Value.exists_readNat_iff 64 _) ?_) .nil
    all_goals
      intro file v x reads
      simp [ofGiven, given_update_self reads, given_update_of_ne]

def UnstructuredConfig.forms : List (String × (Value → Prop)) :=
  [("initial_desired", Value.IsCount 64), ("bootstrap_threshold", Value.IsCount 64),
   ("connect_ttl", Value.IsCount 16), ("extra_growth_probability", Value.IsNumber)]

def UnstructuredConfig.ofGiven (file : String → Option Value) : UnstructuredConfig where
  initialDesired := given file "initial_desired" Value.readSize 2
  bootstrapThreshold := given file "bootstrap_threshold" Value.readSize 2
  connectTtl := given file "connect_ttl" Value.readU16 10
  extraGrowthProbability := given file "extra_growth_probability" Value.readDouble .half

theorem UnstructuredConfig.builtBy : (UnstructuredConfig.shape true).BuiltBy forms ofGiven where
  names := by decide
  surplus := rfl
  blank := rfl
  fields := by
    refine .cons (fills_optionalField (Value.exists_readNat_iff 64 _) ?_) <|
      .cons (fills_optionalField (Value.exists_readNat_iff 64 _) ?_) <|
      .cons (fills_optionalField (Value.exists_readNat_iff 16 _) ?_) <|
      .cons (fills_optionalField Value.exists_readDouble_iff ?_) .nil
    all_goals
      intro file v x reads
      simp [ofGiven, given_update_self reads, given_update_of_ne]

def ManagedConfig.forms : List (String × (Value → Prop)) :=
  [("pinned", Value.IsTexts), ("check_interval_secs", Value.IsCount 64),
   ("retry_delay_ms", Value.IsCount 64)]

def ManagedConfig.ofGiven (file : String → Option Value) : ManagedConfig where
  pinned := given file "pinned" Value.readStrings []
  checkIntervalSecs := given file "check_interval_secs" Value.readU64 3600
  retryDelayMs := given file "retry_delay_ms" Value.readU64 1000

theorem ManagedConfig.builtBy : (ManagedConfig.shape true).BuiltBy forms ofGiven where
  names := by decide
  surplus := rfl
  blank := rfl
  fields := by
    refine .cons (fills_optionalField Value.exists_readStrings_iff ?_) <|
      .cons (fills_optionalField (Value.exists_readNat_iff 64 _) ?_) <|
      .cons (fills_optionalField (Value.exists_readNat_iff 64 _) ?_) .nil
    all_goals
      intro file v x reads
      simp [ofGiven, given_update_self reads, given_update_of_ne]

def DiscoveryConfig.forms : List (String × (Value → Prop)) :=
  [("enabled", Value.IsTruth), ("interface", Value.IsText), ("port", Value.IsCount 16),
   ("announce_interval_secs", Value.IsCount 64), ("reply_window_ms", Value.IsCount 64)]

def DiscoveryConfig.ofGiven (file : String → Option Value) : DiscoveryConfig where
  enabled := given file "enabled" Value.readBool true
  interface := given file "interface" Value.readString ""
  port := given file "port" Value.readU16 7401
  announceIntervalSecs := given file "announce_interval_secs" Value.readU64 600
  replyWindowMs := given file "reply_window_ms" Value.readU64 2000

theorem DiscoveryConfig.builtBy : (DiscoveryConfig.shape true).BuiltBy forms ofGiven where
  names := by decide
  surplus := rfl
  blank := rfl
  fields := by
    refine .cons (fills_optionalField Value.exists_readBool_iff ?_) <|
      .cons (fills_optionalField Value.exists_readString_iff ?_) <|
      .cons (fills_optionalField (Value.exists_readNat_iff 16 _) ?_) <|
      .cons (fills_optionalField (Value.exists_readNat_iff 64 _) ?_) <|
      .cons (fills_optionalField (Value.exists_readNat_iff 64 _) ?_) .nil
    all_goals
      intro file v x reads
      simp [ofGiven, given_update_self reads, given_update_of_ne]

def sectionOf (file : String → Option Value) (name : String) (forms : List (String × (Value → Prop)))
    (key : String) : Option Value :=
  (file name).bind fun v => v.given? (forms.map (·.1)) key

section

variable {file : String → Option Value} {name other : String} {forms : List (String × (Value → Prop))}
  {v : Value} {o : Option Value}

theorem build_sectionOf_update {α : Type} {shape : RecordShape α} {build : (String → Option Value) → α}
    {x : α} (built : shape.BuiltBy forms build) (reads : shape.read v = .ok x) :
    build (sectionOf (Function.update file name (some v)) name forms) = x := by
  rw [built.eq_of_read reads]
  unfold sectionOf
  rw [Function.update_self]
  rfl

theorem sectionOf_update_of_ne (ne : name ≠ other) :
    sectionOf (Function.update file other o) name forms = sectionOf file name forms := by
  funext key
  rw [sectionOf, Function.update_of_ne ne, sectionOf]

end

namespace OverlayConfig

def forms : List (String × (Value → Prop)) :=
  [("node", (·.IsTable NodeConfig.forms)),
   ("network", (·.IsTable NetworkConfig.forms)),
   ("timing", (·.IsTable TimingConfig.forms)),
   ("handshake", (·.IsTable HandshakeConfig.forms)),
   ("leaf", (·.IsTable LeafConfig.forms)),
   ("unstructured", (·.IsTable UnstructuredConfig.forms)),
   ("managed", (·.IsTable ManagedConfig.forms)),
   ("discovery", (·.IsTable DiscoveryConfig.forms))]

def ofGiven (file : String → Option Value) : OverlayConfig where
  node := .ofGiven (sectionOf file "node" NodeConfig.forms)
  network := .ofGiven (sectionOf file "network" NetworkConfig.forms)
  timing := .ofGiven (sectionOf file "timing" TimingConfig.forms)
  handshake := .ofGiven (sectionOf file "handshake" HandshakeConfig.forms)
  leaf := .ofGiven (sectionOf file "leaf" LeafConfig.forms)
  unstructured := .ofGiven (sectionOf file "unstructured" UnstructuredConfig.forms)
  managed := .ofGiven (sectionOf file "managed" ManagedConfig.forms)
  discovery := .ofGiven (sectionOf file "discovery" DiscoveryConfig.forms)

theorem builtBy : (OverlayConfig.shape true).BuiltBy forms ofGiven where
  names := by decide
  surplus := rfl
  blank := rfl
  fields := by
    refine .cons (fills_optionalField NodeConfig.builtBy.exists_read_iff ?_) <|
      .cons (fills_optionalField NetworkConfig.builtBy.exists_read_iff ?_) <|
      .cons (fills_optionalField TimingConfig.builtBy.exists_read_iff ?_) <|
      .cons (fills_optionalField HandshakeConfig.builtBy.exists_read_iff ?_) <|
      .cons (fills_optionalField LeafConfig.builtBy.exists_read_iff ?_) <|
      .cons (fills_optionalField UnstructuredConfig.builtBy.exists_read_iff ?_) <|
      .cons (fills_optionalField ManagedConfig.builtBy.exists_read_iff ?_) <|
      .cons (fills_optionalField DiscoveryConfig.builtBy.exists_read_iff ?_) .nil
    all_goals
      intro file v x reads
    · simp [ofGiven, build_sectionOf_update NodeConfig.builtBy reads, sectionOf_update_of_ne]
    · simp [ofGiven, build_sectionOf_update NetworkConfig.builtBy reads, sectionOf_update_of_ne]
    · simp [ofGiven, build_sectionOf_update TimingConfig.builtBy reads, sectionOf_update_of_ne]
    · simp [ofGiven, build_sectionOf_update HandshakeConfig.builtBy reads, sectionOf_update_of_ne]
    · simp [ofGiven, build_sectionOf_update LeafConfig.builtBy reads, sectionOf_update_of_ne]
    · simp [ofGiven, build_sectionOf_update UnstructuredConfig.builtBy reads, sectionOf_update_of_ne]
    · simp [ofGiven, build_sectionOf_update ManagedConfig.builtBy reads, sectionOf_update_of_ne]
    · simp [ofGiven, build_sectionOf_update DiscoveryConfig.builtBy reads, sectionOf_update_of_ne]

end OverlayConfig

end RingOverlay

import RingOverlay.Config.Basic
/-!
Reading a configuration from a structured value. Every field may be absent, and keeps its default
then. Numbers fit 64 bits, ports and hop counts 16 bits.
-/

set_option autoImplicit false
set_option relaxedAutoImplicit false

namespace RingOverlay

namespace Value

def readU64 : Value → Except ShapeError Nat := readNat 64 "u64"

def readSize : Value → Except ShapeError Nat := readNat 64 "usize"

def readU16 : Value → Except ShapeError Nat := readNat 16 "u16"

def readStrings : Value → Except ShapeError (List String) := readList readString

end Value

/-- A field that keeps its default when it is absent: how its value is read and put in place. -/
def optionalField {α β : Type} (name : String) (read : Value → Except ShapeError β) (put : α → β → α) :
    RecordField α :=
  ⟨name, false, fun a v => put a <$> read v⟩

def NodeConfig.shape (surplus : Bool) : RecordShape NodeConfig where
  name := "NodeConfig"
  blank := {}
  fields :=
    [optionalField "realm" Value.readString fun c x => { c with realm := x },
     optionalField "address_seed" Value.readString fun c x => { c with addressSeed := x }]
  surplus

def NetworkConfig.shape (surplus : Bool) : RecordShape NetworkConfig where
  name := "NetworkConfig"
  blank := {}
  fields :=
    [optionalField "local_tas" Value.readStrings fun c x => { c with localTransports := x },
     optionalField "remote_tas" Value.readStrings fun c x => { c with remoteTransports := x }]
  surplus

def TimingConfig.shape (surplus : Bool) : RecordShape TimingConfig where
  name := "TimingConfig"
  blank := {}
  fields :=
    [optionalField "heartbeat_ms" Value.readU64 fun c x => { c with heartbeatMs := x },
     optionalField "reply_timeout_ms" Value.readU64 fun c x => { c with replyTimeoutMs := x }]
  surplus

def HandshakeConfig.shape (surplus : Bool) : RecordShape HandshakeConfig where
  name := "HandshakeConfig"
  blank := {}
  fields :=
    [optionalField "nearest_neighbors" Value.readSize fun c x => { c with nearestNeighbors := x },
     optionalField "max_transports" Value.readSize fun c x => { c with maxTransports := x }]
  surplus

def LeafConfig.shape (surplus : Bool) : RecordShape LeafConfig where
  name := "LeafConfig"
  blank := {}
  fields :=
    [optionalField "desired" Value.readSize fun c x => { c with desired := x },
     optionalField "retry_interval_ms" Value.readU64 fun c x => { c with retryIntervalMs := x },
     optionalField "max_retry_interval_ms" Value.readU64 fun c x => { c with maxRetryIntervalMs := x }]
  surplus

def UnstructuredConfig.shape (surplus : Bool) : RecordShape UnstructuredConfig where
  name := "UnstructuredConfig"
  blank := {}
  fields :=
    [optionalField "initial_desired" Value.readSize fun c x => { c with initialDesired := x },
     optionalField "bootstrap_threshold" Value.readSize fun c x => { c with bootstrapThreshold := x },
     optionalField "connect_ttl" Value.readU16 fun c x => { c with connectTtl := x },
     optionalField "extra_growth_probability" Value.readDouble fun c x =>
       { c with extraGrowthProbability := x }]
  surplus

def ManagedConfig.shape (surplus : Bool) : RecordShape ManagedConfig where
  name := "ManagedConfig"
  blank := {}
  fields :=
    [optionalField "pinned" Value.readStrings fun c x => { c with pinned := x },
     optionalField "check_interval_secs" Value.readU64 fun c x => { c with checkIntervalSecs := x },
     optionalField "retry_delay_ms" Value.readU64 fun c x => { c with retryDelayMs := x }]
  surplus

def DiscoveryConfig.shape (surplus : Bool) : RecordShape DiscoveryConfig where
  name := "DiscoveryConfig"
  blank := {}
  fields :=
    [optionalField "enabled" Value.readBool fun c x => { c with enabled := x },
     optionalField "interface" Value.readString fun c x => { c with interface := x },
     optionalField "port" Value.readU16 fun c x => { c with port := x },
     optionalField "announce_interval_secs" Value.readU64 fun c x => { c with announceIntervalSecs := x },
     optionalField "reply_window_ms" Value.readU64 fun c x => { c with replyWindowMs := x }]
  surplus

/-- How a configuration is read. Where surplus is let through, a section written as a list may have
more items than fields. -/
def OverlayConfig.shape (surplus : Bool) : RecordShape OverlayConfig where
  name := "OverlayConfig"
  blank := {}
  fields :=
    [optionalField "node" (NodeConfig.shape surplus).read fun c x => { c with node := x },
     optionalField "network" (NetworkConfig.shape surplus).read fun c x => { c with network := x },
     optionalField "timing" (TimingConfig.shape surplus).read fun c x => { c with timing := x },
     optionalField "handshake" (HandshakeConfig.shape surplus).read fun c x => { c with handshake := x },
     optionalField "leaf" (LeafConfig.shape surplus).read fun c x => { c with leaf := x },
     optionalField "unstructured" (UnstructuredConfig.shape surplus).read fun c x =>
       { c with unstructured := x },
     optionalField "managed" (ManagedConfig.shape surplus).read fun c x => { c with managed := x },
     optionalField "discovery" (DiscoveryConfig.shape surplus).read fun c x => { c with discovery := x }]
  surplus

end RingOverlay

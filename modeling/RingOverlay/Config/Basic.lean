import RingOverlay.Data.Shape
/-!
The configuration of a node: eight sections, each field with its default, and how a configuration is
read from a structured value and turned back into one.
-/

set_option autoImplicit false
set_option relaxedAutoImplicit false

namespace RingOverlay

structure NodeConfig where
  realm : String := "ringmesh"
  /-- The seed of a lasting position; without one, the position is random. -/
  addressSeed : String := ""
  deriving DecidableEq, Repr

structure NetworkConfig where
  localTransports : List String := []
  remoteTransports : List String := []
  deriving DecidableEq, Repr

structure TimingConfig where
  heartbeatMs : Nat := 1000
  replyTimeoutMs : Nat := 20000
  deriving DecidableEq, Repr

structure HandshakeConfig where
  nearestNeighbors : Nat := 4
  maxTransports : Nat := 12
  deriving DecidableEq, Repr

structure LeafConfig where
  desired : Nat := 2
  /-- The first pause between attempts; it doubles with every attempt. -/
  retryIntervalMs : Nat := 10000
  maxRetryIntervalMs : Nat := 60000
  deriving DecidableEq, Repr

structure UnstructuredConfig where
  initialDesired : Nat := 2
  /-- Below this number of links, requests go out through a leaf link. -/
  bootstrapThreshold : Nat := 2
  connectTtl : Nat := 10
  extraGrowthProbability : Double := .half
  deriving DecidableEq, Repr

structure ManagedConfig where
  pinned : List String := []
  checkIntervalSecs : Nat := 3600
  retryDelayMs : Nat := 1000
  deriving DecidableEq, Repr

structure DiscoveryConfig where
  enabled : Bool := true
  /-- The network interface; an empty name leaves the choice to the machine. -/
  interface : String := ""
  port : Nat := 7401
  announceIntervalSecs : Nat := 600
  replyWindowMs : Nat := 2000
  deriving DecidableEq, Repr

structure OverlayConfig where
  node : NodeConfig := {}
  network : NetworkConfig := {}
  timing : TimingConfig := {}
  handshake : HandshakeConfig := {}
  leaf : LeafConfig := {}
  unstructured : UnstructuredConfig := {}
  managed : ManagedConfig := {}
  discovery : DiscoveryConfig := {}
  deriving DecidableEq, Repr

/-- The longest pause between leaf attempts is never below the first one. -/
def LeafConfig.longestIntervalMs (c : LeafConfig) : Nat := max c.maxRetryIntervalMs c.retryIntervalMs

/-- The pause between checks of pinned peers. -/
def ManagedConfig.checkIntervalMs (c : ManagedConfig) : Nat := c.checkIntervalSecs * 1000

def DiscoveryConfig.announceIntervalMs (c : DiscoveryConfig) : Nat := c.announceIntervalSecs * 1000

end RingOverlay

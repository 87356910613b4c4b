import RingOverlay.Config.Basic
import RingOverlay.Data.Value
/-!
A configuration as named sections with named fields, in their declared order, and its text: a header
line for each section, a line for each field, and an empty line between sections.
-/

set_option autoImplicit false
set_option relaxedAutoImplicit false

namespace RingOverlay

namespace OverlayConfig

def sections (c : OverlayConfig) : List (String × List (String × Value)) :=
  [("node",
     [("realm", .string c.node.realm), ("address_seed", .string c.node.addressSeed)]),
   ("network",
     [("local_tas", .strings c.network.localTransports),
      ("remote_tas", .strings c.network.remoteTransports)]),
   ("timing",
     [("heartbeat_ms", .nat c.timing.heartbeatMs), ("reply_timeout_ms", .nat c.timing.replyTimeoutMs)]),
   ("handshake",
     [("nearest_neighbors", .nat c.handshake.nearestNeighbors),
      ("max_transports", .nat c.handshake.maxTransports)]),
   ("leaf",
     [("desired", .nat c.leaf.desired), ("retry_interval_ms", .nat c.leaf.retryIntervalMs),
      ("max_retry_interval_ms", .nat c.leaf.maxRetryIntervalMs)]),
   ("unstructured",
     [("initial_desired", .nat c.unstructured.initialDesired),
      ("bootstrap_threshold", .nat c.unstructured.bootstrapThreshold),
      ("connect_ttl", .nat c.unstructured.connectTtl),
      ("extra_growth_probability", .float c.unstructured.extraGrowthProbability)]),
   ("managed",
     [("pinned", .strings c.managed.pinned), ("check_interval_secs", .nat c.managed.checkIntervalSecs),
      ("retry_delay_ms", .nat c.managed.retryDelayMs)]),
   ("discovery",
     [("enabled", .bool c.discovery.enabled), ("interface", .string c.discovery.interface),
      ("port", .nat c.discovery.port), ("announce_interval_secs", .nat c.discovery.announceIntervalSecs),
      ("reply_window_ms", .nat c.discovery.replyWindowMs)])]

def toValue (c : OverlayConfig) : Value :=
  Value.ofEntries (c.sections.map fun (name, fields) => (name, Value.ofEntries fields))

def fieldLine (field : String × Value) : String := field.1 ++ " = " ++ field.2.compact ++ "\n"

def sectionText (s : String × List (String × Value)) : String :=
  "[" ++ s.1 ++ "]\n" ++ String.join (s.2.map fieldLine)

def text (c : OverlayConfig) : String := "\n".intercalate (c.sections.map sectionText)

end OverlayConfig

end RingOverlay

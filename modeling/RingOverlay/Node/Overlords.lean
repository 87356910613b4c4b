import RingOverlay.Node.Linking
/-!
How a node's policies are switched, and how they are told of changes: each policy decides on its own
state, and the node carries out what it decides.
-/

set_option autoImplicit false
set_option relaxedAutoImplicit false

namespace RingOverlay.Node

def links (n : Node) (k : MainType) : Nat := n.table.count k

def activateLeaf (n : Node) : Node :=
  let (go, leaf) := n.leaf.activate n.config.leaf n.now (n.links .leaf) n.remoteTransports
  let n := { n with leaf }
  if go then
    let (endpoints, words) := n.words.shuffle n.remoteTransports
    { n with words }.launch .leaf (LeafOverlord.request n.here endpoints)
  else n

/-- Closes a leaf link if the newest one makes them too many; tells whether it did not break off. -/
def trimLeafs (n : Node) (newest : EdgeId) : Bool × Node :=
  match LeafOverlord.victim n.config.leaf (n.table.view .leaf) newest n.words with
  | some (some c, words) => (true, { n with words }.act (.close c.edge LeafOverlord.closeReason))
  | some (none, words) => (true, { n with words })
  | none => (false, n.act .overflow)

def activateUnstructured (n : Node) : Node :=
  let (target, unstructured, words) :=
    n.unstructured.activate n.config.unstructured (n.table.view .leaf) n.words
  let n := { n with unstructured, words }
  match target with
  | some t => n.startHandshake .unstructured t MainType.unstructured.name (.decided false)
  | none => n

def recountUnstructured (n : Node) : Node :=
  { n with unstructured := n.unstructured.recount (n.links .unstructured) }.activateUnstructured

def checkPins (n : Node) : Node := n.connectAll (n.managed.idle n.isBusy)

def activateManaged (n : Node) : Node := if n.managed.active then n.checkPins else n

def activateDiscovery (n : Node) : Node :=
  let (go, discovery) := n.discovery.activate n.config.discovery n.now n.table.size
  let n := { n with discovery }
  if go then (n.act (.query n.created default)).spawnResting (.query ⟨[], false⟩) else n

def activate (n : Node) : OverlordKind → Node
  | .leaf => n.activateLeaf
  | .unstructured => n.activateUnstructured
  | .managed => n.activateManaged
  | .discovery => n.activateDiscovery

def setActive (n : Node) (active : Bool) : OverlordKind → Node
  | .leaf => { n with leaf := { n.leaf with active } }
  | .unstructured => { n with unstructured := { n.unstructured with active } }
  | .managed => { n with managed := { n.managed with active } }
  | .discovery => { n with discovery := { n.discovery with active } }

def isActive (n : Node) : OverlordKind → Bool
  | .leaf => n.leaf.active
  | .unstructured => n.unstructured.active
  | .managed => n.managed.active
  | .discovery => n.discovery.active

def needs (n : Node) : OverlordKind → Bool
  | .leaf => LeafOverlord.needs n.config.leaf (n.links .leaf)
  | .unstructured => n.unstructured.needs
  | .managed => n.managed.needs
  | .discovery => false

def beat (n : Node) : OverlordKind → Node
  | .managed =>
    match n.managed.beginCheck? n.config.managed n.now with
    | some managed => { n with managed }.checkPins
    | none => n
  | .discovery => n.activateDiscovery
  | k => if n.isActive k && n.needs k then n.activate k else n

def linkUp (n : Node) (c : Connection) : OverlordKind → Node
  | .leaf =>
    if c.mainType = .leaf then
      let (trimmed, n) := { n with leaf := n.leaf.resetBackoff n.config.leaf }.trimLeafs c.edge
      if trimmed then n.activateLeaf else n
    else n
  | .unstructured =>
    if c.mainType = .unstructured then
      let (unstructured, words) :=
        n.unstructured.linkUp n.config.unstructured (n.links .unstructured) n.words
      { n with unstructured, words }.activateUnstructured
    else n
  | .managed =>
    if c.mainType = .structured then { n with managed := n.managed.linkUp c.address } else n
  | .discovery => n

def linkDown (n : Node) (c : Connection) : OverlordKind → Node
  | .leaf => if c.mainType = .leaf then n.activateLeaf else n
  | .unstructured => if c.mainType = .unstructured then n.recountUnstructured else n
  | .managed =>
    if c.mainType = .structured then
      let (go, managed) := n.managed.linkDown c.address
      let n := { n with managed }
      if go then n.connectPinned c.address else n
    else n
  | .discovery => n

def resyncOne (n : Node) : OverlordKind → Node
  | .unstructured => n.recountUnstructured
  | .managed => { n with managed := n.managed.resync n.isConnected }.activateManaged
  | .leaf | .discovery => n

def start (n : Node) : Node :=
  n.overlords.foldl activate (n.overlords.foldl (setActive · true) n)

/-- Switches all policies off. Links stay up, and lost ones are not replaced. -/
def stop (n : Node) : Node := n.overlords.foldl (setActive · false) n

def heartbeat (n : Node) : Node := n.overlords.foldl beat n

def handleEvent (n : Node) : TableEvent → Node
  | .connected c => n.overlords.foldl (linkUp · c) n
  | .disconnected c => n.overlords.foldl (linkDown · c) n

def resync (n : Node) : Node := n.overlords.foldl resyncOne n

def pin (n : Node) (a : RingAddress) : Node :=
  let (go, managed) := n.managed.pin n.here a (n.isConnected a)
  let n := { n with managed }
  if go then n.connectPinned a else n

def unpinReason : String := "managed target removed"

/-- Unpins a peer and closes the link to it that was set up for the pin; tells whether it was
pinned. -/
def unpin (n : Node) (a : RingAddress) : Bool × Node :=
  let (was, managed) := n.managed.unpin a
  let n := { n with managed }
  match n.table.get? .structured a with
  | some c =>
    (was, if was && c.connectionType == managedType then n.act (.close c.edge unpinReason) else n)
  | none => (was, n)

end RingOverlay.Node

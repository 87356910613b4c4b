import RingOverlay.Config.Environment
/-!
What the environment does to a configuration. Each of its variables replaces one field, if it is set to
something that has a meaning there.
-/

set_option autoImplicit false
set_option relaxedAutoImplicit false

namespace RingOverlay

structure Overrides where
  realm : Option String
  addressSeed : Option String
  localTransports : Option (List String)
  remoteTransports : Option (List String)
  enabled : Option Bool
  interface : Option String
  port : Option Nat
  desired : Option Nat

namespace Overrides

/-- A port or a number of leaf links that is no number of 16 or 64 bits is as good as none. -/
def ofEnvironment (env : Environment) : Overrides where
  realm := env.lookup "RINGMESH_NODE__REALM"
  addressSeed := env.lookup "RINGMESH_NODE__ADDRESS_SEED"
  localTransports := (env.lookup "RINGMESH_NETWORK__LOCAL_TAS").map splitList
  remoteTransports := (env.lookup "RINGMESH_NETWORK__REMOTE_TAS").map splitList
  enabled := (env.lookup "RINGMESH_DISCOVERY__ENABLED").map fun value =>
    decide (value = "true" ∨ value = "1")
  interface := env.lookup "RINGMESH_DISCOVERY__INTERFACE"
  port := (env.lookup "RINGMESH_DISCOVERY__PORT").bind (readBounded UInt16.size)
  desired := (env.lookup "RINGMESH_LEAF__DESIRED").bind (readBounded UInt64.size)

def applyTo (o : Overrides) (c : OverlayConfig) : OverlayConfig :=
  { c with
    node :=
      { realm := o.realm.getD c.node.realm
        addressSeed := o.addressSeed.getD c.node.addressSeed }
    network :=
      { localTransports := o.localTransports.getD c.network.localTransports
        remoteTransports := o.remoteTransports.getD c.network.remoteTransports }
    leaf := { c.leaf with desired := o.desired.getD c.leaf.desired }
    discovery :=
      { c.discovery with
        enabled := o.enabled.getD c.discovery.enabled
        interface := o.interface.getD c.discovery.interface
        port := o.port.getD c.discovery.port } }

theorem applyTo_applyTo (o : Overrides) (c : OverlayConfig) : o.applyTo (o.applyTo c) = o.applyTo c := by
  have getD_getD {α : Type} (x : Option α) (y : α) : x.getD (x.getD y) = x.getD y := by cases x <;> rfl
  simp only [applyTo, getD_getD]

end Overrides

namespace OverlayConfig

def overrideOne (env : Environment) (c : OverlayConfig) (name : String) : OverlayConfig :=
  match env.lookup name with
  | some value => c.applyVariable name value
  | none => c

theorem override_eq (c : OverlayConfig) (env : Environment) :
    c.override env = overrideNames.foldl (overrideOne env) c := rfl

theorem overrideOne_eq {β : Type} (name : String) (parse : String → Option β)
    (put : OverlayConfig → β → OverlayConfig) (get : OverlayConfig → β)
    (applied : ∀ c value, applyVariable c name value = ((parse value).map (put c)).getD c)
    (kept : ∀ c, put c (get c) = c) (env : Environment) (c : OverlayConfig) :
    overrideOne env c name = put c (((env.lookup name).bind parse).getD (get c)) := by
  unfold overrideOne
  cases env.lookup name with
  | none => exact (kept c).symm
  | some value =>
    change applyVariable c name value = put c ((parse value).getD (get c))
    rw [applied]
    cases parse value with
    | none => exact (kept c).symm
    | some x => rfl

theorem override_eq_applyTo (c : OverlayConfig) (env : Environment) :
    c.override env = (Overrides.ofEnvironment env).applyTo c := by
  have realm := overrideOne_eq "RINGMESH_NODE__REALM" some
    (fun c x => { c with node := { c.node with realm := x } }) (·.node.realm)
    (fun _ _ => rfl) (fun _ => rfl) env
  have addressSeed := overrideOne_eq "RINGMESH_NODE__ADDRESS_SEED" some
    (fun c x => { c with node := { c.node with addressSeed := x } }) (·.node.addressSeed)
    (fun _ _ => rfl) (fun _ => rfl) env
  have localTransports := overrideOne_eq "RINGMESH_NETWORK__LOCAL_TAS" (some ∘ splitList)
    (fun c x => { c with network := { c.network with localTransports := x } })
    (·.network.localTransports) (fun _ _ => rfl) (fun _ => rfl) env
  have remoteTransports := overrideOne_eq "RINGMESH_NETWORK__REMOTE_TAS" (some ∘ splitList)
    (fun c x => { c with network := { c.network with remoteTransports := x } })
    (·.network.remoteTransports) (fun _ _ => rfl) (fun _ => rfl) env
  have enabled := overrideOne_eq "RINGMESH_DISCOVERY__ENABLED"
    (some ∘ fun value => value == "true" || value == "1")
    (fun c x => { c with discovery := { c.discovery with enabled := x } }) (·.discovery.enabled)
    (fun _ _ => rfl) (fun _ => rfl) env
  have interface := overrideOne_eq "RINGMESH_DISCOVERY__INTERFACE" some
    (fun c x => { c with discovery := { c.discovery with interface := x } }) (·.discovery.interface)
    (fun _ _ => rfl) (fun _ => rfl) env
  have port := overrideOne_eq "RINGMESH_DISCOVERY__PORT" (readBounded UInt16.size)
    (fun c x => { c with discovery := { c.discovery with port := x } }) (·.discovery.port)
    (fun _ value => by
      unfold applyVariable
      cases readBounded UInt16.size value <;> rfl) (fun _ => rfl) env
  have desired := overrideOne_eq "RINGMESH_LEAF__DESIRED" (readBounded UInt64.size)
    (fun c x => { c with leaf := { c.leaf with desired := x } }) (·.leaf.desired)
    (fun _ value => by
      unfold applyVariable
      cases readBounded UInt64.size value <;> rfl) (fun _ => rfl) env
  rw [override_eq]
  simp only [overrideNames, List.foldl_cons, List.foldl_nil, realm, addressSeed, localTransports,
    remoteTransports, enabled, interface, port, desired, Option.bind_fun_some,
    Overrides.applyTo, Overrides.ofEnvironment, Option.map_eq_bind, Bool.decide_or]
  rfl

end OverlayConfig

end RingOverlay

import RingOverlay.Proofs.Node.Routine
/-!
What the unstructured policy has to go by, and how it changes: with the table, and with the news that
the policy hears of unstructured links. All other work of a node leaves it alone.
-/

set_option autoImplicit false
set_option relaxedAutoImplicit false

namespace RingOverlay

def NodeMove.changesTable : NodeMove → Bool
  | .step (.add _) | .step (.removeEdge _) => true
  | _ => false

namespace Node

structure Outlook where
  table : ConnectionTable
  config : OverlayConfig
  desired : Nat
  current : Nat

def outlook (n : Node) : Outlook :=
  ⟨n.table, n.config, n.unstructured.desired, n.unstructured.current⟩

theorem outlook_eq_iff {n : Node} {table : ConnectionTable} {config : OverlayConfig}
    {desired current : Nat} : n.outlook = ⟨table, config, desired, current⟩ ↔
      n.table = table ∧ n.config = config ∧ n.unstructured.desired = desired ∧
        n.unstructured.current = current := by
  rw [outlook, Outlook.mk.injEq]

def Steady (n m : Node) : Prop := m.outlook = n.outlook

section

variable {R Q : Node → Node → Prop} {n m : Node} {e : TableEvent} {c : Connection}

theorem Steady.table (steady : Steady n m) : m.table = n.table := congrArg Outlook.table steady

theorem Steady.config (steady : Steady n m) : m.config = n.config := congrArg Outlook.config steady

theorem Steady.desired (steady : Steady n m) : m.unstructured.desired = n.unstructured.desired :=
  congrArg Outlook.desired steady

theorem Steady.current (steady : Steady n m) : m.unstructured.current = n.unstructured.current :=
  congrArg Outlook.current steady

theorem steady_routine : Routine Steady where
  refl _ := rfl
  trans first second := second.trans first
  aside same := by
    have seen := congrArg outlook same
    exact seen
  act _ _ _ := rfl
  spawnResting _ _ _ := rfl
  setTask _ _ _ _ _ _ _ := rfl
  setIdle _ _ _ _ := rfl
  endTask _ _ := rfl
  attend n _ desired current := by
    rw [Steady, outlook, desired, current]
    rfl
  mark _ _ _ := rfl
  seek _ _ _ := rfl

theorem Routine.weaken (routine : Routine Q) (weaker : ∀ {n m}, Q n m → R n m)
    (trans : ∀ {n m k}, R n m → R m k → R n k) : Routine R where
  refl n := weaker (routine.refl n)
  trans := trans
  aside same := weaker (routine.aside same)
  act n _ silent := weaker (routine.act n silent)
  spawnResting n _ other := weaker (routine.spawnResting n other)
  setTask n _ _ _ found same mail := weaker (routine.setTask n found same mail)
  setIdle n id _ other := weaker (routine.setIdle n id other)
  endTask n id := weaker (routine.endTask n id)
  attend n _ desired current := weaker (routine.attend n desired current)
  mark n _ fewer := weaker (routine.mark n fewer)
  seek n _ pinned := weaker (routine.seek n pinned)

theorem steady_pollHandshake (n : Node) (id : TaskId) (h : HandshakeTask) :
    Steady n (n.pollHandshake id h) := by
  have heard := steady_routine.turn h n
  simp only [pollHandshake]
  generalize h.turn n.here (n.shouldAbort h.abort) (handleReply h.owner) n = turned at heard ⊢
  obtain ⟨turn, m⟩ := turned
  refine steady_routine.trans heard ?_
  cases turn with
  | call toHandshake | rest toHandshake => rfl
  | done r =>
    exact steady_routine.trans (steady_routine.endTask m id) (steady_routine.finishHandshake ..)

theorem allows_of_steady (weaker : ∀ {n m}, Steady n m → R n m) (n : Node) {m : NodeMove}
    (keeps : m.changesTable = false) : Allows R n m := by
  cases m with
  | run | shutdown | activate | switch | beat | resync | linkUp | linkDown => trivial
  | step s =>
    cases s with
    | add | removeEdge => cases keeps
    | pin a => exact weaker rfl
    | poll id => exact fun h _ => weaker (steady_pollHandshake n id h)
    | deliver id e => exact fun _ _ => weaker rfl
    | _ => trivial

theorem outlook_recount (n : Node) : n.recountUnstructured.outlook =
    ⟨n.table, n.config, n.unstructured.desired, n.links .unstructured⟩ :=
  steady_routine.activateUnstructured _

theorem outlook_linkUp (type : c.mainType = .unstructured) (n : Node) :
    (n.linkUp c .unstructured).outlook = ⟨n.table, n.config,
      (n.unstructured.linkUp n.config.unstructured (n.links .unstructured) n.words).1.desired,
      n.links .unstructured⟩ := by
  have current := n.unstructured.current_linkUp n.config.unstructured (n.links .unstructured) n.words
  have sought := steady_routine.activateUnstructured { n with
    unstructured := (n.unstructured.linkUp n.config.unstructured (n.links .unstructured) n.words).1
    words := (n.unstructured.linkUp n.config.unstructured (n.links .unstructured) n.words).2 }
  rw [linkUp, if_pos type]
  exact sought.trans (congrArg (Outlook.mk n.table n.config _) current)

theorem outlook_publish (n : Node) (table : ConnectionTable) (es : List TableEvent) :
    (es.foldl publish { n with table }).outlook =
      ⟨table, n.config, n.unstructured.desired, n.unstructured.current⟩ :=
  steady_routine.foldl steady_routine.publish es _

end

end Node

end RingOverlay

import RingOverlay.Proofs.Node.Outlook
import RingOverlay.Proofs.Overlord.Ratchet
/-!
The desired number of unstructured links in a node whose unstructured policy hears of every change of
the table at once. Then the policy always counts right, so whatever else it is told changes nothing,
and its target follows the largest number of links.
-/

set_option autoImplicit false
set_option relaxedAutoImplicit false

namespace RingOverlay.Node

/-- The table events to which a move gives rise. -/
def changes (n : Node) : NodeMove → List TableEvent
  | .step (.add c) =>
    match n.table.add c with
    | .ok _ => [.connected c]
    | .error _ => []
  | .step (.removeEdge e) => (n.table.detach e).1.map .disconnected
  | _ => []

/-- A node after a move, where the unstructured policy hears of the changes at once. -/
def moveHeard (n : Node) (m : NodeMove) : Node :=
  (n.changes m).foldl (fun n e => hear e n .unstructured) (n.move m)

def heard (n : Node) (ms : List NodeMove) : Node := ms.foldl moveHeard n

/-- The largest number of unstructured links during a run. -/
def mostLinks {α : Type} (f : Node → α → Node) (n : Node) : List α → Nat
  | [] => n.links .unstructured
  | a :: as => max (n.links .unstructured) ((f n a).mostLinks f as)

theorem links_le_mostLinks {α : Type} (f : Node → α → Node) (n : Node) (as : List α) :
    n.links .unstructured ≤ n.mostLinks f as := by
  cases as with
  | nil => exact Nat.le_refl _
  | cons a as => exact Nat.le_max_left ..

/-- Nothing changes for the unstructured policy, provided that it counts right. -/
def Level (n m : Node) : Prop := n.Counted → Steady n m

section

variable {n m : Node} {initial peak desired : Nat} {table : ConnectionTable}

theorem level_routine : CountingRoutine Level where
  toRoutine := by
    refine steady_routine.weaken (fun steady _ => steady) fun {n m k} first second counted => ?_
    -- The node in between looks the same to the policy, so it counts right as well.
    have half := first counted
    have still : m.Counted := by
      rw [Counted, half.table, half.current]
      exact counted
    exact (second still).trans half
  recount n counted := congrArg (Outlook.mk n.table n.config n.unstructured.desired) counted.symm
  rise n counted := by
    have current : n.unstructured.current = n.links .unstructured := counted
    have desired := n.unstructured.desired_linkUp n.config.unstructured (n.links .unstructured) n.words
    rw [if_neg fun rise => Nat.ne_of_lt rise.1 current] at desired
    have noted := n.unstructured.current_linkUp n.config.unstructured (n.links .unstructured) n.words
    simp only [Steady, outlook, desired, noted, current]

theorem changes_of_keeps (n : Node) {m : NodeMove} (keeps : m.changesTable = false) :
    n.changes m = [] := by
  unfold changes
  split
  · cases keeps
  · cases keeps
  · rfl

theorem outlook_losses (cs : List Connection) (n : Node) :
    (((cs.map .disconnected).foldl (fun n e => hear e n .unstructured) n).outlook = n.outlook ∧
        ∀ c ∈ cs, c.mainType ≠ .unstructured) ∨
      ((cs.map .disconnected).foldl (fun n e => hear e n .unstructured) n).outlook =
        ⟨n.table, n.config, n.unstructured.desired, n.links .unstructured⟩ := by
  induction cs generalizing n with
  | nil => exact Or.inl ⟨rfl, nofun⟩
  | cons c cs ih =>
    rw [List.map_cons, List.foldl_cons]
    -- Each unstructured link that was lost makes the policy count anew, so the last one decides.
    by_cases type : c.mainType = .unstructured
    · have first : hear (.disconnected c) n .unstructured = n.recountUnstructured := if_pos type
      have recounted := outlook_recount n
      rw [first]
      generalize n.recountUnstructured = m at recounted ⊢
      obtain ⟨table, config, desired, -⟩ := outlook_eq_iff.mp recounted
      refine Or.inr ?_
      rcases ih m with ⟨rest, -⟩ | rest
      · exact rest.trans recounted
      · rw [rest, table, config, desired, links, table, links]
    · have first : hear (.disconnected c) n .unstructured = n := if_neg type
      rw [first]
      rcases ih n with ⟨rest, others⟩ | rest
      · exact Or.inl ⟨rest, List.forall_mem_cons.mpr ⟨type, others⟩⟩
      · exact Or.inr rest

/-- The unstructured policy of a node counts right, and its target follows the largest number of links
so far. -/
structure OnTarget (initial peak : Nat) (n : Node) : Prop where
  arranged : n.table.Arranged
  counted : n.Counted
  within : n.links .unstructured ≤ peak
  ratcheted : Ratcheted n.config.unstructured initial peak n.unstructured.desired

structure Advances (initial peak : Nat) (n m : Node) : Prop where
  target : OnTarget initial (max peak (m.links .unstructured)) m
  config : m.config = n.config
  desired : n.unstructured.desired ≤ m.unstructured.desired

private theorem advances_of_outlook (arranged : table.Arranged)
    (seen : m.outlook = ⟨table, n.config, desired, table.count .unstructured⟩)
    (ratcheted : Ratcheted n.config.unstructured initial (max peak (table.count .unstructured)) desired)
    (rises : n.unstructured.desired ≤ desired) : Advances initial peak n m := by
  obtain ⟨links, config, target, current⟩ := outlook_eq_iff.mp seen
  have count : m.links .unstructured = table.count .unstructured :=
    congrArg (·.count .unstructured) links
  refine ⟨⟨links ▸ arranged, ?_, Nat.le_max_right .., ?_⟩, config, target ▸ rises⟩
  · rw [Counted, current, links]
  · rw [config, target, count]
    exact ratcheted

private theorem OnTarget.advances (on : OnTarget initial peak n) (arranged : table.Arranged)
    (fewer : table.count .unstructured ≤ n.links .unstructured)
    (seen : m.outlook = ⟨table, n.config, n.unstructured.desired, table.count .unstructured⟩) :
    Advances initial peak n m := by
  refine advances_of_outlook arranged seen ?_ (Nat.le_refl _)
  rw [Nat.max_eq_left (Nat.le_trans fewer on.within)]
  exact on.ratcheted

private theorem OnTarget.advances_steady (on : OnTarget initial peak n) (steady : Steady n m) :
    Advances initial peak n m := by
  refine on.advances on.arranged (Nat.le_refl _) (steady.trans ?_)
  exact congrArg (Outlook.mk n.table n.config n.unstructured.desired) on.counted

private theorem OnTarget.advances_add (on : OnTarget initial peak n) (c : Connection) :
    Advances initial peak n (n.moveHeard (.step (.add c))) := by
  simp only [moveHeard, changes, move, step, addLink]
  cases taken : n.table.add c with
  | error reason => exact on.advances_steady rfl
  | ok table =>
    have count := ConnectionTable.count_add taken .unstructured
    have arranged := on.arranged.add taken
    have published := n.outlook_publish table [.connected c]
    simp only [List.foldl_cons, List.foldl_nil, hear] at published ⊢
    generalize { n with table }.publish (.connected c) = told at published ⊢
    obtain ⟨links, config, target, current⟩ := outlook_eq_iff.mp published
    by_cases type : c.mainType = .unstructured
    · rw [if_pos type] at count
      have risen : told.links .unstructured = n.links .unstructured + 1 := by
        rw [Node.links, links, count]
        rfl
      have heard := outlook_linkUp type told
      rw [links, config, risen] at heard
      refine advances_of_outlook arranged (heard.trans (by rw [count]; rfl)) ?_ ?_
      · rw [count]
        refine UnstructuredOverlord.ratcheted_linkUp (current.trans on.counted) on.within ?_ told.words
        rw [target]
        exact on.ratcheted
      · rw [← target]
        exact (UnstructuredOverlord.desired_linkUp_bounds ..).1
    · rw [if_neg type] at count
      have silent : told.linkUp c .unstructured = told := if_neg type
      rw [silent]
      refine on.advances arranged (Nat.le_of_eq count) ?_
      rw [published, on.counted, count]
      rfl

private theorem OnTarget.advances_removeEdge (on : OnTarget initial peak n) (e : EdgeId) :
    Advances initial peak n (n.moveHeard (.step (.removeEdge e))) := by
  have fewer := n.table.count_removeEdge_le e .unstructured
  have arranged : (n.table.removeEdge e).Arranged := on.arranged.removeEdge
  have published := n.outlook_publish (n.table.removeEdge e) ((n.table.detach e).1.map .disconnected)
  rw [List.foldl_map] at published
  change (n.removeLinks e).2.outlook = _ at published
  refine on.advances arranged fewer ?_
  simp only [moveHeard, changes, move, step]
  generalize (n.removeLinks e).2 = told at published ⊢
  obtain ⟨links, config, target, -⟩ := outlook_eq_iff.mp published
  rcases outlook_losses (n.table.detach e).1 told with ⟨heard, others⟩ | heard
  · have same : (n.table.removeEdge e).count .unstructured = n.table.count .unstructured := by
      refine (on.arranged.reported_detach e).count fun ev member => ?_
      obtain ⟨c, gone, rfl⟩ := List.mem_map.mp member
      exact others c gone
    rw [heard, published, on.counted, same]
  · rw [heard, links, config, target, Node.links, links]

theorem OnTarget.advances_moveHeard (on : OnTarget initial peak n) (m : NodeMove) :
    Advances initial peak n (n.moveHeard m) := by
  by_cases keeps : m.changesTable = false
  · have silent : n.moveHeard m = n.move m := by
      rw [moveHeard, changes_of_keeps n keeps]
      rfl
    rw [silent]
    refine on.advances_steady (level_routine.move n m ?_ on.counted)
    exact allows_of_steady (fun steady _ => steady) n keeps
  · unfold NodeMove.changesTable at keeps
    split at keeps
    · exact on.advances_add _
    · exact on.advances_removeEdge _
    · exact absurd rfl keeps

theorem OnTarget.heard (on : OnTarget initial peak n) (ms : List NodeMove) :
    OnTarget initial (max peak (n.mostLinks moveHeard ms)) (n.heard ms) ∧
      (n.heard ms).config = n.config ∧
      n.unstructured.desired ≤ (n.heard ms).unstructured.desired := by
  -- The peak so far is carried along; the rest of the run starts with the links that it counts.
  induction ms generalizing n peak with
  | nil =>
    have most : max peak (n.mostLinks moveHeard []) = peak := Nat.max_eq_left on.within
    rw [most]
    exact ⟨on, rfl, Nat.le_refl _⟩
  | cons m ms ih =>
    have first := on.advances_moveHeard m
    obtain ⟨last, config, desired⟩ := ih first.target
    have most : max (max peak ((n.moveHeard m).links .unstructured))
        ((n.moveHeard m).mostLinks moveHeard ms) = max peak (n.mostLinks moveHeard (m :: ms)) := by
      have passed := (n.moveHeard m).links_le_mostLinks moveHeard ms
      have within := on.within
      rw [mostLinks]
      omega
    rw [most] at last
    exact ⟨last, config.trans first.config, Nat.le_trans first.desired desired⟩

/-- Take a node without unstructured links whose unstructured policy has not been told anything. Let
whatever may happen to it, and the policy be told of every change of the table at once, and of links
that came up or went away before as often as may be. Then the policy counts right, its target never
falls, and it is the largest number of links so far or one more, but not less than at first. Where no
chance increments are made it is the largest number. So there are never more links than desired. -/
theorem target_follows_peak (table : n.table.Reachable) (unlinked : n.links .unstructured = 0)
    (unaware : n.unstructured.current = 0)
    (untouched : n.unstructured.desired = n.config.unstructured.initialDesired)
    (ms more : List NodeMove) :
    (n.heard ms).Counted ∧
    (n.heard ms).unstructured.desired ≤ (n.heard (ms ++ more)).unstructured.desired ∧
    max n.config.unstructured.initialDesired (n.mostLinks moveHeard ms) ≤
      (n.heard ms).unstructured.desired ∧
    (n.heard ms).unstructured.desired ≤
      max n.config.unstructured.initialDesired (n.mostLinks moveHeard ms + 1) ∧
    (n.config.unstructured.extraGrowthProbability.low = 0 → (n.heard ms).unstructured.desired =
      max n.config.unstructured.initialDesired (n.mostLinks moveHeard ms)) ∧
    (n.heard ms).unstructured.current ≤ (n.heard ms).unstructured.desired := by
  have start : OnTarget n.config.unstructured.initialDesired 0 n := by
    refine ⟨table.arranged, unaware.trans unlinked.symm, Nat.le_of_eq unlinked, ?_⟩
    rw [untouched]
    exact ⟨by omega, by omega, fun _ => by omega⟩
  obtain ⟨on, config, -⟩ := start.heard ms
  obtain ⟨-, -, rises⟩ := on.heard more
  have split : (n.heard ms).heard more = n.heard (ms ++ more) := List.foldl_append.symm
  obtain ⟨least, most, exact⟩ := on.ratcheted
  have counted : (n.heard ms).unstructured.current = (n.heard ms).links .unstructured := on.counted
  have within := on.within
  rw [split] at rises
  rw [config] at exact
  rw [Nat.zero_max] at least most exact within
  exact ⟨on.counted, rises, least, most, exact, by omega⟩

/-- A node that makes no chance increments. -/
def unhurried : Node :=
  create (.floor 2) { unstructured := { extraGrowthProbability := ⟨0⟩ } } .empty false

/-- Three links come up, one of them is lost, and the policy is told of another one again. -/
def comings : List NodeMove :=
  [.step (.add ⟨7, .floor 32, "unstructured", []⟩), .step (.add ⟨8, .floor 64, "unstructured", []⟩),
    .step (.add ⟨9, .floor 96, "unstructured", []⟩), .step (.removeEdge 8),
    .linkUp ⟨7, .floor 32, "unstructured", []⟩ .unstructured]

theorem target_follows_peak_unhurried : unhurried.mostLinks moveHeard comings = 3 ∧
    (unhurried.heard comings).unstructured.desired = 3 ∧
    (unhurried.heard comings).unstructured.current ≤ 3 := by
  have peak : unhurried.mostLinks moveHeard comings = 3 := by decide +kernel
  obtain ⟨-, -, -, -, exact, within⟩ :=
    target_follows_peak (n := unhurried) ⟨[], rfl⟩ rfl rfl rfl comings []
  have desired : (unhurried.heard comings).unstructured.desired = 3 := by
    rw [exact (by decide), peak]
    rfl
  exact ⟨peak, desired, desired ▸ within⟩

end

end RingOverlay.Node

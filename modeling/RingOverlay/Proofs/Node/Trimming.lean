import RingOverlay.Node.Closing
import RingOverlay.Proofs.Config.Loading
import RingOverlay.Proofs.Node.Pacing
import RingOverlay.Proofs.Routing.Wandering
/-!
When the leaf policy closes a link that came up in addition to enough others. The number of links up to
which it closes none is twice the desired number. If that does not fit a 64-bit word, the policy breaks
off, and neither closes a link nor seeks one.
-/

set_option autoImplicit false
set_option relaxedAutoImplicit false

namespace RingOverlay

section

variable {cfg : LeafConfig} {leafs : RingView} {newest : EdgeId} {ws rest : Words} {d : Connection}

theorem LeafConfig.quota?_eq_none_iff : cfg.quota? = none ↔ 2 ^ 63 ≤ cfg.desired := by
  have size : UInt64.size = 2 ^ 64 := rfl
  rw [quota?, size, ite_eq_right_iff]
  simp only [reduceCtorEq, imp_false]
  omega

theorem LeafConfig.quota?_eq_some (small : cfg.desired < 2 ^ 63) :
    cfg.quota? = some (2 * cfg.desired) := by
  have size : UInt64.size = 2 ^ 64 := rfl
  rw [quota?, size, if_pos (by omega)]

theorem LeafOverlord.mem_of_victim (chosen : victim cfg leafs newest ws = some (some d, rest)) :
    d ∈ leafs.connections ∧ d.edge ≠ newest := by
  obtain ⟨quota, -, chosen⟩ := Option.map_eq_some_iff.mp chosen
  split at chosen
  case isTrue => cases chosen
  case isFalse =>
    obtain ⟨among, away⟩ := RingView.mem_avoiding.mp (RingView.mem_of_random (congrArg Prod.fst chosen))
    exact ⟨among, fun same => away (congrArg some same)⟩

theorem LeafOverlord.exists_victim_iff (cfg : LeafConfig) (leafs : RingView) (newest : EdgeId)
    (ws : Words) : (∃ d rest, victim cfg leafs newest ws = some (some d, rest)) ↔
      (∃ quota ∈ cfg.quota?, quota < leafs.size) ∧ ∃ d ∈ leafs.connections, d.edge ≠ newest := by
  constructor
  · rintro ⟨d, rest, chosen⟩
    obtain ⟨among, away⟩ := mem_of_victim chosen
    obtain ⟨quota, known, chosen⟩ := Option.map_eq_some_iff.mp chosen
    refine ⟨⟨quota, known, ?_⟩, d, among, away⟩
    by_contra few
    rw [if_pos (Nat.not_lt.mp few)] at chosen
    cases chosen
  · rintro ⟨⟨quota, known, many⟩, d, among, away⟩
    have candidate : d ∈ leafs.avoiding (some newest) :=
      RingView.mem_avoiding.mpr ⟨among, fun same => away (Option.some.inj same)⟩
    obtain ⟨e, -, chosen⟩ := Words.exists_choose (List.ne_nil_of_mem candidate) ws
    refine ⟨e, (leafs.random (some newest) ws).2, ?_⟩
    rw [victim, Option.mem_def.mp known, Option.map_some, if_neg (Nat.not_le.mpr many)]
    exact congrArg some (Prod.ext chosen rfl)

end

namespace Node

section

variable {n : Node} {c : Connection} {k : Nat}

/-- To seek a link is to ask for links, and for nothing else. -/
theorem exists_told_activateLeaf (n : Node) :
    ∃ told, n.activateLeaf.actions = n.actions ++ told ∧ ∀ a ∈ told, a.isLink = true := by
  rcases activateLeaf_cases n with ⟨-, same⟩ | ⟨-, same | ⟨words, r, same⟩⟩ <;> rw [same]
  · exact ⟨[], (List.append_nil _).symm, nofun⟩
  · exact ⟨[], (List.append_nil _).symm, nofun⟩
  · refine ⟨[.link n.created r], rfl, fun a member => ?_⟩
    rw [List.mem_singleton.mp member]
    rfl

theorem closedSince_activateLeaf (n : Node) (k : Nat) :
    n.activateLeaf.closedSince k = n.closedSince k := by
  obtain ⟨told, actions, links⟩ := n.exists_told_activateLeaf
  have nothing : (told.drop (k - n.actions.length)).filterMap (·.closed?) = [] := by
    refine List.filterMap_eq_nil_iff.mpr fun a member => ?_
    have link := links a (List.mem_of_mem_drop member)
    cases a with
    | link => rfl
    | invoke | close | query | handed | report | overflow => cases link
  rw [closedSince, actions, List.drop_append, List.filterMap_append, nothing, List.append_nil,
    closedSince]

theorem closedSince_trimLeafs (n : Node) (newest : EdgeId) :
    (n.trimLeafs newest).2.closedSince n.actions.length =
      ((LeafOverlord.victim n.config.leaf (n.table.view .leaf) newest n.words).bind
        (·.1.map (·.edge))).toList := by
  unfold trimLeafs
  rcases LeafOverlord.victim n.config.leaf (n.table.view .leaf) newest n.words with
    _ | ⟨_ | c, words⟩ <;> simp [closedSince, act, NodeAction.closed?]

theorem closedSince_linkUp (type : c.mainType = .leaf) :
    (n.linkUp c .leaf).closedSince n.actions.length =
      ((LeafOverlord.victim n.config.leaf (n.table.view .leaf) c.edge n.words).bind
        (·.1.map (·.edge))).toList := by
  have trimmed := closedSince_trimLeafs { n with leaf := n.leaf.resetBackoff n.config.leaf } c.edge
  simp only [linkUp, if_pos type]
  split
  · rw [closedSince_activateLeaf]
    exact trimmed
  · exact trimmed

theorem closedSince_linkUp_ne_nil_iff (type : c.mainType = .leaf) :
    (n.linkUp c .leaf).closedSince n.actions.length ≠ [] ↔
      (∃ quota ∈ n.config.leaf.quota?, quota < (n.table.view .leaf).size) ∧
        ∃ d ∈ (n.table.view .leaf).connections, d.edge ≠ c.edge := by
  rw [closedSince_linkUp type, ← LeafOverlord.exists_victim_iff]
  rcases LeafOverlord.victim n.config.leaf (n.table.view .leaf) c.edge n.words with
    _ | ⟨_ | d, rest⟩ <;> simp

theorem overflow_mem_activateLeaf (n : Node) (k : Nat) :
    .overflow ∈ n.activateLeaf.actions.drop k ↔ .overflow ∈ n.actions.drop k := by
  obtain ⟨told, actions, links⟩ := n.exists_told_activateLeaf
  have other : .overflow ∉ told.drop (k - n.actions.length) := by
    intro member
    cases links _ (List.mem_of_mem_drop member)
  rw [actions, List.drop_append, List.mem_append, or_iff_left other]

/-- A policy that cannot tell how many links are too many forgets the pause, and breaks off. -/
theorem linkUp_of_overflow (type : c.mainType = .leaf) (large : 2 ^ 63 ≤ n.config.leaf.desired) :
    n.linkUp c .leaf =
      { n with leaf := n.leaf.resetBackoff n.config.leaf }.act .overflow := by
  have unknown := LeafConfig.quota?_eq_none_iff.mpr large
  simp [linkUp, type, trimLeafs, LeafOverlord.victim, unknown]

theorem overflow_mem_linkUp_iff (type : c.mainType = .leaf) :
    .overflow ∈ (n.linkUp c .leaf).actions.drop n.actions.length ↔ 2 ^ 63 ≤ n.config.leaf.desired := by
  by_cases large : 2 ^ 63 ≤ n.config.leaf.desired
  · rw [linkUp_of_overflow type large]
    exact iff_of_true (by simp [act]) large
  · have quota := LeafConfig.quota?_eq_some (Nat.not_le.mp large)
    refine iff_of_false ?_ large
    simp only [linkUp, if_pos type, trimLeafs, LeafOverlord.victim, quota, Option.map_some]
    split
    case h_1 => simp [overflow_mem_activateLeaf, act]
    case h_2 => simp [overflow_mem_activateLeaf]
    case h_3 unknown => cases unknown

/-- Take a node with a configuration that was loaded, with whatever links calls have led to, and tell
its leaf policy of a leaf link that came up. The number of leaf links that is desired fits 64 bits. If it
is below `2 ^ 63`, nothing overflows, and a link is closed exactly if there are more than twice as many
and one of them is on another edge. Otherwise the double overflows, and the policy breaks off there: it
has forgotten the pause, and neither closes a link nor seeks one. What is closed is always one leaf link
of the table, on another edge than the new one. -/
theorem leaf_closed_above_quota {file : ConfigFile} {env : Environment} {cfg : OverlayConfig}
    (loaded : OverlayConfig.load file env = .ok cfg) (n : Node) (configured : n.config = cfg)
    (reachable : n.table.Reachable) (c : Connection) (type : c.mainType = .leaf) :
    let desired := cfg.leaf.desired
    let leafs := (n.table.view .leaf).connections
    let heard := n.linkUp c .leaf
    let closed := heard.closedSince n.actions.length
    desired < 2 ^ 64 ∧
    (.overflow ∈ heard.actions.drop n.actions.length ↔ 2 ^ 63 ≤ desired) ∧
    (desired < 2 ^ 63 →
      (closed ≠ [] ↔ 2 * desired < leafs.length ∧ ∃ d ∈ leafs, d.edge ≠ c.edge)) ∧
    (2 ^ 63 ≤ desired → heard = { n with leaf := n.leaf.resetBackoff cfg.leaf }.act .overflow) ∧
    (closed ≠ [] → ∃ d ∈ leafs, d.edge ≠ c.edge ∧ closed = [d.edge] ∧
      ∀ e ∈ leafs, e.edge = d.edge → e = d) := by
  intro desired leafs heard closed
  subst configured
  have fits : desired < UInt64.size := OverlayConfig.load_desired_lt loaded
  have closes := closedSince_linkUp_ne_nil_iff (n := n) type
  refine ⟨fits, overflow_mem_linkUp_iff type, fun small => ?_, linkUp_of_overflow type,
    fun some_closed => ?_⟩
  · have quota := LeafConfig.quota?_eq_some small
    rw [closes, quota]
    simp [leafs, RingView.size, desired]
  · obtain ⟨d, rest, chosen⟩ :=
      (LeafOverlord.exists_victim_iff n.config.leaf _ c.edge n.words).mpr (closes.mp some_closed)
    obtain ⟨among, away⟩ := LeafOverlord.mem_of_victim chosen
    refine ⟨d, among, away, ?_, fun e he same => ?_⟩
    · exact (closedSince_linkUp type).trans (by rw [chosen]; rfl)
    · exact List.inj_on_of_nodup_map (reachable.arranged .leaf).edges he among same

def threeLeafs : List TableCall :=
  [.add ⟨10, .floor 20, "leaf", []⟩, .add ⟨11, .floor 22, "leaf", []⟩, .add ⟨12, .floor 24, "leaf", []⟩]

theorem leaf_closed_above_quota_three :
    let n := bare (.floor 2) { leaf := { desired := 1 } } (ConnectionTable.after threeLeafs)
    let closed := (n.linkUp ⟨12, .floor 24, "leaf", []⟩ .leaf).closedSince n.actions.length
    OverlayConfig.load .absent [("RINGMESH_LEAF__DESIRED", "1")] = .ok n.config ∧
    (closed = [10] ∨ closed = [11]) := by
  intro n closed
  have loaded : OverlayConfig.load .absent [("RINGMESH_LEAF__DESIRED", "1")] = .ok n.config := by
    decide +kernel
  obtain ⟨-, -, closes, -, one⟩ := leaf_closed_above_quota loaded n rfl ⟨_, rfl⟩
    ⟨12, .floor 24, "leaf", []⟩ (by decide)
  have leafs : (n.table.view .leaf).connections.map (·.edge) = [10, 11, 12] := by decide +kernel
  have many : ∃ d ∈ (n.table.view .leaf).connections, d.edge ≠ 12 := by decide +kernel
  have length : (n.table.view .leaf).connections.length = 3 := by decide +kernel
  obtain ⟨d, among, away, same, -⟩ :=
    one ((closes (by decide)).mpr ⟨by rw [length]; decide, many⟩)
  have edge : d.edge ∈ [10, 11, 12] := leafs ▸ List.mem_map_of_mem among
  refine ⟨loaded, ?_⟩
  change closed = [d.edge] at same
  rw [same]
  simp only [List.mem_cons, List.not_mem_nil, or_false] at edge
  rcases edge with h | h | h
  · exact Or.inl (congrArg (fun e => [e]) h)
  · exact Or.inr (congrArg (fun e => [e]) h)
  · exact absurd h away

/-- Where `2 ^ 63` leaf links are desired, the second one makes the policy break off, although there are
not too many and it wants more. -/
theorem leaf_quota_overflows :
    let n := bare (.floor 2) { leaf := { desired := 2 ^ 63 } } (ConnectionTable.after (threeLeafs.take 2))
    OverlayConfig.load .absent [("RINGMESH_LEAF__DESIRED", "9223372036854775808")] = .ok n.config ∧
    n.links .leaf = 2 ∧ ¬ 2 * n.config.leaf.desired < n.links .leaf ∧ n.needs .leaf = true ∧
    (n.linkUp ⟨11, .floor 22, "leaf", []⟩ .leaf).actions = [.overflow] := by
  refine ⟨by decide +kernel, by decide +kernel, by decide +kernel, by decide +kernel, ?_⟩
  rw [linkUp_of_overflow (by decide) (Nat.le_refl _)]
  rfl

end

end Node

end RingOverlay

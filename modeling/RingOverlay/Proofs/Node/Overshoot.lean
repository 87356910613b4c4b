import RingOverlay.Proofs.Node.Lateness
import RingOverlay.Proofs.Node.Trimming
/-!
The number of leaf links where edges are closed at once. The leaf policy closes at most one link for
each that came up, and only when it reads of that; so there are never more links too many than news
of links it has not read.
-/

set_option autoImplicit false
set_option relaxedAutoImplicit false

namespace RingOverlay

/-- The number of leaf links beyond which the policy closes one. A single link is never closed. -/
def LeafConfig.ceiling (cfg : LeafConfig) : Nat := max (2 * cfg.desired) 1

namespace ConnectionTable

variable {t : ConnectionTable} {k : MainType} {c : Connection} {es : List EdgeId}

theorem count_removeEdges_le (t : ConnectionTable) (es : List EdgeId) (k : MainType) :
    (es.foldl removeEdge t).count k ≤ t.count k := by
  induction es generalizing t with
  | nil => exact Nat.le_refl _
  | cons e es ih => exact (ih _).trans (t.count_removeEdge_le e k)

theorem count_removeEdges_lt (member : c ∈ (t.view k).connections) (closed : c.edge ∈ es) :
    (es.foldl removeEdge t).count k < t.count k := by
  induction es generalizing t with
  | nil => cases closed
  | cons e es ih =>
    by_cases here : c.edge = e
    · refine Nat.lt_of_le_of_lt (count_removeEdges_le _ es k) ?_
      rw [count, view_removeEdge, RingView.size, RingView.detach_snd_connections]
      exact List.length_filter_lt_length_iff_exists.mpr ⟨c, member, by simp [here]⟩
    · have later := (List.mem_cons.mp closed).resolve_left here
      have still : c ∈ ((t.removeEdge e).view k).connections := by
        rw [view_removeEdge]
        exact RingView.mem_detach.mpr ⟨member, here⟩
      exact Nat.lt_of_lt_of_le (ih still later) (t.count_removeEdge_le e k)

end ConnectionTable

namespace Node

structure AsksOn (n m : Node) : Prop where
  table : m.table = n.table
  config : m.config = n.config
  asked : n.actions <+: m.actions

structure LeafWatch (cfg : LeafConfig) (n : Node) (loop : TaskId) (l : LoopTask) : Prop where
  arranged : n.table.Arranged
  driven : n.DrivenBy loop l
  started : l.started = true
  leafs : .leaf ∈ n.overlords
  config : n.config.leaf = cfg

/-- Whether a loop has lost no event by the end of any of several steps. -/
def losesNothing (n : Node) (loop : TaskId) : List NodeStep → Bool
  | [] => true
  | s :: steps =>
    (((n.stepClosing s).task? loop).bind feed?).all (·.missed == 0) &&
      (n.stepClosing s).losesNothing loop steps

section

variable {n m : Node} {cfg : LeafConfig} {loop : TaskId} {l : LoopTask} {c : Connection} {e : EdgeId}
  {s : NodeStep} {k : Nat}

theorem asksOn_routine : CountingRoutine AsksOn where
  refl n := ⟨rfl, rfl, List.prefix_refl _⟩
  trans first second :=
    ⟨second.table.trans first.table, second.config.trans first.config, first.asked.trans second.asked⟩
  aside {n m} same := by
    have table : m.core.table = n.core.table := congrArg Node.table same
    have config : m.core.config = n.core.config := congrArg Node.config same
    have actions : m.core.actions = n.core.actions := congrArg Node.actions same
    exact ⟨table, config, actions ▸ List.prefix_refl _⟩
  act n _ _ := ⟨rfl, rfl, List.prefix_append ..⟩
  spawnResting n _ _ := ⟨rfl, rfl, List.prefix_refl _⟩
  setTask n _ _ _ _ _ _ := ⟨rfl, rfl, List.prefix_refl _⟩
  setIdle n _ _ _ := ⟨rfl, rfl, List.prefix_refl _⟩
  endTask n _ := ⟨rfl, rfl, List.prefix_refl _⟩
  attend n _ _ _ := ⟨rfl, rfl, List.prefix_refl _⟩
  mark n _ _ := ⟨rfl, rfl, List.prefix_refl _⟩
  seek n _ _ := ⟨rfl, rfl, List.prefix_refl _⟩
  recount n := ⟨rfl, rfl, List.prefix_refl _⟩
  rise n := ⟨rfl, rfl, List.prefix_refl _⟩

theorem AsksOn.mem_closedSince (asksOn : AsksOn n m) (closed : e ∈ n.closedSince k) :
    e ∈ m.closedSince k := by
  obtain ⟨more, actions⟩ := asksOn.asked
  rw [closedSince, ← actions, List.drop_append, List.filterMap_append]
  exact List.mem_append_left _ closed

theorem mem_closedSince_of_le {before : Nat} (le : before ≤ k) (closed : e ∈ n.closedSince k) :
    e ∈ n.closedSince before := by
  rw [closedSince, List.mem_filterMap] at closed ⊢
  obtain ⟨x, member, closes⟩ := closed
  refine ⟨x, List.mem_of_mem_drop (i := k - before) ?_, closes⟩
  rwa [List.drop_drop, Nat.add_sub_cancel' le]

theorem exists_trimLeafs (arranged : n.table.Arranged) (two : 2 ≤ n.links .leaf)
    (many : ∃ quota ∈ n.config.leaf.quota?, quota < n.links .leaf) (newest : EdgeId) :
    ∃ c ∈ (n.table.view .leaf).connections,
      c.edge ∈ (n.trimLeafs newest).2.closedSince n.actions.length := by
  obtain ⟨c, member⟩ := List.exists_mem_of_ne_nil _
    ((arranged .leaf).avoiding_ne_nil two (some newest))
  obtain ⟨among, away⟩ := RingView.mem_avoiding.mp member
  obtain ⟨d, rest, chosen⟩ := (LeafOverlord.exists_victim_iff n.config.leaf _ newest n.words).mpr
    ⟨many, c, among, fun same => away (congrArg some same)⟩
  refine ⟨d, (LeafOverlord.mem_of_victim chosen).1, ?_⟩
  rw [closedSince_trimLeafs, chosen]
  exact List.mem_singleton_self d.edge

theorem exists_closed (arranged : n.table.Arranged) (leafs : .leaf ∈ n.overlords)
    (two : 2 ≤ n.links .leaf) (many : ∃ quota ∈ n.config.leaf.quota?, quota < n.links .leaf)
    (type : c.mainType = .leaf) :
    ∃ d ∈ (n.table.view .leaf).connections,
      d.edge ∈ (n.handleEvent (.connected c)).closedSince n.actions.length := by
  obtain ⟨before, after, split⟩ := List.append_of_mem leafs
  rw [handleEvent_eq, split, List.foldl_append, List.foldl_cons]
  have first : AsksOn n (before.foldl (hear (.connected c)) n) :=
    asksOn_routine.foldl (asksOn_routine.hear (.connected c)) before n
  have last (m : Node) : AsksOn m (after.foldl (hear (.connected c)) m) :=
    asksOn_routine.foldl (asksOn_routine.hear (.connected c)) after m
  generalize before.foldl (hear (.connected c)) n = m at first ⊢
  obtain ⟨table, config, asked⟩ := first
  let reset : Node := { m with leaf := m.leaf.resetBackoff m.config.leaf }
  obtain ⟨d, member, closed⟩ := exists_trimLeafs (n := reset) (table ▸ arranged)
    (by rwa [links, table]) (by rwa [links, table, config]) c.edge
  have asks : AsksOn (reset.trimLeafs c.edge).2 (hear (.connected c) m .leaf) := by
    simp only [hear, linkUp, if_pos type]
    split
    · exact asksOn_routine.activateLeaf _
    · exact asksOn_routine.refl _
  refine ⟨d, table ▸ member, (last _).mem_closedSince (asks.mem_closedSince ?_)⟩
  exact mem_closedSince_of_le asked.length_le closed

theorem activateLeaf_of_enough (enough : n.config.leaf.desired ≤ n.links .leaf) :
    n.activateLeaf = n := by
  have content : LeafOverlord.needs n.config.leaf (n.links .leaf) = false := by
    simpa [LeafOverlord.needs] using enough
  simp [activateLeaf, LeafOverlord.activate, content]

private theorem asksOn_removeEdge (n : Node) (e : EdgeId) :
    AsksOn { n with table := n.table.removeEdge e } (n.step (.removeEdge e)) :=
  asksOn_routine.foldl (fun m c => asksOn_routine.publish m (.disconnected c)) (n.table.detach e).1 _

private theorem le_links_step_removeEdge (arranged : n.table.Arranged) (e : EdgeId) :
    n.links .leaf ≤ (n.step (.removeEdge e)).links .leaf + 1 := by
  have gone : ((n.table.view .leaf).connections.filter (·.edge == e)).length ≤ 1 := by
    have once := List.nodup_iff_count_le_one.mp (arranged .leaf).edges e
    rwa [List.count_eq_countP, List.countP_map, List.countP_eq_length_filter] at once
  have parts := (n.table.view .leaf).connections.length_eq_length_filter_add (·.edge == e)
  rw [links, links, (asksOn_removeEdge n e).table, ConnectionTable.count, ConnectionTable.count,
    ConnectionTable.view_removeEdge, RingView.size, RingView.size, RingView.detach_snd_connections]
  omega

/-- Whether the closer acts before the leaf policy seeks another link or after that makes no
difference: a policy that closes a link seeks none. -/
theorem seeks_after_closing (arranged : n.table.Arranged) (small : n.config.leaf.desired < 2 ^ 63)
    (newest : EdgeId) :
    let trimmed := (n.trimLeafs newest).2
    let closes := (trimmed.closedSince n.actions.length).map NodeStep.removeEdge
    trimmed.activateLeaf.after closes = (trimmed.after closes).activateLeaf := by
  intro trimmed closes
  have quota := LeafConfig.quota?_eq_some small
  rcases victim : LeafOverlord.victim n.config.leaf (n.table.view .leaf) newest n.words with
    _ | ⟨_ | c, words⟩
  · simp [LeafOverlord.victim, quota] at victim
  · have nothing : closes = [] := by simp [closes, trimmed, closedSince_trimLeafs, victim]
    rw [nothing]
    rfl
  · have one : closes = [.removeEdge c.edge] := by
      simp [closes, trimmed, closedSince_trimLeafs, victim]
    obtain ⟨⟨_, known, many⟩, -⟩ :=
      (LeafOverlord.exists_victim_iff n.config.leaf _ newest n.words).mp ⟨c, words, victim⟩
    obtain rfl := Option.some.inj (quota.symm.trans known)
    change 2 * n.config.leaf.desired < n.links .leaf at many
    obtain ⟨table, config, -⟩ := asksOn_routine.trimLeafs n newest
    rw [one]
    change trimmed.table = n.table at table
    change trimmed.config = n.config at config
    generalize trimmed = m at table config
    have links : m.links .leaf = n.links .leaf := by rw [Node.links, Node.links, table]
    have left := le_links_step_removeEdge (n := m) (table ▸ arranged) c.edge
    have closed : (m.step (.removeEdge c.edge)).config = n.config := by
      rw [(asksOn_removeEdge m c.edge).config]
      exact config
    have before : m.activateLeaf = m := activateLeaf_of_enough (by rw [config]; omega)
    have later : (m.step (.removeEdge c.edge)).activateLeaf = m.step (.removeEdge c.edge) :=
      activateLeaf_of_enough (by rw [closed]; omega)
    rw [before]
    exact later.symm

theorem LeafWatch.published {table : ConnectionTable} (watch : LeafWatch cfg n loop l)
    (arranged : table.Arranged) (es : List TableEvent) :
    ∃ l', LeafWatch cfg (es.foldl publish { n with table }) loop l' ∧
      (es.foldl publish { n with table }).table = table ∧
      (l'.feed.missed = 0 → l.feed.missed = 0 ∧
        newLinks .leaf l'.feed.unread = newLinks .leaf l.feed.unread + newLinks .leaf es) := by
  have driven : { n with table }.DrivenBy loop l := ⟨watch.driven.only, watch.driven.numbered⟩
  obtain ⟨drives, same, overlords, -, -⟩ := driven.publish_all watch.started es
  have told : AsksOn { n with table } (es.foldl publish { n with table }) :=
    asksOn_routine.foldl asksOn_routine.publish es _
  refine ⟨_, ⟨same ▸ arranged, drives, watch.started, ?_, ?_⟩, same, fun whole => ?_⟩
  · rw [overlords]
    exact watch.leafs
  · rw [told.config]
    exact watch.config
  · obtain ⟨before, unread⟩ := EventFeed.foldl_push es whole
    refine ⟨before, ?_⟩
    rw [unread]
    exact newLinks_append ..

theorem LeafWatch.removeEdges (watch : LeafWatch cfg n loop l) (es : List EdgeId) :
    ∃ l', LeafWatch cfg (n.after (es.map .removeEdge)) loop l' ∧
      (n.after (es.map .removeEdge)).table = es.foldl ConnectionTable.removeEdge n.table ∧
      (l'.feed.missed = 0 → l.feed.missed = 0 ∧
        newLinks .leaf l'.feed.unread = newLinks .leaf l.feed.unread) := by
  induction es generalizing n l with
  | nil => exact ⟨l, watch, rfl, fun whole => ⟨whole, rfl⟩⟩
  | cons e es ih =>
    let lost : List TableEvent := (n.table.detach e).1.map .disconnected
    have removed : n.step (.removeEdge e) =
        lost.foldl publish { n with table := n.table.removeEdge e } := by
      rw [List.foldl_map]
      rfl
    have none_up : newLinks .leaf lost = 0 := by
      refine List.countP_eq_zero.mpr fun event member => ?_
      obtain ⟨c, -, rfl⟩ := List.mem_map.mp member
      simp [TableEvent.isUp]
    obtain ⟨l₁, watched, table, read⟩ := watch.published watch.arranged.removeEdge lost
    rw [← removed] at watched table
    obtain ⟨l₂, last, gone, rest⟩ := ih watched
    refine ⟨l₂, last, ?_, fun whole => ?_⟩
    · rw [table] at gone
      exact gone
    · obtain ⟨half, same⟩ := rest whole
      obtain ⟨before, sum⟩ := read half
      exact ⟨before, by rw [same, sum, none_up, Nat.add_zero]⟩

/-- The difference between the leaf links and the news of such links that are unread has not risen, or
one was read and a leaf link is to be closed if there are too many. -/
def Kept (cfg : LeafConfig) (unread unread' : List TableEvent) (n m : Node) : Prop :=
  m.links .leaf + newLinks .leaf unread ≤ n.links .leaf + newLinks .leaf unread' ∨
  m.table = n.table ∧ newLinks .leaf unread = newLinks .leaf unread' + 1 ∧
    (2 ≤ n.links .leaf → (∃ quota ∈ cfg.quota?, quota < n.links .leaf) →
      ∃ c ∈ (n.table.view .leaf).connections, c.edge ∈ m.closedSince n.actions.length)

theorem LeafWatch.reads (watch : LeafWatch cfg n loop l) (whole : l.feed.missed = 0) :
    ∃ l', LeafWatch cfg (n.step (.read loop)) loop l' ∧
      Kept cfg l.feed.unread l'.feed.unread n (n.step (.read loop)) := by
  simp only [Node.step, readNext, watch.driven.task?]
  cases next : l.feed.next? with
  | none => exact ⟨l, watch, Or.inl (Nat.le_refl _)⟩
  | some head =>
    obtain ⟨item, feed⟩ := head
    obtain ⟨e, rfl, unread⟩ := EventFeed.next?_of_whole whole next
    let set : Node := n.setTask loop (.drive { l with feed })
    have follows : Follows loop e.word set (set.handleEvent e) := follows_handleEvent set e
    have asks : AsksOn set (set.handleEvent e) := asksOn_routine.handleEvent set e
    have table : (set.handleEvent e).table = n.table := follows.table
    refine ⟨{ l with feed }, ⟨table ▸ watch.arranged, follows.driven _ (watch.driven.setLoop _),
      watch.started, ?_, ?_⟩, ?_⟩
    · rw [follows.overlords]
      exact watch.leafs
    · rw [asks.config]
      exact watch.config
    rw [Kept, unread, newLinks_cons]
    by_cases news : e.isUp ∧ e.link.mainType = .leaf
    · rw [if_pos news]
      refine Or.inr ⟨table, rfl, fun two many => ?_⟩
      cases e with
      | disconnected c => exact absurd news.1 Bool.false_ne_true
      | connected c =>
        exact exists_closed (n := set) watch.arranged watch.leafs two (watch.config.symm ▸ many)
          news.2
    · rw [if_neg news, links, table]
      exact Or.inl (Nat.le_refl _)

theorem LeafWatch.step (watch : LeafWatch cfg n loop l) (whole : l.feed.missed = 0)
    (itemwise : s ≠ .poll loop) : ∃ l', LeafWatch cfg (n.step s) loop l' ∧
      (l'.feed.missed = 0 → Kept cfg l.feed.unread l'.feed.unread n (n.step s)) := by
  by_cases quiet : s.leavesFeed loop = true
  · have follows : Follows loop (fun _ => none) n (n.step s) := follows_step watch.driven quiet
    refine ⟨l, ⟨follows.table ▸ watch.arranged, follows.driven l watch.driven, watch.started,
      follows.overlords ▸ watch.leafs, ?_⟩, fun _ => Or.inl ?_⟩
    · rw [(steady_step watch.driven quiet).config]
      exact watch.config
    · rw [links, follows.table]
      exact Nat.le_refl _
  have changed (changes : (NodeMove.step s).changesTable = true) :
      ∃ l', LeafWatch cfg (n.step s) loop l' ∧ (l'.feed.missed = 0 →
        (n.step s).links .leaf + newLinks .leaf l.feed.unread ≤
          n.links .leaf + newLinks .leaf l'.feed.unread) := by
    obtain ⟨table, es, told, arranged, -, more⟩ := exists_reported watch.arranged changes
    obtain ⟨l', watched, same, read⟩ := watch.published arranged es
    rw [told]
    refine ⟨l', watched, fun whole => ?_⟩
    obtain ⟨-, sum⟩ := read whole
    have bound := more .leaf
    rw [links, links, same, sum]
    omega
  cases s with
  | add | removeEdge =>
    obtain ⟨l', watched, more⟩ := changed rfl
    exact ⟨l', watched, fun whole => Or.inl (more whole)⟩
  | read id =>
    obtain rfl : id = loop := by simpa [NodeStep.leavesFeed] using quiet
    obtain ⟨l', watched, kept⟩ := watch.reads whole
    exact ⟨l', watched, fun _ => kept⟩
  | poll id =>
    obtain rfl : id = loop := by simpa [NodeStep.leavesFeed] using quiet
    exact absurd rfl itemwise
  | _ => exact absurd rfl quiet

theorem LeafWatch.stepClosing (small : cfg.desired < 2 ^ 63) (watch : LeafWatch cfg n loop l)
    (whole : l.feed.missed = 0) (itemwise : s ≠ .poll loop)
    (within : n.links .leaf ≤ cfg.ceiling + newLinks .leaf l.feed.unread) :
    ∃ l', LeafWatch cfg (n.stepClosing s) loop l' ∧ (l'.feed.missed = 0 →
      (n.stepClosing s).links .leaf ≤ cfg.ceiling + newLinks .leaf l'.feed.unread) := by
  obtain ⟨l₁, stepped, kept⟩ := watch.step whole itemwise
  obtain ⟨l₂, closed, table, rest⟩ := stepped.removeEdges ((n.step s).closedSince n.actions.length)
  have fewer : (n.stepClosing s).links .leaf ≤ (n.step s).links .leaf := by
    rw [links, links, Node.stepClosing, table]
    exact ConnectionTable.count_removeEdges_le ..
  refine ⟨l₂, closed, fun whole => ?_⟩
  obtain ⟨whole, unread⟩ := rest whole
  rw [unread]
  rcases kept whole with still | ⟨same, read, closes⟩
  · omega
  have stays : (n.step s).links .leaf = n.links .leaf := by rw [links, links, same]
  by_cases few : n.links .leaf ≤ cfg.ceiling + newLinks .leaf l₁.feed.unread
  · omega
  -- There are too many links, so one of those in the table was closed.
  have many : 2 ≤ n.links .leaf ∧ 2 * cfg.desired < n.links .leaf := by
    unfold LeafConfig.ceiling at few
    omega
  obtain ⟨c, member, asked⟩ := closes many.1 ⟨_, LeafConfig.quota?_eq_some small, many.2⟩
  have one_less : (n.stepClosing s).links .leaf < (n.step s).links .leaf := by
    rw [links, links, Node.stepClosing, table]
    exact ConnectionTable.count_removeEdges_lt (same ▸ member) asked
  omega

theorem LeafWatch.afterClosing (small : cfg.desired < 2 ^ 63) (watch : LeafWatch cfg n loop l)
    (whole : l.feed.missed = 0) (within : n.links .leaf ≤ cfg.ceiling + newLinks .leaf l.feed.unread)
    (steps : List NodeStep) (itemwise : ∀ s ∈ steps, s ≠ .poll loop)
    (lossless : n.losesNothing loop steps = true) :
    ∃ l', LeafWatch cfg (n.afterClosing steps) loop l' ∧
      (n.afterClosing steps).links .leaf ≤ cfg.ceiling + newLinks .leaf l'.feed.unread := by
  induction steps generalizing n l with
  | nil => exact ⟨l, watch, within⟩
  | cons s steps ih =>
    obtain ⟨l', next, bound⟩ := watch.stepClosing small whole (itemwise s List.mem_cons_self) within
    rw [losesNothing, next.driven.task?, Bool.and_eq_true] at lossless
    have whole : l'.feed.missed = 0 := beq_iff_eq.mp lossless.1
    exact ih next whole (bound whole) (fun t later => itemwise t (List.mem_cons_of_mem s later))
      lossless.2

/-- Take a node with the leaf policy that one loop drives, with at most twice as many leaf links as
desired, or one, and nothing unread. Let anything happen to it in any order, where the loop reads its
feed item by item and loses nothing, and let the edges that the node asks to be closed be removed at
once. Then there are never more leaf links beyond that number than news of leaf links that came up
and of which the loop has not read; so when it has read everything there are none beyond it. -/
theorem leaf_overshoot_bounded (table : n.table.Reachable) (leafs : .leaf ∈ n.overlords)
    (driven : n.DrivenBy loop l) (started : l.started = true) (fresh : l.feed = .fresh)
    (small : n.config.leaf.desired < 2 ^ 63)
    (within : n.links .leaf ≤ max (2 * n.config.leaf.desired) 1) (steps : List NodeStep)
    (itemwise : ∀ s ∈ steps, s ≠ .poll loop) (lossless : n.losesNothing loop steps = true) :
    ∃ l', (n.afterClosing steps).DrivenBy loop l' ∧
      (n.afterClosing steps).links .leaf ≤
        max (2 * n.config.leaf.desired) 1 + newLinks .leaf l'.feed.unread ∧
      (l'.feed.unread = [] →
        (n.afterClosing steps).links .leaf ≤ max (2 * n.config.leaf.desired) 1) := by
  have watch : LeafWatch n.config.leaf n loop l := ⟨table.arranged, driven, started, leafs, rfl⟩
  have whole : l.feed.missed = 0 := by rw [fresh]; rfl
  obtain ⟨l', watched, bound⟩ := watch.afterClosing small whole (Nat.le_add_right_of_le within) steps
    itemwise lossless
  refine ⟨l', watched.driven, bound, fun read => ?_⟩
  rw [read] at bound
  exact bound

/-- A node that wants one leaf link and whose loop has just started. -/
def popular : Node :=
  { bare (.floor 2) { leaf := { desired := 1 } } .empty with
    overlords := [.leaf]
    tasks := [(0, .drive ⟨true, .fresh, 0, false⟩)]
    created := 1 }

/-- Four leaf links come up before the loop reads of the first one. -/
def rush : List NodeStep :=
  [.add ⟨7, .floor 32, "leaf", []⟩, .add ⟨8, .floor 64, "leaf", []⟩, .add ⟨9, .floor 96, "leaf", []⟩,
    .add ⟨10, .floor 128, "leaf", []⟩] ++ List.replicate 6 (.read 0)

theorem leaf_overshoot_popular : (popular.afterClosing (rush.take 4)).links .leaf = 4 ∧
    (popular.afterClosing rush).links .leaf ≤ 2 ∧ (popular.afterClosing rush).actions.length = 2 := by
  have driven : popular.DrivenBy 0 ⟨true, .fresh, 0, false⟩ := ⟨rfl, by decide⟩
  have itemwise : ∀ s ∈ rush, s ≠ .poll 0 := by simp [rush]
  obtain ⟨l', driven', -, settled⟩ := leaf_overshoot_bounded (n := popular) ⟨[], rfl⟩ (by decide)
    driven rfl rfl (by decide) (by decide) rush itemwise (by decide +kernel)
  have read : ((popular.afterClosing rush).task? 0).bind feed? = some .fresh := by decide +kernel
  rw [driven'.task?] at read
  have unread : l'.feed = .fresh := Option.some.inj read
  exact ⟨by decide +kernel, settled (by rw [unread]; rfl), by decide +kernel⟩

end

end Node

end RingOverlay

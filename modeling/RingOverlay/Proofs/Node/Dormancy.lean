import RingOverlay.Proofs.Node.Moves
/-!
A node whose policies are switched off, before it has been started or after it has been stopped.
Whatever its policies are told, they begin nothing: no handshake, no leaf attempt and no discovery
query. Links are still set up where someone else asks for them, or has asked before.
-/

set_option autoImplicit false
set_option relaxedAutoImplicit false

namespace RingOverlay

def Task.isSearch : Task → Bool
  | .handshake h => h.owner = .unstructured ∨ h.owner = .managed
  | .link .leaf _ | .query _ => true
  | .link _ _ | .retry _ _ _ | .drive _ => false

theorem Task.GoesOn.isSearch {here : RingAddress} {t u : Task} (goes : t.GoesOn here u) :
    t.isSearch = u.isSearch := by
  cases goes with
  | handshake owner => simp only [Task.isSearch, owner]
  | link =>
    rename_i role _ _
    cases role <;> rfl
  | retry | query | drive => rfl

namespace Node

/-- The tasks by which the policies seek something. -/
def searches (n : Node) : List TaskId := (n.tasks.filter (·.2.isSearch)).map (·.1)

def Inactive (n : Node) : Prop := ∀ k, n.isActive k = false

/-- Nothing in a run switches policies on. -/
def staysDormant (n : Node) : List NodeMove → Bool
  | [] => true
  | m :: ms => !n.wakes m && (n.move m).staysDormant ms

/-- A move of a run admits a request to link, or hands it to a worker. -/
def Asked (n : Node) (r : LinkRequest) : List NodeMove → Prop
  | [] => False
  | m :: ms => n.asks m r ∨ (n.move m).Asked r ms

/-- What a node without active policies may become: no new task seeks anything, and what it asks of its
surroundings is no query, and a link only where `asks` allows that. -/
structure Rests (asks : LinkRequest → Prop) (n m : Node) : Prop where
  inactive : m.Inactive
  searches : m.searches.Sublist n.searches
  asked : ∃ new, m.actions = n.actions ++ new ∧ (∀ id q, NodeAction.query id q ∉ new) ∧
    ∀ id r, NodeAction.link id r ∈ new → asks r

section

variable {old : TaskId} {wakes : Prop} {asks : LinkRequest → Prop} {c : Nat} {n m k : Node}
  {id : TaskId} {t u : Task}

theorem Rests.trans (first : Rests asks n m) (second : Rests asks m k) : Rests asks n k where
  inactive := second.inactive
  searches := second.searches.trans first.searches
  asked := by
    obtain ⟨xs, here, quiet, admitted⟩ := first.asked
    obtain ⟨ys, there, quiet', admitted'⟩ := second.asked
    refine ⟨xs ++ ys, ?_, fun id q member => ?_, fun id r member => ?_⟩
    · rw [there, here, List.append_assoc]
    · exact (List.mem_append.mp member).elim (quiet id q) (quiet' id q)
    · exact (List.mem_append.mp member).elim (admitted id r) (admitted' id r)

theorem Rests.of_searches (inactive : m.Inactive) (searches : m.searches.Sublist n.searches)
    (actions : m.actions = n.actions) : Rests asks n m :=
  ⟨inactive, searches, [], by rw [actions, List.append_nil], nofun, nofun⟩

theorem Rests.of_tasks (inactive : m.Inactive) (tasks : m.tasks = n.tasks)
    (actions : m.actions = n.actions) : Rests asks n m := by
  refine .of_searches inactive ?_ actions
  rw [Node.searches, tasks]
  exact .refl _

theorem searches_append {i : TaskId} (tasks : m.tasks = n.tasks ++ [(i, t)])
    (other : t.isSearch = false) : m.searches = n.searches := by
  rw [searches, tasks, List.filter_append, List.filter_cons_of_neg (by simp [other])]
  simp [searches]

theorem Inactive.rests_spawnResting (inactive : n.Inactive) (other : t.isSearch = false) :
    Rests asks n (n.spawnResting t) := by
  refine .of_searches inactive ?_ rfl
  rw [searches_append rfl other]

theorem Inactive.rests_launch (inactive : n.Inactive) {role : LinkRole} {r : LinkRequest}
    (other : role ≠ .leaf) (asked : asks r) : Rests asks n (n.launch role r) := by
  refine ⟨inactive, ?_, [.link n.created r], rfl, fun id q member => ?_, fun id s member => ?_⟩
  · have same : (n.launch role r).searches = n.searches := by
      refine searches_append (i := n.created) (t := .link role false) rfl ?_
      cases role with
      | leaf => exact absurd rfl other
      | keyed | untargeted => rfl
    rw [same]
  · cases List.mem_singleton.mp member
  · cases List.mem_singleton.mp member
    exact asked

theorem rests_linking : Linking asks fun n m => n.Inactive → Rests asks n m where
  refl _ inactive := .of_tasks inactive rfl rfl
  trans first second inactive := (first inactive).trans (second (first inactive).inactive)
  attempts _ _ inactive := .of_tasks inactive rfl rfl
  launch _ _ _ other asked inactive := inactive.rests_launch other asked

theorem searches_setTask (same : ∀ u, (id, u) ∈ n.tasks → u.isSearch = t.isSearch) :
    (n.setTask id t).searches = n.searches := by
  rw [searches, setTask, List.filter_map, List.map_map, searches]
  refine (congrArg (List.map _) (List.filter_congr fun v member => ?_)).trans
    (List.map_congr_left fun v _ => ?_)
  · obtain ⟨i, v⟩ := v
    by_cases own : i = id
    · subst own
      simp [same v member]
    · simp [own]
  · simp only [Function.comp_apply]
    split <;> rfl

theorem Inactive.rests_endTask (inactive : n.Inactive) (id : TaskId) :
    Rests asks n (n.endTask id) :=
  .of_searches inactive ((List.filter_sublist.filter _).map _) rfl

theorem Inactive.setUnstructured (inactive : n.Inactive) {unstructured : UnstructuredOverlord}
    (active : unstructured.active = false) : ({ n with unstructured } : Node).Inactive := by
  intro k
  cases k with
  | leaf => exact inactive .leaf
  | unstructured => exact active
  | managed => exact inactive .managed
  | discovery => exact inactive .discovery

theorem Inactive.rests_seekWalk (inactive : n.Inactive) {unstructured : UnstructuredOverlord}
    (active : unstructured.active = false) :
    Rests asks n ({ n with unstructured }.activateUnstructured) := by
  have told := inactive.setUnstructured active
  rcases ({ n with unstructured } : Node).activateUnstructured_cases with
    ⟨base, words, -, sought⟩ | ⟨target, words, on, -⟩
  · rw [sought]
    exact .of_tasks (inactive.setUnstructured active) rfl rfl
  · cases on.symm.trans active

theorem isSearch_of_plain (plain : t.isPlain = true) : t.isSearch = false := by
  cases t with
  | handshake h =>
    simp only [Task.isPlain, decide_eq_true_eq] at plain
    exact decide_eq_false fun sought => sought.elim plain.1 plain.2.1
  | link | query => cases plain
  | retry | drive => rfl

theorem Works.rests (works : Works old wakes asks c n m) (asleep : ¬ wakes) (inactive : n.Inactive) :
    Rests asks n m := by
  induction works with
  | nothing | unheeded => exact .of_tasks inactive rfl rfl
  | chain _ _ first second =>
    have half := first inactive
    exact half.trans (second half.inactive)
  | aside change =>
    refine .of_tasks (fun k => ?_) (congrArg Node.tasks change.frame :)
      (congrArg Node.actions change.frame :)
    by_contra on
    rcases change.active k (Bool.not_eq_false _ ▸ on) with before | woken
    · cases before.symm.trans (inactive k)
    · exact asleep woken
  | tell n quiet =>
    rename_i x
    refine ⟨inactive, .refl _, [x], rfl, fun id q member => ?_, fun id r member => ?_⟩
    · cases List.mem_singleton.mp member
      cases quiet
    · cases List.mem_singleton.mp member
      cases quiet
  | begin n plain => exact inactive.rests_spawnResting (isSearch_of_plain plain)
  | goOn n goes =>
    refine .of_searches inactive ?_ rfl
    rw [searches_setTask fun u member => (goes u member).isSearch]
  | finish n => exact inactive.rests_endTask _
  | submit n asked => exact rests_linking.submit n asked inactive
  | worker n early own asked =>
    rename_i id _
    have ended : Rests asks n (n.endTask id) := inactive.rests_endTask id
    exact ended.trans (rests_linking.workerFinished (n.endTask id) asked ended.inactive)
  | seekLeaf n active => cases active.symm.trans (inactive .leaf)
  | seekWalk n active => exact inactive.rests_seekWalk (active.trans (inactive .unstructured))
  | endWalk n early =>
    rename_i id _ _
    have rested : (n.endTask id).Inactive := inactive
    refine (inactive.rests_endTask id).trans ?_
    simp only [unstructuredFinished]
    split
    · exact rested.rests_seekWalk (inactive .unstructured)
    · exact .of_tasks (rested.setUnstructured (inactive .unstructured)) rfl rfl
  | seekPin n active => cases active.symm.trans (inactive .managed)
  | seekNearby n active => cases active.symm.trans (inactive .discovery)

theorem rests_move (numbered : n.Numbered) (inactive : n.Inactive) {m : NodeMove}
    (asleep : n.wakes m = false) : Rests (n.asks m) n (n.move m) :=
  (works_move numbered m).rests (ne_true_of_eq_false asleep) inactive

theorem Rests.mono {asks' : LinkRequest → Prop} (rests : Rests asks n m)
    (more : ∀ r, asks r → asks' r) : Rests asks' n m := by
  obtain ⟨new, actions, quiet, admitted⟩ := rests.asked
  exact ⟨rests.inactive, rests.searches, new, actions, quiet,
    fun id r member => more r (admitted id r member)⟩

theorem rests_moved (numbered : n.Numbered) (inactive : n.Inactive) {ms : List NodeMove}
    (dormant : n.staysDormant ms = true) : Rests (n.Asked · ms) n (n.moved ms) := by
  induction ms generalizing n with
  | nil => exact .of_tasks inactive rfl rfl
  | cons m ms ih =>
    simp only [staysDormant, Bool.and_eq_true, Bool.not_eq_true'] at dormant
    have first := rests_move numbered inactive dormant.1
    have rest := ih ((works_move numbered m).kept.numbered numbered) first.inactive dormant.2
    exact (first.mono fun _ => Or.inl).trans (rest.mono fun _ => Or.inr)

/-- Take a node in any state in which none of its policies is switched on, and let happen whatever
may, except that one is switched on: heartbeats, changes of the table and their events, calls of each
policy by itself, pins, replies, the ends of attempts and handshakes, timers. No policy is switched on
by any of it. All handshakes of the policies, leaf attempts and discovery queries were begun before; no
query is sent, and each link that the node has set up was asked for by a direct request, by a connect
call, by the reply to a handshake, or by a request that was waiting for a worker. -/
theorem inactive_seeks_nothing (numbered : n.Numbered) (inactive : n.Inactive) (ms : List NodeMove)
    (dormant : n.staysDormant ms = true) :
    (n.moved ms).Inactive ∧ (n.moved ms).searches.Sublist n.searches ∧
    ∃ new, (n.moved ms).actions = n.actions ++ new ∧ (∀ id q, NodeAction.query id q ∉ new) ∧
      ∀ id r, NodeAction.link id r ∈ new → n.Asked r ms := by
  have rests := rests_moved numbered inactive dormant
  exact ⟨rests.inactive, rests.searches, rests.asked⟩

theorem isActive_setActive (n : Node) (active : Bool) (j k : OverlordKind) :
    (n.setActive active j).isActive k = if j = k then active else n.isActive k := by
  cases j <;> cases k <;> rfl

theorem inactive_create (here : RingAddress) (config : OverlayConfig) (table : ConnectionTable)
    (channel : Bool) : (create here config table channel).Inactive := by
  obtain ⟨overlords, methods, pinned⟩ := works_create 0 False (fun _ => False) here config table channel
  refine (pinned.rests not_false fun k => ?_).inactive
  cases k <;> rfl

theorem inactive_stop (others : ∀ k ∉ n.overlords, n.isActive k = false) : n.stop.Inactive := by
  have switched (ks : List OverlordKind) (n : Node) (k : OverlordKind) :
      (ks.foldl (setActive · false) n).isActive k = if k ∈ ks then false else n.isActive k := by
    induction ks generalizing n with
    | nil => rfl
    | cons j ks ih =>
      rw [List.foldl_cons, ih, isActive_setActive]
      by_cases same : j = k
      · simp [same]
      · have apart : k ≠ j := Ne.symm same
        simp [same, apart]
  intro k
  rw [stop, switched]
  split
  · rfl
  · rename_i absent
    exact others k absent

def stopped : Node := (plain.moved asking).stop

/-- The policies are called and told of a loss. Only a reply to the handshake that was begun before
leads to a link, and a request that is made directly leads to another one. -/
def calledInVain : List NodeMove :=
  [.activate .managed, .activate .leaf, .step .heartbeat, .step (.pin (.floor 96)), .resync .managed,
    .linkDown ⟨7, .floor 80, managedType, []⟩ .managed,
    .step (.deliver 0 (.result (ConnectRequest.ofTarget managedType (.bare (.floor 80))).toValue)),
    .step (.poll 0), .step (.submit ⟨some (.floor 112), [], "structured", "t"⟩)]

theorem inactive_seeks_nothing_stopped :
    (stopped.moved calledInVain).actions.length = stopped.actions.length + 2 ∧
    (stopped.moved calledInVain).Inactive ∧
      (stopped.moved calledInVain).searches.Sublist stopped.searches ∧
      ∃ new, (stopped.moved calledInVain).actions = stopped.actions ++ new ∧
        (∀ id q, NodeAction.query id q ∉ new) ∧
        ∀ id r, NodeAction.link id r ∈ new → stopped.Asked r calledInVain := by
  have inactive : stopped.Inactive := by
    refine inactive_stop fun k absent => ?_
    cases k with
    | discovery => rfl
    | leaf | unstructured | managed => exact absurd (by decide +kernel) absent
  have numbered : stopped.Numbered := by
    have stop : Works 0 False (fun _ => False) 0 (plain.moved asking) stopped := works_stop _
    exact stop.kept.numbered ((numbered_create _ _ _ _).moved asking)
  exact ⟨by decide +kernel, inactive_seeks_nothing numbered inactive calledInVain (by decide +kernel)⟩

end

end Node

end RingOverlay

import RingOverlay.Proofs.Node.Moves
import RingOverlay.Proofs.Node.Ratchet
import RingOverlay.Proofs.Table.Replay
/-!
No pinned peer is forgotten. A check passes over a pinned peer that is on, or towards which a link is
being set up. Neither is ever out of date for good: an entry that is on without a link means that the
loss of the link has not been heard of yet, and where a key is taken by an attempt, its worker runs.
-/

set_option autoImplicit false
set_option relaxedAutoImplicit false

namespace RingOverlay

/-- A feed holds what its subscriber has not heard: the latest of these events wait in it, the earlier
ones were lost, and it knows how many these are. -/
structure EventFeed.Holds (f : EventFeed) (unheard : List TableEvent) : Prop where
  length : unheard.length = f.backlog
  unread : f.unread = unheard.drop f.missed

/-- Whether a move leaves it to the one loop to tell the policies of links. -/
def NodeMove.isOrderly : NodeMove → Bool
  | .step _ | .shutdown | .activate _ | .switch _ _ | .beat _ | .resync _ => true
  | .run | .linkUp _ _ | .linkDown _ _ => false

namespace EventFeed

variable {f g : EventFeed} {unheard : List TableEvent} {e : TableEvent}

theorem Holds.push (holds : f.Holds unheard) (e : TableEvent) : (f.push e).Holds (unheard ++ [e]) := by
  have length := holds.length
  have within : f.missed ≤ unheard.length := by
    rw [length]
    exact Nat.le_add_right _ _
  refine ⟨?_, ?_⟩
  · rw [List.length_append, length, backlog_push, List.length_singleton]
  · unfold EventFeed.push
    split
    · rw [holds.unread, List.drop_append_of_le_length within]
    · rename_i full
      have some_unread : 0 < f.unread.length := Nat.lt_of_lt_of_le (by decide) (Nat.not_lt.mp full)
      rw [List.drop_append_of_le_length, ← List.drop_drop, ← holds.unread]
      rw [length, backlog]
      exact Nat.add_le_add_left some_unread _

theorem Holds.push_all (holds : f.Holds unheard) (es : List TableEvent) :
    (es.foldl EventFeed.push f).Holds (unheard ++ es) := by
  induction es generalizing f unheard with
  | nil => rwa [List.append_nil]
  | cons e es ih =>
    have later := ih (holds.push e)
    rwa [List.append_assoc, List.singleton_append] at later

theorem Holds.eq_unread (holds : f.Holds unheard) (whole : f.missed = 0) : unheard = f.unread := by
  rw [holds.unread, whole, List.drop_zero]

theorem holds_unread (whole : f.missed = 0) : f.Holds f.unread := by
  refine ⟨?_, ?_⟩
  · rw [backlog, whole, Nat.zero_add]
  · rw [whole, List.drop_zero]

theorem whole_of_next? (next : f.next? = some (.event e, g)) : g.missed = 0 := by
  obtain ⟨whole, unread⟩ := next?_event next
  rw [next?, if_neg (not_not.mpr whole), unread] at next
  simp only [Option.some.injEq, Prod.mk.injEq] at next
  rw [← next.2]
  exact whole

end EventFeed

namespace Node

def changesIn (n : Node) : List NodeMove → List TableEvent
  | [] => []
  | m :: ms => n.changes m ++ (n.move m).changesIn ms

/-- Where an attempt runs for a key, there is a task for its worker. -/
def Staffed (n : Node) : Prop :=
  ∀ k, n.attempts.isActive k = true → ∃ id ended, (id, Task.link (.keyed k) ended) ∈ n.tasks

/-- A structured link to a peer is being set up: an attempt runs, and there is a task for its worker. -/
def IsLinking (n : Node) (a : RingAddress) : Prop :=
  n.attempts.isActive ⟨a, .structured⟩ = true ∧
    ∃ id ended, (id, Task.link (.keyed ⟨a, .structured⟩) ended) ∈ n.tasks

/-- Nothing but a loss that has not been heard of yet keeps a node from pursuing a pinned peer to which
there is no structured link. -/
def Pursues (n : Node) (unheard : List TableEvent) : Prop :=
  ∀ p ∈ n.managed.pins, n.isConnected p.1 = false →
    0 < n.connectors p.1 ∨ n.IsLinking p.1 ∨
      ∃ c, TableEvent.disconnected c ∈ unheard ∧ c.mainType = .structured ∧ c.address = p.1

/-- A node pursues its pinned peers up to what its loop has still to read. -/
def Remembers (n : Node) (loop : TaskId) (unheard : List TableEvent) : Prop :=
  (∃ l, n.DrivenBy loop l ∧ l.feed.Holds unheard) ∧ n.Pursues unheard

section

variable {old : TaskId} {wakes : Prop} {asks : LinkRequest → Prop} {c : Nat} {n m : Node}
  {id : TaskId} {t : Task} {key : AttemptKey}

/-! Workers. -/

def StaffedBut (n : Node) (key : AttemptKey) : Prop :=
  ∀ k, k ≠ key → n.attempts.isActive k = true → ∃ id ended, (id, Task.link (.keyed k) ended) ∈ n.tasks

theorem Staffed.more (staffed : n.Staffed) (attempts : m.attempts = n.attempts)
    (tasks : n.tasks ⊆ m.tasks) : m.Staffed := by
  intro k active
  rw [attempts] at active
  obtain ⟨id, ended, member⟩ := staffed k active
  exact ⟨id, ended, tasks member⟩

theorem isActive_put {a : LinkAttempts} {queue : List LinkRequest} {j k : AttemptKey} :
    (a.put k queue).isActive j = true ↔ j = k ∨ a.isActive j = true := by
  by_cases same : j = k
  · subst same
    simp [LinkAttempts.isActive, LinkAttempts.queue?_put_self]
  · simp [LinkAttempts.isActive, LinkAttempts.queue?_put_of_ne same, same]

theorem StaffedBut.launch (staffed : n.StaffedBut key) (queue : List LinkRequest) (r : LinkRequest) :
    ({ n with attempts := n.attempts.put key queue }.launch (.keyed key) r).Staffed := by
  intro k active
  by_cases same : k = key
  · subst same
    exact ⟨n.created, false, List.mem_append_right _ (List.mem_singleton.mpr rfl)⟩
  · obtain ⟨id, ended, member⟩ := staffed k same ((isActive_put.mp active).resolve_left same)
    exact ⟨id, ended, List.mem_append_left _ member⟩

theorem Staffed.submit (staffed : n.Staffed) (r : LinkRequest) : (n.submit r).2.Staffed := by
  rcases n.submit_cases r with same | ⟨-, launched⟩ | ⟨key, -, -, ⟨q, waiting, queued⟩ | ⟨-, launched⟩⟩
  · rw [same]
    exact staffed
  · rw [launched]
    exact staffed.more rfl (List.subset_append_left _ _)
  · rw [queued]
    intro k active
    refine staffed k ?_
    rcases isActive_put.mp active with rfl | before
    · rw [LinkAttempts.isActive, waiting]
      rfl
    · exact before
  · rw [launched]
    exact StaffedBut.launch (fun k _ => staffed k) [] r

theorem Staffed.endTask (staffed : n.Staffed)
    (other : ∀ k ended, (id, Task.link (.keyed k) ended) ∉ n.tasks) : (n.endTask id).Staffed := by
  intro k active
  obtain ⟨i, ended, member⟩ := staffed k active
  refine ⟨i, ended, List.mem_filter.mpr ⟨member, bne_iff_ne.mpr ?_⟩⟩
  rintro rfl
  exact other k ended member

theorem Staffed.endWorker (staffed : n.Staffed)
    (own : ∀ t, (id, t) ∈ n.tasks → t = .link (.keyed key) true) : (n.endTask id).StaffedBut key := by
  intro k apart active
  obtain ⟨i, ended, member⟩ := staffed k active
  refine ⟨i, ended, List.mem_filter.mpr ⟨member, bne_iff_ne.mpr ?_⟩⟩
  rintro rfl
  cases own _ member
  exact apart rfl

theorem StaffedBut.workerFinished (staffed : n.StaffedBut key) : (n.workerFinished key).Staffed := by
  rcases n.workerFinished_cases key with ⟨idle, same⟩ | erased | ⟨r, rest, -, launched⟩
  · rw [same]
    intro k active
    refine staffed k ?_ active
    rintro rfl
    rw [LinkAttempts.isActive, idle] at active
    cases active
  · rw [erased]
    intro k active
    have apart : k ≠ key := by
      rintro rfl
      simp only [LinkAttempts.isActive, LinkAttempts.queue?_erase_self] at active
      cases active
    refine staffed k apart ?_
    rw [LinkAttempts.isActive, ← LinkAttempts.queue?_erase_of_ne apart]
    exact active
  · rw [launched]
    exact staffed.launch rest r

theorem Staffed.activateUnstructured (staffed : n.Staffed) : n.activateUnstructured.Staffed := by
  rcases n.activateUnstructured_cases with ⟨base, words, -, sought⟩ | ⟨target, words, -, -, sought⟩
  · rw [sought]
    exact staffed
  · rw [sought]
    exact staffed.more rfl (List.subset_append_left _ _)

theorem Staffed.setTask (staffed : n.Staffed) (goes : ∀ u, (id, u) ∈ n.tasks → u.GoesOn n.here t) :
    (n.setTask id t).Staffed := by
  intro k active
  obtain ⟨i, ended, member⟩ := staffed k active
  have after := mem_setTask_of_mem member id t
  by_cases own : i = id
  · subst own
    rw [if_pos rfl] at after
    cases goes _ member with
    | link => exact ⟨i, _, after⟩
  · rw [if_neg own] at after
    exact ⟨i, ended, after⟩

theorem Works.staffed (works : Works old wakes asks c n m) (staffed : n.Staffed) : m.Staffed := by
  induction works with
  | nothing | unheeded | tell => exact staffed
  | chain _ _ first second => exact second (first staffed)
  | @aside n m change =>
    have tasks : m.tasks = n.tasks := (congrArg Node.tasks change.frame :)
    refine staffed.more (congrArg Node.attempts change.frame :) ?_
    rw [tasks]
    exact List.Subset.refl _
  | begin | seekLeaf | seekPin | seekNearby => exact staffed.more rfl (List.subset_append_left _ _)
  | goOn n goes => exact staffed.setTask goes
  | finish n early free => exact staffed.endTask fun k ended member => by cases free _ member
  | submit n => exact staffed.submit _
  | worker n early own => exact (staffed.endWorker own).workerFinished
  | seekWalk n => exact Staffed.activateUnstructured staffed
  | endWalk n early there own =>
    rename_i id
    have ended : (n.endTask id).Staffed := staffed.endTask fun k ceased member => by cases own _ member
    simp only [unstructuredFinished]
    split
    · exact Staffed.activateUnstructured ended
    · exact ended

theorem Staffed.moved (staffed : n.Staffed) (numbered : n.Numbered) (ms : List NodeMove) :
    (n.moved ms).Staffed := by
  induction ms generalizing n with
  | nil => exact staffed
  | cons m ms ih =>
    have works := works_move numbered m
    exact ih (works.staffed staffed) (works.kept.numbered numbered)

theorem staffed_create (here : RingAddress) (config : OverlayConfig) (table : ConnectionTable)
    (channel : Bool) : (create here config table channel).Staffed := by
  obtain ⟨overlords, methods, pinned⟩ := works_create 0 False (fun _ => False) here config table channel
  exact pinned.staffed fun k active => by cases active

end

/-! The loop. -/

/-- The invariant of a node that one loop drives: its books fit its table up to the events that the
loop has not heard, and these are what the loop's feed holds. -/
structure Listens (unheard : List TableEvent) (n : Node) (loop : TaskId) (l : LoopTask) : Prop where
  driven : n.DrivenBy loop l
  started : l.started = true
  arranged : n.table.Arranged
  counts : .unstructured ∈ n.overlords
  pins : .managed ∈ n.overlords
  agrees : n.Agrees none unheard
  holds : l.feed.Holds unheard

section

variable {n m : Node} {loop id : TaskId} {l l' : LoopTask} {unheard later past : List TableEvent}

theorem Listens.tracked (listens : n.Listens unheard loop l) (goesOn : l.stopping = false) :
    n.Tracked none loop l where
  driven := listens.driven
  started := listens.started
  stopping := goesOn
  arranged := listens.arranged
  counts := listens.counts
  pins := listens.pins
  agrees whole := listens.holds.eq_unread whole ▸ listens.agrees

theorem Listens.onto (listens : n.Listens unheard loop l) (table : m.table = n.table)
    (overlords : m.overlords = n.overlords) (driven : m.DrivenBy loop l')
    (started : l'.started = l.started) (agrees : m.Agrees none later) (holds : l'.feed.Holds later) :
    m.Listens later loop l' where
  driven := driven
  started := started.trans listens.started
  arranged := table ▸ listens.arranged
  counts := overlords ▸ listens.counts
  pins := overlords ▸ listens.pins
  agrees := agrees
  holds := holds

theorem Listens.follows (listens : n.Listens unheard loop l)
    (step : Follows loop (fun _ => none) n m) : m.Listens unheard loop l :=
  listens.onto step.table step.overlords (step.driven l listens.driven) rfl
    (listens.agrees.follows step) listens.holds

theorem Listens.setLoop (listens : n.Listens unheard loop l) (l' : LoopTask)
    (started : l'.started = l.started) (holds : l'.feed.Holds unheard) :
    (n.setTask loop (.drive l')).Listens unheard loop l' := by
  have agrees := listens.agrees
  exact listens.onto rfl rfl (listens.driven.setLoop l') started
    ⟨agrees.current, agrees.pins, agrees.word⟩ holds

theorem Listens.reported {u : ConnectionTable} {es : List TableEvent}
    (listens : n.Listens unheard loop l) (arranged : u.Arranged) (change : n.table.Reported es u) :
    (es.foldl publish { n with table := u }).Listens (unheard ++ es) loop
      { l with feed := es.foldl EventFeed.push l.feed } := by
  have driven : { n with table := u }.DrivenBy loop l :=
    ⟨listens.driven.only, listens.driven.numbered⟩
  obtain ⟨drives, table, overlords, unstructured, managed⟩ := driven.publish_all listens.started es
  refine ⟨drives, listens.started, table ▸ arranged, ?_, ?_, ?_, listens.holds.push_all es⟩
  · rw [overlords]
    exact listens.counts
  · rw [overlords]
    exact listens.pins
  · exact listens.agrees.reported (table ▸ change) unstructured managed

theorem Listens.add (listens : n.Listens unheard loop l) (c : Connection) :
    ∃ l', (n.step (.add c)).Listens (unheard ++ n.changes (.step (.add c))) loop l' := by
  simp only [step, addLink, changes]
  cases taken : n.table.add c with
  | error reason => exact ⟨l, by simpa using listens⟩
  | ok u =>
    have arranged := listens.arranged
    exact ⟨_, listens.reported (arranged.add taken) (arranged.reported_add taken)⟩

theorem Listens.removeEdge (listens : n.Listens unheard loop l) (e : EdgeId) :
    ∃ l', (n.step (.removeEdge e)).Listens (unheard ++ n.changes (.step (.removeEdge e))) loop l' := by
  have arranged := listens.arranged
  have told := listens.reported arranged.removeEdge (arranged.reported_detach e)
  rw [List.foldl_map] at told
  exact ⟨_, told⟩

/-- The loop reads the next item: the first of the events that it has not heard, or that some were
lost, and then it looks up everything. -/
theorem Listens.read (listens : n.Listens unheard loop l) (id : TaskId) :
    ∃ l' later, later <:+ unheard ∧ (n.readNext id).Listens later loop l' := by
  unfold readNext
  split
  · rename_i l' found
    obtain ⟨rfl, rfl⟩ := listens.driven.eq_of_task? found
    split
    · rename_i e feed next
      have whole := EventFeed.whole_of_next? next
      obtain ⟨before, unread⟩ := EventFeed.next?_event next
      have first := (listens.holds.eq_unread before).trans unread
      have driven := listens.driven.setLoop { l' with feed }
      have step : Follows id e.word (n.setTask id (.drive { l' with feed })) _ :=
        follows_handleEvent _ e
      have agrees := listens.agrees
      rw [first] at agrees
      have handled : (n.setTask id (.drive { l' with feed })).Agrees none (e :: feed.unread) :=
        ⟨agrees.current, agrees.pins, agrees.word⟩
      refine ⟨{ l' with feed }, feed.unread, ?_, ?_⟩
      · rw [first]
        exact List.suffix_cons e _
      · exact listens.onto step.table step.overlords (step.driven _ driven) rfl
          (handled.handleEvent listens.counts listens.pins) (EventFeed.holds_unread whole)
    · rename_i count feed next
      have driven := listens.driven.setLoop { l' with feed := .fresh }
      have step : Follows id (fun _ => none) (n.setTask id (.drive { l' with feed := .fresh })) _ :=
        .foldl follows_resyncOne n.overlords _
      refine ⟨{ l' with feed := .fresh }, [], List.nil_suffix, ?_⟩
      exact listens.onto step.table step.overlords (step.driven _ driven) rfl
        (agrees_resync listens.counts listens.pins) (EventFeed.holds_unread rfl)
    · exact ⟨_, unheard, List.suffix_refl _, listens⟩
  · exact ⟨l, unheard, List.suffix_refl _, listens⟩

theorem not_mem_of_pollStopping (old : loop < n.created) (stopping : l.stopping = true) (t : Task) :
    (loop, t) ∉ (n.pollRunning loop l).tasks := by
  intro member
  rw [pollRunning, if_pos stopping] at member
  have stops : Works 0 False (fun _ => False) 0 (n.endTask loop) (n.endTask loop).stop :=
    works_stop _
  obtain ⟨u, still, -⟩ := stops.kept.loops loop t member old
  exact bne_iff_ne.mp (List.mem_filter.mp still).2 rfl

theorem Listens.poll_loop (listens : n.Listens unheard loop l)
    (runs : ∃ t, (loop, t) ∈ (n.poll loop).tasks) : ∃ l', (n.poll loop).Listens [] loop l' := by
  have goesOn : l.stopping = false := by
    by_contra stopping
    obtain ⟨t, member⟩ := runs
    rw [listens.driven.poll_eq listens.started] at member
    exact not_mem_of_pollStopping listens.driven.numbered (Bool.not_eq_false _ ▸ stopping) t member
  obtain ⟨l', tracked, fresh⟩ := (listens.tracked goesOn).poll_loop
  have agrees := tracked.agrees (by rw [fresh]; rfl)
  rw [fresh] at agrees
  have holds : l'.feed.Holds [] := by
    rw [fresh]
    exact EventFeed.holds_unread rfl
  exact ⟨l', tracked.driven, tracked.started, tracked.arranged, tracked.counts, tracked.pins, agrees,
    holds⟩

theorem Listens.shutdown (listens : n.Listens unheard loop l) :
    n.shutdown.2.Listens unheard loop { l with stopping := true } := by
  rw [listens.driven.shutdown_eq]
  have told := listens.setLoop { l with stopping := true } rfl listens.holds
  exact told.follows (follows_wake ..)

/-- Where nothing changes in the table and the loop reads nothing, it has as much left to read. -/
theorem Listens.rests (listens : n.Listens unheard loop l) {move : NodeMove}
    (keeps : move.changesTable = false) (step : Follows loop (fun _ => none) n m) :
    ∃ l' later, later <:+ unheard ++ n.changes move ∧ m.Listens later loop l' := by
  refine ⟨l, unheard, ?_, listens.follows step⟩
  rw [n.changes_of_keeps keeps, List.append_nil]

theorem Listens.step (listens : n.Listens unheard loop l) (s : NodeStep)
    (runs : ∃ t, (loop, t) ∈ (n.step s).tasks) :
    ∃ l' later, later <:+ unheard ++ n.changes (.step s) ∧ (n.step s).Listens later loop l' := by
  by_cases quiet : s.leavesFeed loop = true
  · refine listens.rests ?_ (follows_step listens.driven quiet)
    cases s with
    | add | removeEdge => cases quiet
    | _ => rfl
  · cases s with
    | add c =>
      obtain ⟨l', told⟩ := listens.add c
      exact ⟨l', _, List.suffix_refl _, told⟩
    | removeEdge e =>
      obtain ⟨l', told⟩ := listens.removeEdge e
      exact ⟨l', _, List.suffix_refl _, told⟩
    | read id =>
      obtain ⟨l', later, fewer, read⟩ := listens.read id
      refine ⟨l', later, ?_, read⟩
      show later <:+ unheard ++ []
      rwa [List.append_nil]
    | poll id =>
      obtain rfl : id = loop := by simpa [NodeStep.leavesFeed] using quiet
      obtain ⟨l', caught⟩ := listens.poll_loop runs
      exact ⟨l', [], List.nil_suffix, caught⟩
    | _ => exact absurd rfl quiet

theorem Listens.move (listens : n.Listens unheard loop l) {move : NodeMove}
    (orderly : move.isOrderly = true) (runs : ∃ t, (loop, t) ∈ (n.move move).tasks) :
    ∃ l' later, later <:+ unheard ++ n.changes move ∧ (n.move move).Listens later loop l' := by
  cases move with
  | step s => exact listens.step s runs
  | shutdown =>
    refine ⟨_, unheard, ?_, listens.shutdown⟩
    show unheard <:+ unheard ++ []
    rw [List.append_nil]
  | activate k => exact listens.rests rfl (follows_activate n k)
  | switch active k => exact listens.rests rfl (follows_setActive n active k)
  | beat k => exact listens.rests rfl (follows_beat n k)
  | resync k => exact listens.rests rfl (follows_resyncOne n k)
  | run | linkUp | linkDown => cases orderly

theorem mem_of_moved (numbered : n.Numbered) (old : id < n.created) {ms : List NodeMove}
    (there : ∃ t, (id, t) ∈ (n.moved ms).tasks) : ∃ t, (id, t) ∈ n.tasks := by
  induction ms generalizing n with
  | nil => exact there
  | cons m ms ih =>
    have kept := (works_move numbered m).kept
    obtain ⟨u, later⟩ := ih (kept.numbered numbered) (Nat.lt_of_lt_of_le old kept.created) there
    obtain ⟨t, before, -⟩ := kept.loops id u later old
    exact ⟨t, before⟩

theorem Listens.moved (listens : n.Listens unheard loop l) (numbered : n.Numbered)
    {ms : List NodeMove} (orderly : ∀ m ∈ ms, m.isOrderly = true)
    (runs : ∃ t, (loop, t) ∈ (n.moved ms).tasks) (recent : unheard <:+ past) :
    ∃ l' later, later <:+ past ++ n.changesIn ms ∧ (n.moved ms).Listens later loop l' := by
  induction ms generalizing n l unheard past with
  | nil =>
    refine ⟨l, unheard, ?_, listens⟩
    rw [changesIn, List.append_nil]
    exact recent
  | cons m ms ih =>
    -- The loop is there in the end, so this move does not end it.
    have kept := (works_move numbered m).kept
    have marked := kept.numbered numbered
    have old := Nat.lt_of_lt_of_le listens.driven.numbered kept.created
    obtain ⟨l', later, fewer, listens⟩ :=
      listens.move (orderly m List.mem_cons_self) (mem_of_moved marked old runs)
    have latest : later <:+ past ++ n.changes m := by
      obtain ⟨older, rfl⟩ := recent
      rw [List.append_assoc]
      exact fewer.trans (List.suffix_append older _)
    obtain ⟨l', later, fewer, listens⟩ :=
      ih listens marked (fun m member => orderly m (List.mem_cons_of_mem _ member)) runs latest
    rw [List.append_assoc] at fewer
    exact ⟨l', later, fewer, listens⟩

/-! The check. -/

theorem Agrees.exists_loss (agrees : n.Agrees none unheard) {p : RingAddress × PinState}
    (pinned : p ∈ n.managed.pins) (on : p.2 = .on) (unlinked : n.isConnected p.1 = false) :
    ∃ c, TableEvent.disconnected c ∈ unheard ∧ c.mainType = .structured ∧ c.address = p.1 := by
  have said : lastWord unheard p.1 = some false := by
    cases said : lastWord unheard p.1 with
    | none =>
      rcases agrees.pins p pinned said with fits | ⟨s, start, -⟩
      · exact absurd (fits.mp on) (Bool.eq_false_iff.mp unlinked)
      · cases start
    | some up => exact congrArg some ((agrees.word _ _ said).symm.trans unlinked)
  obtain ⟨e, member, word⟩ := exists_of_lastWord said
  obtain ⟨⟨type, address⟩, down⟩ := TableEvent.word_eq_some_iff.mp word
  cases e with
  | connected c => cases down
  | disconnected c => exact ⟨c, member, type, address⟩

theorem connectors_connectAll {a : RingAddress} {as : List RingAddress}
    (wanted : a ∈ as ∨ 0 < n.connectors a) : 0 < (n.connectAll as).connectors a := by
  induction as generalizing n with
  | nil => exact wanted.resolve_left List.not_mem_nil
  | cons b as ih =>
    have more : (n.connectPinned b).connectors a = n.connectors a + if b = a then 1 else 0 :=
      congrArg Pursuit.connectors (n.pursuit_connectPinned a b)
    refine ih ?_
    rcases wanted with first_or_later | before
    · rcases List.mem_cons.mp first_or_later with rfl | later
      · right
        rw [more, if_pos rfl]
        exact Nat.succ_pos _
      · exact Or.inl later
    · right
      rw [more]
      exact Nat.add_pos_left before _

theorem connectAll_frame (n : Node) (as : List RingAddress) :
    (n.connectAll as).table = n.table ∧ (n.connectAll as).managed = n.managed ∧
      (n.connectAll as).attempts = n.attempts ∧ n.tasks ⊆ (n.connectAll as).tasks := by
  induction as generalizing n with
  | nil => exact ⟨rfl, rfl, rfl, List.Subset.refl _⟩
  | cons b as ih =>
    obtain ⟨table, managed, attempts, tasks⟩ := ih (n.connectPinned b)
    exact ⟨table, managed, attempts, fun t member => tasks (List.mem_append_left _ member)⟩

theorem Agrees.checkPins (agrees : n.Agrees none unheard) (staffed : n.Staffed) :
    n.checkPins.Pursues unheard := by
  obtain ⟨table, managed, attempts, tasks⟩ := n.connectAll_frame (n.managed.idle n.isBusy)
  intro p pinned unlinked
  replace pinned : p ∈ n.managed.pins := managed ▸ pinned
  replace unlinked : n.isConnected p.1 = false := by rwa [isConnected, ← table]
  by_cases on : p.2 = .on
  · exact Or.inr (Or.inr (agrees.exists_loss pinned on unlinked))
  · by_cases linking : n.attempts.isActive ⟨p.1, .structured⟩ = true
    · obtain ⟨id, ended, worker⟩ := staffed _ linking
      refine Or.inr (Or.inl ⟨?_, id, ended, tasks worker⟩)
      rw [Node.checkPins, attempts]
      exact linking
    · have idle : p.1 ∈ n.managed.idle n.isBusy := by
        refine List.mem_map_of_mem (List.mem_filter.mpr ⟨pinned, ?_⟩)
        simp [isBusy, on, unlinked, linking]
      exact Or.inl (connectors_connectAll (Or.inl idle))

theorem Listens.checkPins (listens : n.Listens unheard loop l) (staffed : n.Staffed) :
    n.checkPins.Remembers loop unheard := by
  have checked : n.checkPins.Listens unheard loop l := listens.follows (follows_connectAll n _)
  exact ⟨⟨l, checked.driven, checked.holds⟩, listens.agrees.checkPins staffed⟩

theorem Listens.activate_managed (listens : n.Listens unheard loop l) (staffed : n.Staffed)
    (active : n.managed.active = true) : (n.activate .managed).Remembers loop unheard := by
  rw [activate, activateManaged, if_pos active]
  exact listens.checkPins staffed

theorem Listens.resync_managed (listens : n.Listens unheard loop l) (staffed : n.Staffed)
    (active : n.managed.active = true) : (n.resyncOne .managed).Remembers loop unheard := by
  have looked : Follows loop (fun _ => none) n
      { n with managed := n.managed.resync n.isConnected } :=
    .of_pins fun p member => Or.inr (Or.inl (ManagedOverlord.on_iff_of_mem_resync member))
  refine (listens.follows looked).activate_managed ?_ active
  exact staffed.more rfl (List.Subset.refl _)

theorem Listens.beat_managed (listens : n.Listens unheard loop l) (staffed : n.Staffed)
    (active : n.managed.active = true)
    (due : n.config.managed.checkIntervalMs ≤ n.now - n.managed.lastCheck) :
    (n.beat .managed).Remembers loop unheard := by
  let checked : ManagedOverlord := { n.managed with lastCheck := n.now }
  have begun : n.managed.beginCheck? n.config.managed n.now = some checked := by
    simp [ManagedOverlord.beginCheck?, checked, active, due]
  have noted : Follows loop (fun _ => none) n { n with managed := checked } :=
    .of_pins fun p member => Or.inl member
  rw [beat, begun]
  refine (listens.follows noted).checkPins ?_
  exact staffed.more rfl (List.Subset.refl _)

/-- Take a node that one loop drives, whose books fit its table and whose loop has nothing to read.
Whatever happens to it in whatever order, until the loop ends, each time when the policy for pinned
peers, switched on, has been called to seek links, to look up its links, or on a heartbeat when the
periodic check is due, every pinned peer to which there is no structured link has a handshake under way,
or a worker sets up a link to it, or the loss of the link to it is among the latest events, which the
loop has still to read. -/
theorem no_pin_forgotten (table : n.table.Reachable)
    (policies : .unstructured ∈ n.overlords ∧ .managed ∈ n.overlords) (driven : n.DrivenBy loop l)
    (started : l.started = true) (fresh : l.feed = .fresh) (books : n.BooksFit)
    (numbered : n.Numbered) (staffed : n.Staffed) (ms : List NodeMove)
    (orderly : ∀ m ∈ ms, m.isOrderly = true) (runs : ∃ t, (loop, t) ∈ (n.moved ms).tasks) :
    ∃ unheard, unheard <:+ n.changesIn ms ∧
      ((n.moved ms).managed.active = true →
        ((n.moved ms).move (.activate .managed)).Remembers loop unheard ∧
        ((n.moved ms).move (.resync .managed)).Remembers loop unheard) ∧
      ((n.moved ms).managed.active = true → (n.moved ms).config.managed.checkIntervalMs ≤
          (n.moved ms).now - (n.moved ms).managed.lastCheck →
        ((n.moved ms).move (.beat .managed)).Remembers loop unheard) := by
  have agrees : n.Agrees none [] :=
    ⟨fun _ => Or.inl books.current, fun p pinned _ => Or.inl (books.pins p pinned), nofun⟩
  have listens : n.Listens [] loop l := ⟨driven, started, table.arranged, policies.1, policies.2,
    agrees, fresh ▸ EventFeed.holds_unread rfl⟩
  obtain ⟨l', unheard, latest, listens⟩ :=
    listens.moved numbered orderly runs (List.suffix_refl _)
  have staffed : (n.moved ms).Staffed := staffed.moved numbered ms
  refine ⟨unheard, latest, fun active => ?_, listens.beat_managed staffed⟩
  exact ⟨listens.activate_managed staffed active, listens.resync_managed staffed active⟩

end

/-- The link to the pinned peer comes up and the loop reads of it. Then it is lost, and time passes. -/
def losingLink : List NodeMove :=
  [.step (.add ⟨7, .floor 256, "structured.managed", []⟩), .step (.read 0), .step (.removeEdge 7),
    .step (.advance 3600000)]

/-- The books still say that the peer is on, so a check does nothing about it. The loss is unread. -/
theorem no_pin_forgotten_losingLink :
    (watchful.moved losingLink).managed.pins = [(.floor 256, .on)] ∧
      (watchful.moved losingLink).isConnected (.floor 256) = false ∧
      ((watchful.moved losingLink).move (.activate .managed)).connectors (.floor 256) = 0 ∧
      ((watchful.moved losingLink).move (.activate .managed)).Remembers 0
        [.disconnected ⟨7, .floor 256, "structured.managed", []⟩] ∧
      ((watchful.moved losingLink).move (.beat .managed)).Remembers 0
        [.disconnected ⟨7, .floor 256, "structured.managed", []⟩] := by
  have driven : watchful.DrivenBy 0 ⟨true, .fresh, 0, false⟩ := ⟨rfl, by decide⟩
  have books : watchful.BooksFit := by
    refine ⟨rfl, fun p member => ?_⟩
    obtain rfl := List.mem_singleton.mp member
    unfold PinFits
    decide +kernel
  have runs : ∃ t, (0, t) ∈ (watchful.moved losingLink).tasks := by
    have found : ((watchful.moved losingLink).task? 0).isSome = true := by decide +kernel
    obtain ⟨t, found⟩ := Option.isSome_iff_exists.mp found
    exact ⟨t, mem_of_task? found⟩
  obtain ⟨unheard, -, activated, beaten⟩ := no_pin_forgotten (n := watchful) ⟨[], rfl⟩ (by decide)
    driven rfl rfl books ⟨by decide, by decide⟩ (fun k active => by cases active) losingLink
    (by decide) runs
  have remembers := (activated (by decide +kernel)).1
  have unread : (((watchful.moved losingLink).move (.activate .managed)).task? 0).bind feed? =
      some ⟨0, [.disconnected ⟨7, .floor 256, "structured.managed", []⟩]⟩ := by decide +kernel
  obtain ⟨l, drives, holds⟩ := remembers.1
  rw [drives.task?] at unread
  have feed : l.feed = _ := Option.some.inj unread
  obtain rfl : unheard = _ := (holds.eq_unread (by rw [feed])).trans (congrArg EventFeed.unread feed)
  exact ⟨by decide +kernel, by decide +kernel, by decide +kernel, remembers,
    beaten (by decide +kernel) (by decide +kernel)⟩

end Node

end RingOverlay

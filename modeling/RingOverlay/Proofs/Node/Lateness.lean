import RingOverlay.Proofs.Node.Ratchet
/-!
The desired number of unstructured links in a node whose loop may read of changes long after they were
made. The unstructured policy then counts links of which it has not read yet, and the news of them
finds nothing new. The target is left behind if several links come up between two readings, and only
then.
-/

set_option autoImplicit false
set_option relaxedAutoImplicit false

namespace RingOverlay

/-- The links of a type that came up according to several events. -/
def newLinks (k : MainType) (es : List TableEvent) : Nat :=
  es.countP fun e => e.isUp && decide (e.link.mainType = k)

/-- Whether of all events about unstructured links at most the first tells of one that came up. -/
def oneGain (es : List TableEvent) : Bool :=
  (es.filter fun e => decide (e.link.mainType = .unstructured)).tail.all fun e => !e.isUp

def EventFeed.inTime (f : EventFeed) : Bool := f.missed == 0 && oneGain f.unread

def NodeStep.reads (loop : TaskId) : NodeStep → Bool
  | .read id | .poll id => id == loop
  | _ => false

section

variable {e : TableEvent} {es : List TableEvent}

theorem newLinks_cons (k : MainType) (e : TableEvent) (es : List TableEvent) : newLinks k (e :: es) =
    newLinks k es + if e.isUp ∧ e.link.mainType = k then 1 else 0 := by
  simp only [newLinks, List.countP_cons, Bool.and_eq_true, decide_eq_true_eq]

theorem newLinks_append (k : MainType) (es fs : List TableEvent) :
    newLinks k (es ++ fs) = newLinks k es + newLinks k fs :=
  List.countP_append ..

theorem oneGain_of_other (other : e.link.mainType ≠ .unstructured) (one : oneGain (e :: es) = true) :
    oneGain es = true := by
  rw [oneGain, List.filter_cons_of_neg (by simpa using other)] at one
  exact one

theorem newLinks_eq_zero (type : e.link.mainType = .unstructured) (one : oneGain (e :: es) = true) :
    newLinks .unstructured es = 0 ∧ oneGain es = true := by
  rw [oneGain, List.filter_cons_of_pos (by simpa using type), List.tail_cons, List.all_eq_true] at one
  refine ⟨List.countP_eq_zero.mpr fun f member => ?_, ?_⟩
  · intro gained
    rw [Bool.and_eq_true] at gained
    have lost := one f (List.mem_filter.mpr ⟨member, gained.2⟩)
    rw [gained.1] at lost
    cases lost
  · rw [oneGain, List.all_eq_true]
    intro f member
    exact one f (List.mem_of_mem_tail member)

end

namespace Node

/-- Whether a loop always reads in time during several steps. -/
def readsInTime (n : Node) (loop : TaskId) : List NodeStep → Bool
  | [] => true
  | s :: steps =>
    (!s.reads loop || ((n.task? loop).bind feed?).all EventFeed.inTime) &&
      (n.step s).readsInTime loop steps

structure Climbs (n m : Node) : Prop where
  table : m.table = n.table
  rises : n.unstructured.desired ≤ m.unstructured.desired
  bounded : m.unstructured.desired ≤ max n.unstructured.desired (n.links .unstructured + 1)

section

variable {n m : Node} {loop : TaskId} {l l' : LoopTask} {since : Option Node} {e : TableEvent}
  {es : List TableEvent} {s : NodeStep} {slack : Nat}

theorem Steady.climbs (steady : Steady n m) : Climbs n m where
  table := steady.table
  rises := Nat.le_of_eq steady.desired.symm
  bounded := by
    rw [steady.desired]
    exact Nat.le_max_left ..

theorem climbs_routine : CountingRoutine Climbs where
  toRoutine := by
    refine steady_routine.weaken Steady.climbs fun {n m k} first second => ?_
    obtain ⟨same, rises, bounded⟩ := first
    obtain ⟨same', rises', bounded'⟩ := second
    have links : m.links .unstructured = n.links .unstructured := by rw [Node.links, same, Node.links]
    exact ⟨same'.trans same, by omega, by omega⟩
  recount n := ⟨rfl, Nat.le_refl _, Nat.le_max_left ..⟩
  rise n := by
    have bounds := n.unstructured.desired_linkUp_bounds n.config.unstructured (n.links .unstructured)
      n.words
    exact ⟨rfl, bounds.1, bounds.2⟩

private theorem desired_of_changes (n : Node) {m : NodeMove} (changes : m.changesTable = true) :
    (n.move m).unstructured.desired = n.unstructured.desired := by
  -- The target is left as it is until the policy hears of the change.
  have routine : Routine fun n m => m.unstructured.desired = n.unstructured.desired :=
    steady_routine.weaken Steady.desired fun first second => second.trans first
  unfold NodeMove.changesTable at changes
  split at changes
  · exact routine.move n _ (fun _ _ => rfl) False.elim
  · exact routine.move n _ rfl False.elim
  · cases changes

theorem desired_move (n : Node) (m : NodeMove) :
    n.unstructured.desired ≤ (n.move m).unstructured.desired ∧
      (n.move m).unstructured.desired ≤ max n.unstructured.desired (n.links .unstructured + 1) := by
  cases keeps : m.changesTable with
  | true =>
    rw [desired_of_changes n keeps]
    exact ⟨Nat.le_refl _, Nat.le_max_left ..⟩
  | false =>
    have climbs := climbs_routine.move n m (allows_of_steady Steady.climbs n keeps)
    exact ⟨climbs.rises, climbs.bounded⟩

theorem desired_after (n : Node) (steps : List NodeStep) :
    n.unstructured.desired ≤ (n.after steps).unstructured.desired ∧
      (n.after steps).unstructured.desired ≤
        max n.unstructured.desired (n.mostLinks step steps + 1) := by
  induction steps generalizing n with
  | nil => exact ⟨Nat.le_refl _, Nat.le_max_left ..⟩
  | cons s steps ih =>
    have first : _ ≤ (n.step s).unstructured.desired ∧ (n.step s).unstructured.desired ≤ _ :=
      n.desired_move (.step s)
    have rest := ih (n.step s)
    have run : n.after (s :: steps) = (n.step s).after steps := rfl
    rw [run, mostLinks]
    omega

/-! Reading in time. -/

/-- The links that the policy knows of are no more than desired, and there are at most so many more
than it knows of. -/
structure Within (slack : Nat) (n : Node) : Prop where
  current : n.unstructured.current ≤ n.unstructured.desired
  links : n.links .unstructured ≤ n.unstructured.current + slack

theorem Within.mono {more : Nat} (within : Within slack n) (le : slack ≤ more) : Within more n :=
  ⟨within.current, Nat.le_trans within.links (Nat.add_le_add_left le _)⟩

theorem Within.steady (within : Within slack n) (steady : Steady n m) : Within slack m := by
  obtain ⟨current, links⟩ := within
  refine ⟨?_, ?_⟩
  · rw [steady.current, steady.desired]
    exact current
  · rw [Node.links, steady.table, steady.current]
    exact links

private theorem within_of_outlook {desired : Nat} (enough : n.links .unstructured ≤ desired)
    (seen : m.outlook = ⟨n.table, n.config, desired, n.links .unstructured⟩) : Within 0 m := by
  obtain ⟨table, -, target, current⟩ := outlook_eq_iff.mp seen
  refine ⟨?_, ?_⟩
  · rw [current, target]
    exact enough
  · rw [Node.links, table, current]
    exact Nat.le_refl _

theorem Within.hear (type : e.link.mainType = .unstructured)
    (within : Within (if e.isUp then 1 else 0) n) : Within 0 (hear e n .unstructured) := by
  obtain ⟨current, links⟩ := within
  cases e with
  | connected c =>
    have enough := UnstructuredOverlord.le_desired_linkUp current links n.config.unstructured n.words
    exact within_of_outlook enough (outlook_linkUp type n)
  | disconnected c =>
    have heard : Node.hear (.disconnected c) n .unstructured = n.recountUnstructured := if_pos type
    rw [heard]
    exact within_of_outlook (Nat.le_trans links current) (outlook_recount n)

theorem steady_handleEvent (other : e.link.mainType ≠ .unstructured) (n : Node) :
    Steady n (n.handleEvent e) := by
  rw [handleEvent_eq]
  refine steady_routine.foldl (fun m k => ?_) n.overlords n
  by_cases own : k = .unstructured
  · subst own
    have silent : hear e m .unstructured = m := by
      cases e with
      | connected c | disconnected c => exact if_neg other
    rw [silent]
    rfl
  · exact steady_routine.hear e m own

theorem Within.handleEvent (type : e.link.mainType = .unstructured)
    (counts : .unstructured ∈ n.overlords) (within : Within (if e.isUp then 1 else 0) n) :
    Within 0 (n.handleEvent e) := by
  have kept (m : Node) (k : OverlordKind) (within : Within 0 m) : Within 0 (Node.hear e m k) := by
    by_cases own : k = .unstructured
    · subst own
      exact Within.hear type (within.mono (Nat.zero_le _))
    · exact within.steady (steady_routine.hear e m own)
  rw [handleEvent_eq]
  generalize n.overlords = ks at counts ⊢
  -- Policies that hear of the link before this one leave all as it is, and so do those after it.
  induction ks generalizing n with
  | nil => cases counts
  | cons k ks ih =>
    by_cases own : k = .unstructured
    · subst own
      have first := Within.hear type within
      exact List.foldlRecOn ks (Node.hear e) first fun m within k _ => kept m k within
    · have later := (List.mem_cons.mp counts).resolve_left (Ne.symm own)
      exact ih (within.steady (steady_routine.hear e n own)) later

theorem Within.read (one : oneGain (e :: es) = true) (counts : .unstructured ∈ n.overlords)
    (within : Within (newLinks .unstructured (e :: es)) n) :
    Within (newLinks .unstructured es) (n.handleEvent e) ∧ oneGain es = true := by
  rw [newLinks_cons] at within
  by_cases type : e.link.mainType = .unstructured
  · obtain ⟨none_left, one⟩ := newLinks_eq_zero type one
    simp only [type, and_true, none_left, Nat.zero_add] at within
    rw [none_left]
    exact ⟨within.handleEvent type counts, one⟩
  · rw [if_neg fun gained => type gained.2] at within
    exact ⟨within.steady (steady_handleEvent type n), oneGain_of_other type one⟩

theorem Within.readAll (one : oneGain es = true) (counts : .unstructured ∈ n.overlords)
    (within : Within (newLinks .unstructured es) n) : Within 0 (es.foldl Node.handleEvent n) := by
  induction es generalizing n with
  | nil => exact within
  | cons e es ih =>
    obtain ⟨first, one⟩ := within.read one counts
    have step : Follows 0 e.word n (n.handleEvent e) := follows_handleEvent n e
    exact ih one (step.overlords ▸ counts) first

/-- The links that a node knows of are no more than desired, and unless events were lost the others are
among those of which its loop has not read. -/
structure Keeping (n : Node) (feed : EventFeed) : Prop where
  current : n.unstructured.current ≤ n.unstructured.desired
  links : feed.missed = 0 → Within (newLinks .unstructured feed.unread) n

private theorem Keeping.steady {feed : EventFeed} (keeping : Keeping n feed) (steady : Steady n m) :
    Keeping m feed := by
  refine ⟨?_, fun whole => (keeping.links whole).steady steady⟩
  rw [steady.current, steady.desired]
  exact keeping.current

theorem steady_step (driven : n.DrivenBy loop l) (quiet : s.leavesFeed loop = true) :
    Steady n (n.step s) := by
  have keeps : (NodeMove.step s).changesTable = false := by
    cases s with
    | add | removeEdge => cases quiet
    | _ => rfl
  refine steady_routine.move n (.step s) (allows_of_steady id n keeps) fun counts => ?_
  cases s with
  | read id =>
    have other : id ≠ loop := by simpa [NodeStep.leavesFeed] using quiet
    simp only [move, step, readNext]
    split
    · rename_i found
      exact absurd (driven.eq_of_task? found).1 other
    · rfl
  | poll id =>
    have other : id ≠ loop := by simpa [NodeStep.leavesFeed] using quiet
    obtain ⟨l', found⟩ := counts
    exact absurd (driven.eq_of_task? found).1 other
  | _ => exact counts.elim

theorem exists_reported (arranged : n.table.Arranged)
    (changes : (NodeMove.step s).changesTable = true) :
    ∃ table es, n.step s = es.foldl publish { n with table } ∧ table.Arranged ∧
      n.table.Reported es table ∧ ∀ k, table.count k ≤ n.table.count k + newLinks k es := by
  cases s with
  | add c =>
    simp only [step, addLink]
    cases taken : n.table.add c with
    | error reason => exact ⟨n.table, [], rfl, arranged, .refl _, fun _ => Nat.le_add_right ..⟩
    | ok table =>
      refine ⟨table, [.connected c], rfl, arranged.add taken, arranged.reported_add taken, fun k => ?_⟩
      rw [ConnectionTable.count_add taken, newLinks_cons]
      simp [TableEvent.isUp, TableEvent.link, newLinks]
  | removeEdge e =>
    refine ⟨n.table.removeEdge e, (n.table.detach e).1.map .disconnected, ?_, arranged.removeEdge,
      arranged.reported_detach e, fun k => ?_⟩
    · rw [List.foldl_map]
      rfl
    · exact Nat.le_trans (n.table.count_removeEdge_le e k) (Nat.le_add_right ..)
  | _ => cases changes

private theorem Keeping.changes (tracked : n.Tracked since loop l) (keeping : Keeping n l.feed)
    (changes : (NodeMove.step s).changesTable = true) (driven : (n.step s).DrivenBy loop l') :
    Keeping (n.step s) l'.feed := by
  obtain ⟨table, es, told, arranged, change, more⟩ := exists_reported tracked.arranged changes
  have published := n.outlook_publish table es
  rw [told] at driven ⊢
  obtain rfl := (tracked.reported arranged change).driven.unique driven
  obtain ⟨links, -, desired, current⟩ := outlook_eq_iff.mp published
  refine ⟨?_, fun whole => ?_⟩
  · rw [current, desired]
    exact keeping.current
  · obtain ⟨before, unread⟩ := EventFeed.foldl_push es whole
    obtain ⟨within, room⟩ := keeping.links before
    rw [unread]
    refine ⟨?_, ?_⟩
    · rw [current, desired]
      exact within
    · have gained := more .unstructured
      rw [Node.links] at room
      rw [Node.links, links, current, newLinks_append]
      omega

private theorem Keeping.reads (tracked : n.Tracked since loop l) (keeping : Keeping n l.feed)
    (in_time : l.feed.inTime = true) (driven : (n.readNext loop).DrivenBy loop l') :
    Keeping (n.readNext loop) l'.feed := by
  simp only [EventFeed.inTime, Bool.and_eq_true, beq_iff_eq] at in_time
  obtain ⟨whole, one⟩ := in_time
  have within := keeping.links whole
  simp only [readNext, tracked.driven.task?] at driven ⊢
  cases next : l.feed.next? with
  | none =>
    simp only [next] at driven ⊢
    obtain rfl := tracked.driven.unique driven
    exact keeping
  | some head =>
    obtain ⟨item, feed⟩ := head
    obtain ⟨e, rfl, unread⟩ := EventFeed.next?_of_whole whole next
    rw [unread] at within one
    simp only [next] at driven ⊢
    have step : Follows loop e.word (n.setTask loop (.drive { l with feed })) _ :=
      follows_handleEvent _ e
    obtain rfl := (step.driven _ (tracked.driven.setLoop { l with feed })).unique driven
    have set : Within (newLinks .unstructured (e :: feed.unread))
        (n.setTask loop (.drive { l with feed })) := within.steady rfl
    have counts : .unstructured ∈ (n.setTask loop (.drive { l with feed })).overlords :=
      tracked.counts
    obtain ⟨handled, -⟩ := set.read one counts
    exact ⟨handled.current, fun _ => handled⟩

private theorem Keeping.polls (tracked : n.Tracked since loop l) (keeping : Keeping n l.feed)
    (in_time : l.feed.inTime = true) : Keeping (n.poll loop) .fresh := by
  simp only [EventFeed.inTime, Bool.and_eq_true, beq_iff_eq] at in_time
  obtain ⟨whole, one⟩ := in_time
  have goesOn : ¬ l.stopping = true := by simp [tracked.stopping]
  rw [tracked.driven.poll_eq tracked.started, pollRunning, if_neg goesOn]
  obtain ⟨beats, nextBeat⟩ := beatsDue n.config.timing.heartbeatMs n.now l.nextBeat
  dsimp only
  have beaten := steady_routine.repeat steady_routine.heartbeat beats n
  have follows : Follows loop (fun _ => none) n (Nat.repeat heartbeat beats n) :=
    follows_heartbeats beats n
  have counts := follows.overlords ▸ tracked.counts
  have read := ((keeping.links whole).steady beaten).readAll one counts
  have fed : (Nat.repeat heartbeat beats n).handleFeed l.feed =
      l.feed.unread.foldl Node.handleEvent (Nat.repeat heartbeat beats n) :=
    if_neg (not_not.mpr whole)
  rw [← fed] at read
  refine ⟨?_, fun _ => ?_⟩
  · split <;> exact read.current
  · split <;> exact read.steady rfl

theorem Keeping.step (tracked : n.Tracked since loop l) (keeping : Keeping n l.feed)
    (in_time : s.reads loop = true → l.feed.inTime = true) (driven : (n.step s).DrivenBy loop l') :
    Keeping (n.step s) l'.feed := by
  -- Only changes of the table and readings of the loop change what is left to read.
  by_cases quiet : s.leavesFeed loop = true
  · have follows : Follows loop (fun _ => none) n (n.step s) := follows_step tracked.driven quiet
    have same : (n.step s).DrivenBy loop l := follows.driven l tracked.driven
    obtain rfl := same.unique driven
    exact keeping.steady (steady_step tracked.driven quiet)
  · cases s with
    | add | removeEdge => exact keeping.changes tracked rfl driven
    | read id =>
      obtain rfl : id = loop := by simpa [NodeStep.leavesFeed] using quiet
      exact keeping.reads tracked (in_time (beq_self_eq_true id)) driven
    | poll id =>
      obtain rfl : id = loop := by simpa [NodeStep.leavesFeed] using quiet
      obtain ⟨l'', polled, read⟩ := tracked.poll_loop
      obtain rfl := polled.driven.unique driven
      rw [read]
      exact keeping.polls tracked (in_time (beq_self_eq_true id))
    | _ => exact absurd rfl quiet

theorem Keeping.after (tracked : n.Tracked since loop l) (keeping : Keeping n l.feed)
    (steps : List NodeStep) (in_time : n.readsInTime loop steps = true) :
    ∃ l', (n.after steps).Tracked since loop l' ∧ Keeping (n.after steps) l'.feed := by
  induction steps generalizing n l with
  | nil => exact ⟨l, tracked, keeping⟩
  | cons s steps ih =>
    obtain ⟨l', next⟩ := tracked.step s
    rw [readsInTime, tracked.driven.task?, Bool.and_eq_true] at in_time
    obtain ⟨first, rest⟩ := in_time
    have now : s.reads loop = true → l.feed.inTime = true := by
      intro reads
      rw [reads] at first
      exact first
    exact ih next (keeping.step tracked now next.driven) rest

/-- Take a node that one loop drives, without unstructured links, whose unstructured policy has not been
told anything. Whatever happens to it in whatever order, however late the loop reads: when it has
nothing to read the policy counts right, the target never falls, and it is not beyond the largest number
of links so far by more than one, or it is as at first. As long as no reading finds that more than one
link came up, there are never more links than desired. -/
theorem target_under_delay (table : n.table.Reachable)
    (policies : .unstructured ∈ n.overlords ∧ .managed ∈ n.overlords) (driven : n.DrivenBy loop l)
    (running : l.started = true ∧ l.stopping = false) (fresh : l.feed = .fresh)
    (unlinked : n.links .unstructured = 0) (unaware : n.unstructured.current = 0)
    (untouched : n.unstructured.desired = n.config.unstructured.initialDesired)
    (steps more : List NodeStep) :
    (∃ l', (n.after steps).DrivenBy loop l' ∧ (l'.feed = .fresh → (n.after steps).Counted)) ∧
    (n.after steps).unstructured.desired ≤ (n.after (steps ++ more)).unstructured.desired ∧
    (n.after steps).unstructured.desired ≤
      max n.config.unstructured.initialDesired (n.mostLinks step steps + 1) ∧
    (n.readsInTime loop steps = true →
      (n.after steps).unstructured.current ≤ (n.after steps).unstructured.desired) := by
  have tracked : n.Tracked (some n) loop l :=
    tracked_of_fresh table.arranged policies driven running fresh n.agrees_self
  refine ⟨?_, ?_, ?_, fun in_time => ?_⟩
  · obtain ⟨l', tracked⟩ := tracked.after steps
    refine ⟨l', tracked.driven, fun quiet => ?_⟩
    obtain ⟨counted | ⟨s, start, current, links⟩, -⟩ := tracked.upToDate quiet
    · exact counted
    · cases start
      exact (current.trans unaware).trans (links.trans unlinked).symm
  · have run : n.after (steps ++ more) = (n.after steps).after more := List.foldl_append
    rw [run]
    exact ((n.after steps).desired_after more).1
  · rw [← untouched]
    exact (n.desired_after steps).2
  · have start : Keeping n l.feed := by
      have enough : n.unstructured.current ≤ n.unstructured.desired := by
        rw [unaware]
        exact Nat.zero_le _
      refine ⟨enough, fun _ => ⟨enough, ?_⟩⟩
      rw [unlinked]
      exact Nat.zero_le _
    obtain ⟨l', -, keeping⟩ := start.after tracked steps in_time
    exact keeping.current

def attentive : Node :=
  { unhurried with
    tasks := [(0, .drive ⟨true, .fresh, 0, false⟩)]
    created := 1 }

def oneByOne : List NodeStep :=
  [.add ⟨7, .floor 32, "unstructured", []⟩, .read 0, .add ⟨8, .floor 64, "unstructured", []⟩, .read 0,
    .add ⟨9, .floor 96, "unstructured", []⟩, .read 0]

theorem target_under_delay_attentive : (attentive.after oneByOne).unstructured.current = 3 ∧
    3 ≤ (attentive.after oneByOne).unstructured.desired := by
  have driven : attentive.DrivenBy 0 ⟨true, .fresh, 0, false⟩ := ⟨rfl, by decide⟩
  obtain ⟨-, -, -, reads⟩ := target_under_delay (n := attentive) ⟨[], rfl⟩ (by decide) driven
    ⟨rfl, rfl⟩ rfl rfl rfl rfl oneByOne []
  have within := reads (by decide +kernel)
  have current : (attentive.after oneByOne).unstructured.current = 3 := by decide +kernel
  rw [current] at within
  exact ⟨current, within⟩

/-- Three links come up before the loop reads of the first one. -/
def allAtOnce : List NodeStep :=
  [.add ⟨7, .floor 32, "unstructured", []⟩, .add ⟨8, .floor 64, "unstructured", []⟩,
    .add ⟨9, .floor 96, "unstructured", []⟩, .read 0, .read 0, .read 0]

/-- A loop that has read of every change, where the target is left behind. -/
theorem target_left_behind :
    (((unhurried.run.poll 0).after allAtOnce).task? 0).bind feed? = some .fresh ∧
    ((unhurried.run.poll 0).after allAtOnce).unstructured.current = 3 ∧
    ((unhurried.run.poll 0).after allAtOnce).unstructured.desired = 2 := by
  decide +kernel

end

end Node

end RingOverlay

import RingOverlay.Proofs.Node.Beside
/-!
What the policy for pinned peers does with the pursuit of a peer when it is told something: it changes
its books, and starts a handshake at most.
-/

set_option autoImplicit false
set_option relaxedAutoImplicit false

namespace RingOverlay

namespace Node

structure Passes (a : RingAddress) (es : List PinEvent) (n m : Node) : Prop where
  sound : m.Sound
  run : Pursuit.Run es (n.pursuit a) (m.pursuit a)

structure Leads (a : RingAddress) (es : List PinEvent) (n m : Node) : Prop
    extends Passes a es n m where
  kept : ∀ k ∈ n.chases, k ∈ m.chases
  overlords : m.overlords = n.overlords

section

variable {a b : RingAddress} {es fs : List PinEvent} {n m k : Node}

theorem Passes.trans (first : Passes a es n m) (second : Passes a fs m k) :
    Passes a (es ++ fs) n k :=
  ⟨second.sound, first.run.append second.run⟩

theorem Passes.of_eq (sound : m.Sound) (same : m.pursuit a = n.pursuit a) : Passes a [] n m := by
  refine ⟨sound, ?_⟩
  rw [same]
  exact .nil _

theorem Leads.trans (first : Leads a es n m) (second : Leads a fs m k) : Leads a (es ++ fs) n k where
  toPasses := first.toPasses.trans second.toPasses
  kept u hu := second.kept u (first.kept u hu)
  overlords := second.overlords.trans first.overlords

theorem Leads.refl (sound : n.Sound) : Leads a [] n n :=
  ⟨⟨sound, .nil _⟩, fun _ hk => hk, rfl⟩

theorem Beside.leads (beside : Beside n m) (sound : n.Sound) : Leads a [] n m :=
  ⟨.of_eq (beside.sound sound) (beside.pursuit_eq a), beside.kept, beside.overlords⟩

theorem Beside.foldl_mem {α : Type} {f : Node → α → Node} {as : List α}
    (each : ∀ x ∈ as, ∀ m, Beside n m → Beside m (f m x)) : Beside n (as.foldl f n) := by
  suffices along : ∀ m, Beside n m → Beside n (as.foldl f m) from along n (.refl n)
  induction as with
  | nil => exact fun m beside => beside
  | cons x as ih =>
    intro m beside
    refine ih (fun y hy => each y (List.mem_cons_of_mem _ hy)) _ ?_
    exact beside.trans (each x List.mem_cons_self m beside)

theorem leads_toldTo {f : Node → OverlordKind → Node}
    (other : ∀ n k, k ≠ .managed → Beside n (f n k))
    (own : ∀ n, n.Sound → Leads a es n (f n .managed)) (k : OverlordKind) (sound : n.Sound) :
    Leads a (toldTo k es) n (f n k) := by
  unfold toldTo
  split
  · rename_i addressed
    rw [addressed]
    exact own n sound
  · rename_i addressed
    exact (other n k addressed).leads sound

theorem leads_told {f : Node → OverlordKind → Node}
    (other : ∀ n k, k ≠ .managed → Beside n (f n k))
    (own : ∀ n, n.Sound → Leads a es n (f n .managed)) (ks : List OverlordKind) (sound : n.Sound) :
    Leads a (ks.flatMap (toldTo · es)) n (ks.foldl f n) := by
  induction ks generalizing n with
  | nil => exact .refl sound
  | cons k ks ih =>
    have first := leads_toldTo other own k sound
    exact first.trans (ih first.sound)

theorem chases_connectPinned (n : Node) (b : RingAddress) :
    (n.connectPinned b).chases = n.chases ++ [(n.created, some (.connector b))] :=
  chases_spawn ..

theorem countP_spawn (n : Node) (t : Task) (d : Chase) :
    (n.spawn t).tasks.countP (·.2.chase = some d) =
      n.tasks.countP (·.2.chase = some d) + if t.chase = some d then 1 else 0 := by
  simp [spawn, List.countP_append, List.countP_singleton]

theorem pursuit_connectPinned (n : Node) (a b : RingAddress) : (n.connectPinned b).pursuit a =
    { n.pursuit a with connectors := n.connectors a + if b = a then 1 else 0 } := by
  have started (d : Chase) := countP_spawn n (.handshake ⟨.begin (.exact b)
    (n.connectRequest managedType), .managed, .structuredTo b, n.config.timing.replyTimeoutMs⟩) d
  have chase : (Task.handshake ⟨.begin (.exact b) (n.connectRequest managedType), .managed,
    .structuredTo b, n.config.timing.replyTimeoutMs⟩).chase = some (.connector b) := rfl
  simp only [chase, Option.some_inj] at started
  have connectors := started (.connector a)
  have retries := started (.retry a)
  simp only [Chase.connector.injEq, reduceCtorEq, if_false, Nat.add_zero] at connectors retries
  exact Pursuit.ext connectors retries rfl

theorem connectAll_spec (as : List RingAddress) (sound : n.Sound) :
    (n.connectAll as).Sound ∧ (∀ k ∈ n.chases, k ∈ (n.connectAll as).chases) ∧
      (n.connectAll as).overlords = n.overlords ∧ ∀ a, (n.connectAll as).pursuit a =
        { n.pursuit a with connectors := n.connectors a + as.count a } := by
  induction as generalizing n with
  | nil => exact ⟨sound, fun _ hk => hk, rfl, fun a => rfl⟩
  | cons b as ih =>
    obtain ⟨sound', kept, overlords, pursuit⟩ := ih (n := n.connectPinned b) (sound.spawn _)
    refine ⟨sound', fun k hk => kept k ?_, overlords, fun a => ?_⟩
    · rw [chases_connectPinned]
      exact List.mem_append_left _ hk
    · have first := pursuit_connectPinned n a b
      have connectors := congrArg Pursuit.connectors first
      change (n.connectPinned b).connectors a = _ at connectors
      change ((n.connectPinned b).connectAll as).pursuit a = _
      rw [pursuit a, first, connectors, List.count_cons]
      simp only [beq_iff_eq, Nat.add_assoc, Nat.add_comm]

private theorem leads_of_run {managed : ManagedOverlord} {as : List RingAddress} (sound : n.Sound)
    (distinct : managed.Distinct)
    (run : Pursuit.Run es (n.pursuit a)
      ⟨n.connectors a + as.count a, n.retries a, managed.state? a⟩) :
    Leads a es n ({ n with managed }.connectAll as) := by
  have changed : { n with managed }.Sound := ⟨sound.numbered, sound.unique, distinct⟩
  obtain ⟨sound', kept, overlords, pursuit⟩ := connectAll_spec as changed
  refine ⟨⟨sound', ?_⟩, kept, overlords⟩
  rw [pursuit a]
  exact run

theorem leads_word {w : PinWord} (managed : ManagedOverlord) (as : List RingAddress)
    (sound : n.Sound) (distinct : managed.Distinct)
    (few : as.count a ≤ if w.rouses then 1 else 0) :
    Leads a [.word w] n ({ n with managed }.connectAll as) :=
  leads_of_run sound distinct (.single (.word _ _ few))

theorem leads_silent (managed : ManagedOverlord) (as : List RingAddress) (sound : n.Sound)
    (distinct : managed.Distinct) (state : managed.state? a = n.managed.state? a) (absent : a ∉ as) :
    Leads a [] n ({ n with managed }.connectAll as) := by
  refine leads_of_run sound distinct ?_
  rw [List.count_eq_zero.mpr absent, state]
  exact .nil _

private theorem leads_checkPins {w : PinWord} (managed : ManagedOverlord) (sound : n.Sound)
    (distinct : managed.Distinct) (rouses : w.rouses = true) :
    Leads a [.word w] n { n with managed }.checkPins := by
  refine leads_word managed _ sound distinct ?_
  rw [if_pos rouses]
  exact List.nodup_iff_count_le_one.mp (distinct.nodup_idle _) a

private theorem leads_nothing {w : PinWord} (managed : ManagedOverlord) (sound : n.Sound)
    (distinct : managed.Distinct) : Leads a [.word w] n { n with managed } :=
  leads_word managed [] sound distinct (Nat.zero_le _)

theorem leads_activateManaged (sound : n.Sound) :
    Leads a [.word .activate] n n.activateManaged := by
  unfold activateManaged
  split
  · exact leads_checkPins n.managed sound sound.distinct rfl
  · exact leads_nothing n.managed sound sound.distinct

theorem leads_resyncManaged (sound : n.Sound) :
    Leads a [.word .resync] n (n.resyncOne .managed) := by
  have distinct : (n.managed.resync n.isConnected).Distinct := sound.distinct.mapStates _
  simp only [resyncOne, activateManaged]
  split
  · exact leads_checkPins _ sound distinct rfl
  · exact leads_nothing _ sound distinct

theorem leads_check (sound : n.Sound) : Leads a [.word .check] n (n.beat .managed) := by
  simp only [beat]
  split
  · rename_i checked due
    have distinct : checked.Distinct := by
      rw [ManagedOverlord.Distinct, ManagedOverlord.pins_of_beginCheck? due]
      exact sound.distinct
    exact leads_checkPins checked sound distinct rfl
  · exact leads_nothing n.managed sound sound.distinct

private theorem beat_of_not_due (early : n.managed.beginCheck? n.config.managed n.now = none) :
    n.beat .managed = n := by
  simp only [beat, early]

theorem leads_beatManaged (sound : n.Sound) : Leads a n.dueCheck n (n.beat .managed) := by
  unfold dueCheck
  cases due : n.managed.beginCheck? n.config.managed n.now with
  | none =>
    rw [beat_of_not_due due]
    exact .refl sound
  | some checked => exact leads_check sound

private theorem Beside.not_due (beside : Beside n m)
    (early : n.managed.beginCheck? n.config.managed n.now = none) :
    m.managed.beginCheck? m.config.managed m.now = none := by
  rw [beside.managed, beside.config, beside.now]
  exact early

theorem beside_heartbeat (early : n.managed.beginCheck? n.config.managed n.now = none) :
    Beside n n.heartbeat := by
  refine .foldl_mem fun k _ m beside => ?_
  by_cases own : k = .managed
  · rw [own, beat_of_not_due (beside.not_due early)]
    exact .refl m
  · exact beside_beat own m

private theorem beside_heartbeats (early : n.managed.beginCheck? n.config.managed n.now = none)
    (beats : Nat) : Beside n (Nat.repeat heartbeat beats n) := by
  induction beats with
  | zero => exact .refl n
  | succ beats ih => exact ih.trans (beside_heartbeat (ih.not_due early))

private theorem leads_checks (sound : n.Sound) :
    Leads a (n.told [.word .check]) n n.heartbeat :=
  leads_told (fun m _ other => beside_beat other m) (fun _ => leads_check) n.overlords sound

theorem told_nil (n : Node) : n.told [] = [] := by
  simp [told, toldTo]

theorem leads_heartbeats (sound : n.Sound) (beats : Nat) :
    Leads a (List.replicate beats (n.told n.dueCheck)).flatten n (Nat.repeat heartbeat beats n) := by
  unfold dueCheck
  cases due : n.managed.beginCheck? n.config.managed n.now with
  | none =>
    have nothing : (List.replicate beats (n.told [])).flatten = [] := by simp [told_nil]
    rw [Option.isSome_none, if_neg Bool.false_ne_true, nothing]
    exact (beside_heartbeats due beats).leads sound
  | some checked =>
    rw [Option.isSome_some, if_pos rfl]
    induction beats with
    | zero => exact .refl sound
    | succ beats ih =>
      have last := leads_checks (a := a) ih.sound
      rw [told, ih.overlords] at last
      rw [List.replicate_succ', List.flatten_append, List.flatten_singleton]
      exact ih.trans last

theorem leads_heartbeat (sound : n.Sound) : Leads a (n.told n.dueCheck) n n.heartbeat := by
  have once := leads_heartbeats (a := a) sound 1
  rw [List.replicate_one, List.flatten_singleton] at once
  exact once

private theorem leads_note {w : PinWord} (managed : ManagedOverlord) (sound : n.Sound)
    (distinct : managed.Distinct) (state : b ≠ a → managed.state? a = n.managed.state? a) :
    Leads a (if b = a then [.word w] else []) n { n with managed } := by
  split
  · exact leads_nothing managed sound distinct
  · rename_i other
    exact leads_silent managed [] sound distinct (state other) List.not_mem_nil

private theorem leads_notice {w : PinWord} (go : Bool) (managed : ManagedOverlord) (sound : n.Sound)
    (distinct : managed.Distinct) (state : b ≠ a → managed.state? a = n.managed.state? a)
    (rouses : w.rouses = true) : Leads a (if b = a then [.word w] else []) n
      (if go then { n with managed }.connectPinned b else { n with managed }) := by
  cases go with
  | false => exact leads_note managed sound distinct state
  | true =>
    change Leads a _ n ({ n with managed }.connectAll [b])
    split
    · refine leads_word managed [b] sound distinct ?_
      rw [if_pos rouses]
      exact List.count_le_length
    · rename_i other
      refine leads_silent managed [b] sound distinct (state other) ?_
      rw [List.mem_singleton]
      exact Ne.symm other

private theorem spoken_of_structured (e : TableEvent)
    (structured : e.link.mainType = .structured) : spoken a e =
      if e.link.address = a then [.word (if e.isUp then .up else .down)] else [] := by
  unfold spoken TableEvent.word
  by_cases about : e.link.address = a
  · rw [if_pos ⟨structured, about⟩, if_pos about]
    cases e.isUp <;> rfl
  · rw [if_neg fun told => about told.2, if_neg about]

private theorem spoken_of_other (e : TableEvent) (other : e.link.mainType ≠ .structured) :
    spoken a e = [] := by
  unfold spoken TableEvent.word
  rw [if_neg fun told => other told.1]

theorem leads_linkUp (sound : n.Sound) (c : Connection) :
    Leads a (spoken a (.connected c)) n (n.linkUp c .managed) := by
  have distinct : (n.managed.linkUp c.address).Distinct := sound.distinct.mapStates _
  simp only [linkUp]
  by_cases structured : c.mainType = .structured
  · rw [if_pos structured, spoken_of_structured (.connected c) structured]
    exact leads_note _ sound distinct
      fun other => ManagedOverlord.state?_setState_of_ne (Ne.symm other) _
  · rw [if_neg structured, spoken_of_other (.connected c) structured]
    exact .refl sound

theorem leads_linkDown (sound : n.Sound) (c : Connection) :
    Leads a (spoken a (.disconnected c)) n (n.linkDown c .managed) := by
  have distinct : (n.managed.linkDown c.address).2.Distinct := sound.distinct.mapStates _
  simp only [linkDown]
  by_cases structured : c.mainType = .structured
  · rw [if_pos structured, spoken_of_structured (.disconnected c) structured]
    exact leads_notice _ _ sound distinct
      (fun other => ManagedOverlord.state?_setState_of_ne (Ne.symm other) _) rfl
  · rw [if_neg structured, spoken_of_other (.disconnected c) structured]
    exact .refl sound

private theorem leads_hear (sound : n.Sound) (e : TableEvent) :
    Leads a (spoken a e) n (hear e n .managed) := by
  cases e with
  | connected c => exact leads_linkUp sound c
  | disconnected c => exact leads_linkDown sound c

theorem leads_handleEvent (sound : n.Sound) (e : TableEvent) :
    Leads a (n.told (spoken a e)) n (n.handleEvent e) := by
  rw [handleEvent_eq]
  exact leads_told (fun m _ other => beside_hear other e m) (fun _ sound => leads_hear sound e)
    n.overlords sound

theorem leads_resync (sound : n.Sound) : Leads a (n.told [.word .resync]) n n.resync :=
  leads_told (fun m _ other => beside_resyncOne other m) (fun _ => leads_resyncManaged) n.overlords
    sound

private theorem leads_events (sound : n.Sound) (events : List TableEvent) :
    Leads a (events.flatMap fun e => n.told (spoken a e)) n (events.foldl handleEvent n) := by
  induction events generalizing n with
  | nil => exact .refl sound
  | cons e events ih =>
    have first := leads_handleEvent (a := a) sound e
    have rest := ih first.sound
    simp only [told, first.overlords] at rest
    exact first.trans rest

theorem leads_handleFeed (sound : n.Sound) (feed : EventFeed) :
    Leads a (n.feedEvents a feed) n (n.handleFeed feed) := by
  unfold feedEvents handleFeed
  split
  · exact leads_resync sound
  · exact leads_events sound feed.unread

theorem leads_setActive (sound : n.Sound) (active : Bool) (k : OverlordKind) :
    Leads a [] n (n.setActive active k) := by
  by_cases own : k = .managed
  · subst own
    exact leads_silent { n.managed with active } [] sound sound.distinct rfl List.not_mem_nil
  · exact (beside_setActive own active n).leads sound

private theorem leads_switch (sound : n.Sound) (active : Bool) (ks : List OverlordKind) :
    Leads a [] n (ks.foldl (setActive · active) n) := by
  induction ks generalizing n with
  | nil => exact .refl sound
  | cons k ks ih =>
    have first := leads_setActive (a := a) sound active k
    exact first.trans (ih first.sound)

theorem leads_start (sound : n.Sound) : Leads a (n.told [.word .activate]) n n.start := by
  have switched := leads_switch (a := a) sound true n.overlords
  have sought := leads_told (a := a) (fun m _ other => beside_activate other m)
    (fun _ => leads_activateManaged) n.overlords switched.sound
  exact switched.trans sought

theorem leads_stop (sound : n.Sound) : Leads a [] n n.stop :=
  leads_switch sound false n.overlords

theorem leads_pin (sound : n.Sound) (b : RingAddress) :
    Leads a (if b = a then [.word .set] else []) n (n.pin b) :=
  leads_notice _ _ sound (sound.distinct.pin ..)
    (fun other => ManagedOverlord.state?_pin_of_ne (Ne.symm other) ..) rfl

theorem leads_unpin (sound : n.Sound) (b : RingAddress) :
    Leads a (if b = a then [.word .unset] else []) n (n.unpin b).2 := by
  have unpinned : Leads a (if b = a then [.word .unset] else []) n
      { n with managed := (n.managed.unpin b).2 } :=
    leads_note _ sound (sound.distinct.unpin b)
      fun other => ManagedOverlord.state?_unpin_of_ne (Ne.symm other)
  generalize (if b = a then [PinEvent.word .unset] else []) = es at unpinned ⊢
  simp only [unpin]
  split
  · split
    · rename_i c _ _
      have closing := beside_act { n with managed := (n.managed.unpin b).2 }
        (.close c.edge unpinReason)
      have closed := unpinned.trans (closing.leads (a := a) unpinned.sound)
      rw [List.append_nil] at closed
      exact closed
    · exact unpinned
  · exact unpinned

end

end Node

end RingOverlay

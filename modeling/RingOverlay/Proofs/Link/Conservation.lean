import Mathlib.Data.List.Basic
import RingOverlay.Proofs.Link.Exclusion
/-!
No request is lost. What a run admits under a key leaves in the order of admission, either to the
linker or, when a link is up, with everything else that waits; the rest is still waiting. Each line
of a history keeps this balance, so all runs do.
-/

set_option autoImplicit false
set_option relaxedAutoImplicit false

namespace RingOverlay

inductive Departure where
  | handed
  | dropped
  deriving DecidableEq, Repr

namespace SetupRecord

/-- The request that a line admits under a key: one that is answered as started or queued. -/
def admitted (line : SetupRecord) (k : AttemptKey) : List LinkRequest :=
  match line.step, line.report.answer with
  | .request r, some .started | .request r, some (.queued _) => if r.key? = some k then [r] else []
  | _, _ => []

/-- The request that a line hands to the linker for a key. -/
def handed (line : SetupRecord) (k : AttemptKey) : List LinkRequest :=
  (line.report.started.toList.filter (·.key = some k)).map (·.request)

/-- The request that a line finishes for a key: that of the worker that ends. -/
def finished (line : SetupRecord) (k : AttemptKey) : List LinkRequest :=
  (line.report.ended.toList.filter (·.key = some k)).map (·.request)

/-- The requests under a key that a line makes vanish: they waited or were admitted, and are neither
handed over nor waiting after it. -/
def dropped (line : SetupRecord) (k : AttemptKey) : List LinkRequest :=
  (line.before.waiting k ++ line.admitted k).diff (line.handed k ++ line.after.waiting k)

def departures (line : SetupRecord) (k : AttemptKey) : List (Departure × LinkRequest) :=
  (line.handed k).map (.handed, ·) ++ (line.dropped k).map (.dropped, ·)

def Ends (line : SetupRecord) (k : AttemptKey) : Prop :=
  ∃ i result w, line.step = .complete i result ∧ line.before.workers[i]? = some w ∧ w.key = some k

end SetupRecord

namespace LinkSetup

/-- The requests under a key that workers are trying. -/
def running (s : LinkSetup) (k : AttemptKey) : List LinkRequest :=
  (s.workers.filter (·.key = some k)).map (·.request)

section

variable {s u : LinkSetup} {x : SetupStep} {report : SetupReport} {j k : AttemptKey}
  {q : List LinkRequest}

private theorem busy_eq_length_running (s : LinkSetup) (k : AttemptKey) :
    s.busy k = (s.running k).length := by
  rw [busy, running, List.length_map, List.countP_eq_length_filter]

private theorem waiting_put (s : LinkSetup) (j k : AttemptKey) (q : List LinkRequest)
    (ws : List LinkWork) :
    ({ s with attempts := s.attempts.put k q, workers := ws } : LinkSetup).waiting j =
      if j = k then q else s.waiting j := by
  unfold waiting
  by_cases same : j = k
  · rw [if_pos same, same]
    simp only [LinkAttempts.queue?_put_self, Option.getD_some]
  · rw [if_neg same]
    simp only [LinkAttempts.queue?_put_of_ne same]

private theorem waiting_erase (s : LinkSetup) (j k : AttemptKey) (ws : List LinkWork) :
    ({ s with attempts := s.attempts.erase k, workers := ws } : LinkSetup).waiting j =
      if j = k then [] else s.waiting j := by
  unfold waiting
  by_cases same : j = k
  · rw [if_pos same, same]
    simp only [LinkAttempts.queue?_erase_self, Option.getD_none]
  · rw [if_neg same]
    simp only [LinkAttempts.queue?_erase_of_ne same]

private theorem waiting_of_queue? (h : s.attempts.queue? k = some q) : s.waiting k = q := by
  rw [waiting, h, Option.getD_some]

private theorem waiting_of_none (h : s.attempts.queue? k = none) : s.waiting k = [] := by
  rw [waiting, h, Option.getD_none]

/-- What a line does to the requests of a key. Either a worker of the key ends while a link is up,
and all that waits is dropped; or what waits and what comes in goes to the linker from the front. -/
private inductive Flow (line : SetupRecord) (k : AttemptKey) : Prop
  | dropping : line.Ends k → line.before.table.hasKey k = true → line.admitted k = [] →
      line.handed k = [] → line.after.attempts.queue? k = none → Flow line k
  | passing : (line.Ends k → line.before.table.hasKey k = false) →
      line.before.waiting k ++ line.admitted k = line.handed k ++ line.after.waiting k → Flow line k

private theorem ends_iff {i : Nat} {result : Except LinkError Unit} {w : LinkWork}
    (found : s.workers[i]? = some w) (key : w.key = some k) :
    SetupRecord.Ends ⟨s, .complete i result, report, u⟩ j ↔ k = j := by
  constructor
  · rintro ⟨i, result, v, same, there, other⟩
    cases same
    obtain rfl : w = v := Option.some.inj (found.symm.trans there)
    exact Option.some.inj (key.symm.trans other)
  · rintro rfl
    exact ⟨i, result, w, rfl, found, key⟩

private theorem not_ends_request {r : LinkRequest} :
    ¬ SetupRecord.Ends ⟨s, .request r, report, u⟩ j := by
  rintro ⟨i, result, w, same, -⟩
  cases same

private theorem Move.flow (consistent : s.Consistent) (move : Move s x report u) (j : AttemptKey) :
    Flow ⟨s, x, report, u⟩ j := by
  cases move with
  | @untargeted r free =>
    refine .passing (fun ends => absurd ends not_ends_request) ?_
    simp [SetupRecord.admitted, SetupRecord.handed, free, waiting, launch]
  | @own r k key own =>
    refine .passing (fun ends => absurd ends not_ends_request) ?_
    simp [SetupRecord.admitted, SetupRecord.handed]
  | @connected r k key away up =>
    refine .passing (fun ends => absurd ends not_ends_request) ?_
    simp [SetupRecord.admitted, SetupRecord.handed]
  | @queued r k q key away down queue =>
    refine .passing (fun ends => absurd ends not_ends_request) ?_
    have after := waiting_put s j k (q ++ [r]) s.workers
    by_cases same : k = j
    · subst same
      rw [if_pos rfl] at after
      simp [SetupRecord.admitted, SetupRecord.handed, key, after, waiting_of_queue? queue]
    · rw [if_neg (Ne.symm same)] at after
      simp [SetupRecord.admitted, SetupRecord.handed, key, after, same]
  | @started r k key away down queue =>
    refine .passing (fun ends => absurd ends not_ends_request) ?_
    have after := waiting_put s j k [] (s.workers ++ [⟨some k, r⟩])
    by_cases same : k = j
    · subst same
      rw [if_pos rfl] at after
      simp [SetupRecord.admitted, SetupRecord.handed, key, launch, after, waiting_of_none queue]
    · rw [if_neg (Ne.symm same)] at after
      simp [SetupRecord.admitted, SetupRecord.handed, key, launch, after, same]
  | @absent i result none_there =>
    refine .passing ?_ (by simp [SetupRecord.admitted, SetupRecord.handed])
    rintro ⟨i, result, w, same, there, -⟩
    cases same
    rw [none_there] at there
    cases there
  | @unkeyed i result w found free =>
    refine .passing ?_ (by simp [SetupRecord.admitted, SetupRecord.handed, waiting])
    rintro ⟨i, result, v, same, there, key⟩
    cases same
    obtain rfl : w = v := Option.some.inj (found.symm.trans there)
    rw [free] at key
    cases key
  | @stray i result w k found key queue =>
    -- A worker of a key always occupies it.
    have idle : s.busy k = 0 := by
      rw [consistent.busy, LinkAttempts.isActive, queue]
      rfl
    have member := List.mem_of_getElem? found
    have := List.countP_eq_zero.mp idle w member
    simp [key] at this
  | @dropped i result w k q found key queue up =>
    by_cases same : k = j
    · subst same
      exact .dropping ((ends_iff found key).mpr rfl) up (by simp [SetupRecord.admitted])
        (by simp [SetupRecord.handed]) LinkAttempts.queue?_erase_self
    · refine .passing (fun ends => absurd ((ends_iff found key).mp ends) same) ?_
      have after := waiting_erase s j k (s.workers.eraseIdx i)
      rw [if_neg (Ne.symm same)] at after
      simp [SetupRecord.admitted, SetupRecord.handed, after]
  | @drained i result w k found key queue down =>
    have after := waiting_erase s j k (s.workers.eraseIdx i)
    refine .passing (fun ends => (ends_iff found key).mp ends ▸ down) ?_
    by_cases same : k = j
    · subst same
      rw [if_pos rfl] at after
      simp [SetupRecord.admitted, SetupRecord.handed, after, waiting_of_queue? queue]
    · rw [if_neg (Ne.symm same)] at after
      simp [SetupRecord.admitted, SetupRecord.handed, after]
  | @next i result w k r rest found key queue down =>
    have after := waiting_put s j k rest (s.workers.eraseIdx i ++ [⟨some k, r⟩])
    refine .passing (fun ends => (ends_iff found key).mp ends ▸ down) ?_
    by_cases same : k = j
    · subst same
      rw [if_pos rfl] at after
      simp [SetupRecord.admitted, SetupRecord.handed, launch, after, waiting_of_queue? queue]
    · rw [if_neg (Ne.symm same)] at after
      simp [SetupRecord.admitted, SetupRecord.handed, launch, after, same]
  | @changed call =>
    refine .passing ?_ (by simp [SetupRecord.admitted, SetupRecord.handed, waiting])
    rintro ⟨i, result, w, same, -⟩
    cases same

private theorem diff_self (xs : List LinkRequest) : xs.diff xs = [] := by
  induction xs with
  | nil => rfl
  | cons x xs ih => rw [List.diff_cons, List.erase_cons_head, ih]

private theorem Flow.dropped_eq {line : SetupRecord} (flow : Flow line k) :
    (line.Ends k ∧ line.before.table.hasKey k = true ∧ line.admitted k = [] ∧ line.handed k = [] ∧
      line.after.attempts.queue? k = none ∧ line.dropped k = line.before.waiting k) ∨
    ((line.Ends k → line.before.table.hasKey k = false) ∧ line.dropped k = [] ∧
      line.before.waiting k ++ line.admitted k = line.handed k ++ line.after.waiting k) := by
  cases flow with
  | dropping ends up admitted handed gone =>
    refine Or.inl ⟨ends, up, admitted, handed, gone, ?_⟩
    rw [SetupRecord.dropped, admitted, handed, waiting_of_none gone]
    simp
  | passing down balance =>
    refine Or.inr ⟨down, ?_, balance⟩
    rw [SetupRecord.dropped, balance]
    exact diff_self _

private theorem Flow.balance {line : SetupRecord} (flow : Flow line k) :
    line.before.waiting k ++ line.admitted k =
      (line.departures k).map (·.2) ++ line.after.waiting k := by
  have departed : (line.departures k).map (·.2) = line.handed k ++ line.dropped k := by
    simp [SetupRecord.departures, Function.comp_def]
  rw [departed]
  rcases flow.dropped_eq with ⟨-, -, admitted, handed, gone, dropped⟩ | ⟨-, dropped, balance⟩
  · rw [admitted, handed, dropped, waiting_of_none gone]
    simp
  · rw [dropped, balance, List.append_nil]

private theorem filter_eraseIdx {w : LinkWork} {ws : List LinkWork} {i : Nat} {p : LinkWork → Bool}
    (found : ws[i]? = some w) (single : ws.countP p ≤ 1) :
    [w].filter p ++ (ws.eraseIdx i).filter p = ws.filter p := by
  obtain ⟨inside, rfl⟩ := List.getElem?_eq_some_iff.mp found
  have same := (List.getElem_cons_eraseIdx_perm inside).filter p
  rw [← List.filter_append, List.singleton_append]
  rw [List.countP_eq_length_filter] at single
  -- With one worker at most, the same workers stand in the same order.
  generalize ws.filter p = chosen at same single ⊢
  match chosen, single with
  | [], _ => exact same.eq_nil
  | [v], _ => exact List.perm_singleton.mp same

private theorem Move.workers_eq (consistent : s.Consistent) (move : Move s x report u)
    (j : AttemptKey) :
    ∃ ws, u.workers = ws ++ report.started.toList ∧
      report.ended.toList.filter (·.key = some j) ++ ws.filter (·.key = some j) =
        s.workers.filter (·.key = some j) := by
  have single : s.busy j ≤ 1 := consistent.busy_le_one j
  cases move with
  | untargeted | started => exact ⟨s.workers, rfl, rfl⟩
  | own | connected | queued | absent | changed => exact ⟨s.workers, (List.append_nil _).symm, rfl⟩
  | unkeyed found | stray found | dropped found | drained found =>
    exact ⟨s.workers.eraseIdx _, (List.append_nil _).symm, filter_eraseIdx found single⟩
  | next found => exact ⟨s.workers.eraseIdx _, rfl, filter_eraseIdx found single⟩

private theorem Move.running_balance (consistent : s.Consistent) (move : Move s x report u)
    (j : AttemptKey) :
    s.running j ++ SetupRecord.handed ⟨s, x, report, u⟩ j =
      SetupRecord.finished ⟨s, x, report, u⟩ j ++ u.running j := by
  obtain ⟨ws, workers, ended⟩ := move.workers_eq consistent j
  unfold running SetupRecord.handed SetupRecord.finished
  rw [workers, ← ended, List.filter_append, List.map_append, List.map_append, List.append_assoc]

/-- A request is answered as queued if and only if it comes to stand last among those that wait
behind the worker of its key. -/
private theorem Move.queued_iff (consistent : s.Consistent) {r : LinkRequest} {n : Nat}
    (move : Move s (.request r) report u) :
    report.answer = some (.queued n) ↔
      ∃ k, r.key? = some k ∧ u.waiting k = s.waiting k ++ [r] ∧ (u.waiting k).length = n ∧
        u.busy k = 1 := by
  have unmoved : ∀ xs : List LinkRequest, xs ≠ xs ++ [r] := by simp
  cases move with
  | untargeted free =>
    refine ⟨fun answer => (by cases answer), ?_⟩
    rintro ⟨k, key, -⟩
    rw [free] at key
    cases key
  | own | connected =>
    refine ⟨fun answer => (by cases answer), ?_⟩
    rintro ⟨k, -, last, -⟩
    exact absurd last (unmoved _)
  | @queued r k q key away down queue =>
    have after := waiting_put s k k (q ++ [r]) s.workers
    rw [if_pos rfl] at after
    constructor
    · intro answer
      cases answer
      refine ⟨k, key, ?_, ?_, ?_⟩
      · rw [after, waiting_of_queue? queue]
      · rw [after, List.length_append, List.length_singleton]
      · have active : s.attempts.isActive k = true := by
          rw [LinkAttempts.isActive, queue]
          rfl
        exact (consistent.busy k).trans (if_pos active)
    · rintro ⟨j, key', -, length, -⟩
      obtain rfl : k = j := Option.some.inj (key.symm.trans key')
      rw [after, List.length_append, List.length_singleton] at length
      rw [← length]
  | @started r k key away down queue =>
    refine ⟨fun answer => (by cases answer), ?_⟩
    rintro ⟨j, key', last, -⟩
    obtain rfl : k = j := Option.some.inj (key.symm.trans key')
    have after := waiting_put s k k [] (s.workers ++ [⟨some k, r⟩])
    rw [if_pos rfl] at after
    have none_waiting := after.symm.trans last
    simp at none_waiting

/-- What is balanced in each line is balanced over a run: what was held at first and what came in
has gone out, in this order, or is held at last. -/
private theorem Consistent.balance_history (consistent : s.Consistent)
    (held : LinkSetup → List LinkRequest) (came went : SetupRecord → List LinkRequest)
    (line : ∀ {s x report u}, Consistent s → Move s x report u →
      held s ++ came ⟨s, x, report, u⟩ = went ⟨s, x, report, u⟩ ++ held u)
    (steps : List SetupStep) :
    held s ++ (s.history steps).flatMap came =
      (s.history steps).flatMap went ++ held (s.run steps) := by
  induction steps generalizing s with
  | nil => exact List.append_nil _
  | cons x steps ih =>
    have first := line consistent (step_move s x)
    have rest := ih (consistent.step x)
    simp only [history, List.flatMap_cons, List.append_assoc] at rest ⊢
    rw [← List.append_assoc, first, List.append_assoc]
    exact congrArg _ rest

theorem Consistent.waiting_history (consistent : s.Consistent) (steps : List SetupStep)
    (k : AttemptKey) :
    s.waiting k ++ (s.history steps).flatMap (·.admitted k) =
      ((s.history steps).flatMap (·.departures k)).map (·.2) ++ (s.run steps).waiting k := by
  rw [List.map_flatMap]
  exact consistent.balance_history (·.waiting k) (·.admitted k)
    (fun line => (line.departures k).map (·.2)) (fun before move => (move.flow before k).balance) steps

theorem Consistent.running_history (consistent : s.Consistent) (steps : List SetupStep)
    (k : AttemptKey) :
    s.running k ++ (s.history steps).flatMap (·.handed k) =
      (s.history steps).flatMap (·.finished k) ++ (s.run steps).running k :=
  consistent.balance_history (·.running k) (·.handed k) (·.finished k)
    (fun before move => move.running_balance before k) steps

end

end LinkSetup

structure Accounted (lines : List SetupRecord) (s : LinkSetup) (k : AttemptKey) : Prop where
  /-- All that was admitted has left in the order of admission, or waits in that order. -/
  order : (lines.flatMap (·.departures k)).map (·.2) ++ s.waiting k = lines.flatMap (·.admitted k)
  /-- Those that left by being handed over are what the linker was handed, in this order. -/
  handed : ((lines.flatMap (·.departures k)).filter (·.1 = .handed)).map (·.2) =
    lines.flatMap (·.handed k)
  dropped : ((lines.flatMap (·.departures k)).filter (·.1 = .dropped)).map (·.2) =
    lines.flatMap (·.dropped k)
  workers : lines.flatMap (·.finished k) ++ s.running k = lines.flatMap (·.handed k)
  single : (s.running k).length ≤ 1
  /-- The linker is handed each admitted request at most once and in the order of admission. -/
  sublist : (lines.flatMap (·.handed k)).Sublist (lines.flatMap (·.admitted k))
  /-- Admitted are the finished, the running, the waiting and the dropped. -/
  count : (lines.flatMap (·.admitted k)).length =
    (lines.flatMap (·.finished k)).length + (s.running k).length + (s.waiting k).length +
      (lines.flatMap (·.dropped k)).length

namespace LinkSetup

section

variable {lines : List SetupRecord} {k : AttemptKey}

private theorem filter_departures (way : Departure) {left : SetupRecord → List LinkRequest}
    (line : ∀ line : SetupRecord, ((line.departures k).filter (·.1 = way)).map (·.2) = left line) :
    ((lines.flatMap (·.departures k)).filter (·.1 = way)).map (·.2) = lines.flatMap left := by
  rw [List.filter_flatMap, List.map_flatMap]
  exact List.flatMap_congr fun x _ => line x

private theorem filter_departures_handed :
    ((lines.flatMap (·.departures k)).filter (·.1 = .handed)).map (·.2) =
      lines.flatMap (·.handed k) :=
  filter_departures .handed fun line => by
    simp [SetupRecord.departures, List.filter_map, Function.comp_def]

private theorem filter_departures_dropped :
    ((lines.flatMap (·.departures k)).filter (·.1 = .dropped)).map (·.2) =
      lines.flatMap (·.dropped k) :=
  filter_departures .dropped fun line => by
    simp [SetupRecord.departures, List.filter_map, Function.comp_def]

private theorem length_departures (lines : List SetupRecord) (k : AttemptKey) :
    (lines.flatMap (·.departures k)).length =
      (lines.flatMap (·.handed k)).length + (lines.flatMap (·.dropped k)).length := by
  induction lines with
  | nil => rfl
  | cons line lines ih =>
    simp only [List.flatMap_cons, List.length_append, ih]
    simp only [SetupRecord.departures, List.length_append, List.length_map]
    omega

private theorem Consistent.dropped_of_mem_history {s : LinkSetup} (consistent : s.Consistent)
    {steps : List SetupStep} {line : SetupRecord} (member : line ∈ s.history steps) :
    (line.dropped k ≠ [] → line.Ends k ∧ line.before.table.Holds k) ∧
    (line.Ends k → line.before.table.Holds k →
      line.dropped k = line.before.waiting k ∧ line.after.attempts.queue? k = none) := by
  obtain ⟨before, move⟩ := consistent.of_mem_history member
  rw [← before.table.hasKey_iff]
  rcases (move.flow before k).dropped_eq with ⟨ends, up, -, -, gone, all⟩ | ⟨down, nothing, -⟩
  · exact ⟨fun _ => ⟨ends, up⟩, fun _ _ => ⟨all, gone⟩⟩
  · refine ⟨fun some_dropped => absurd nothing some_dropped, fun ends up => ?_⟩
    rw [down ends] at up
    cases up

end

theorem accounted (here : RingAddress) (steps : List SetupStep) (k : AttemptKey) :
    Accounted ((fresh here).history steps) ((fresh here).run steps) k := by
  have order : (((fresh here).history steps).flatMap (·.departures k)).map (·.2) ++
      ((fresh here).run steps).waiting k = ((fresh here).history steps).flatMap (·.admitted k) :=
    ((consistent_fresh here).waiting_history steps k).symm
  have workers : ((fresh here).history steps).flatMap (·.finished k) ++
      ((fresh here).run steps).running k = ((fresh here).history steps).flatMap (·.handed k) :=
    ((consistent_fresh here).running_history steps k).symm
  refine ⟨order, filter_departures_handed, filter_departures_dropped, workers, ?_, ?_, ?_⟩
  · rw [← busy_eq_length_running]
    exact ((consistent_fresh here).run steps).busy_le_one k
  · rw [← order, ← filter_departures_handed]
    exact (List.filter_sublist.map _).trans (List.sublist_append_left _ _)
  · have lengths := congrArg List.length order
    have tried := congrArg List.length workers
    rw [List.length_append, List.length_map, length_departures] at lengths
    rw [List.length_append] at tried
    omega

/-- While the table never has a link for a key, all that is admitted under it is tried, one request
after another; the key is in the map exactly until the last of them has finished. -/
private theorem served_while_unlinked (here : RingAddress) (steps : List SetupStep) (k : AttemptKey)
    (unlinked : ∀ line ∈ (fresh here).history steps, ¬ line.before.table.Holds k) :
    ((fresh here).history steps).flatMap (·.handed k) ++ ((fresh here).run steps).waiting k =
      ((fresh here).history steps).flatMap (·.admitted k) ∧
    (((fresh here).run steps).attempts.isActive k = true ↔
      (((fresh here).history steps).flatMap (·.finished k)).length <
        (((fresh here).history steps).flatMap (·.admitted k)).length) := by
  have books := accounted here steps k
  have consistent := (consistent_fresh here).run steps
  have nothing : ∀ line ∈ (fresh here).history steps, line.dropped k = [] := by
    intro line member
    by_contra some_dropped
    exact unlinked line member
      (((consistent_fresh here).dropped_of_mem_history member).1 some_dropped).2
  have dropped : ((fresh here).history steps).flatMap (·.dropped k) = [] :=
    List.flatMap_eq_nil_iff.mpr nothing
  have departed : ((fresh here).history steps).flatMap (·.departures k) =
      (((fresh here).history steps).flatMap (·.handed k)).map (.handed, ·) := by
    rw [List.map_flatMap]
    refine List.flatMap_congr fun line member => ?_
    rw [SetupRecord.departures, nothing line member, List.map_nil, List.append_nil]
  constructor
  · rw [← books.order, departed]
    simp [Function.comp_def]
  · have count := books.count
    have busy := consistent.busy k
    rw [busy_eq_length_running] at busy
    rw [dropped, List.length_nil] at count
    cases queue : ((fresh here).run steps).attempts.queue? k with
    | none =>
      have idle : ((fresh here).run steps).attempts.isActive k = false := by
        rw [LinkAttempts.isActive, queue]
        rfl
      rw [waiting_of_none queue, List.length_nil] at count
      rw [idle, if_neg Bool.false_ne_true] at busy
      rw [idle]
      simp only [Bool.false_eq_true, false_iff]
      omega
    | some q =>
      have active : ((fresh here).run steps).attempts.isActive k = true := by
        rw [LinkAttempts.isActive, queue]
        rfl
      rw [active, if_pos rfl] at busy
      rw [active]
      simp only [true_iff]
      omega

/-- In every run and for every key, the requests answered as started or queued are handed to the
linker in the order of their admission, each at most once, and are at every point the finished, the
running, the waiting and the dropped ones. Requests are dropped only when the worker of their key
ends while the table has a link for it, and then all together. A request is answered as the `n`-th
in the queue if and only if it comes to be the `n`-th that waits behind the worker of its key. Where
the table never has a link for the key, all admitted requests are tried one after another, and the
key is forgotten with the end of the last one. -/
theorem admitted_requests_conserved (here : RingAddress) (steps : List SetupStep) (k : AttemptKey) :
    Accounted ((fresh here).history steps) ((fresh here).run steps) k ∧
    (∀ line ∈ (fresh here).history steps,
      (line.dropped k ≠ [] → line.Ends k ∧ line.before.table.Holds k) ∧
      (line.Ends k → line.before.table.Holds k →
        line.dropped k = line.before.waiting k ∧ line.after.attempts.queue? k = none)) ∧
    (∀ line ∈ (fresh here).history steps, ∀ r n, line.step = .request r →
      (line.report.answer = some (.queued n) ↔
        ∃ j, r.key? = some j ∧ line.after.waiting j = line.before.waiting j ++ [r] ∧
          (line.after.waiting j).length = n ∧ line.after.busy j = 1)) ∧
    ((∀ line ∈ (fresh here).history steps, ¬ line.before.table.Holds k) →
      ((fresh here).history steps).flatMap (·.handed k) ++ ((fresh here).run steps).waiting k =
        ((fresh here).history steps).flatMap (·.admitted k) ∧
      (((fresh here).run steps).attempts.isActive k = true ↔
        (((fresh here).history steps).flatMap (·.finished k)).length <
          (((fresh here).history steps).flatMap (·.admitted k)).length)) := by
  refine ⟨accounted here steps k, ?_, ?_, served_while_unlinked here steps k⟩
  · intro line member
    exact (consistent_fresh here).dropped_of_mem_history member
  · rintro ⟨before, x, report, after⟩ member r n rfl
    obtain ⟨consistent, move⟩ := (consistent_fresh here).of_mem_history member
    exact move.queued_iff consistent

/-- Three requests for one peer, which are tried one after another. -/
def retries : List SetupStep :=
  [.request (retry "udp://a"), .request (retry "udp://b"), .request (retry "udp://c"),
    .complete 0 (.error .timeout), .complete 0 (.ok ()), .complete 0 (.error .edgeClosed)]
where
  retry (endpoint : String) : LinkRequest := ⟨some (.floor 18), [⟨endpoint⟩], "structured.near", ""⟩

theorem retries_conserved :
    (∀ line ∈ (fresh (.floor 2)).history retries, ¬ line.before.table.Holds ⟨.floor 18, .structured⟩) ∧
    (((fresh (.floor 2)).history retries).flatMap (·.handed ⟨.floor 18, .structured⟩)).length = 3 ∧
    ((fresh (.floor 2)).history retries).flatMap (·.handed ⟨.floor 18, .structured⟩) =
      ((fresh (.floor 2)).history retries).flatMap (·.admitted ⟨.floor 18, .structured⟩) := by
  have unlinked : ∀ line ∈ (fresh (.floor 2)).history retries,
      ¬ line.before.table.Holds ⟨.floor 18, .structured⟩ := by decide +kernel
  have none_waiting : ((fresh (.floor 2)).run retries).waiting ⟨.floor 18, .structured⟩ = [] := by
    decide +kernel
  have served :=
    ((admitted_requests_conserved (.floor 2) retries ⟨.floor 18, .structured⟩).2.2.2 unlinked).1
  rw [none_waiting, List.append_nil] at served
  exact ⟨unlinked, by decide +kernel, served⟩

end LinkSetup

end RingOverlay

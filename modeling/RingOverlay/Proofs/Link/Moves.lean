import RingOverlay.Proofs.Link.Attempts
/-!
All that a step of a link setup can do, one case for each way through the admission of a request and
the end of a worker. Later arguments go through these cases and open no step again.
-/

set_option autoImplicit false
set_option relaxedAutoImplicit false

namespace RingOverlay

namespace LinkSetup

inductive Move (s : LinkSetup) : SetupStep → SetupReport → LinkSetup → Prop
  | untargeted {r : LinkRequest} : r.key? = none →
      Move s (.request r) ⟨some .started, none, some ⟨none, r⟩⟩ (s.launch (some ⟨none, r⟩))
  | own {r : LinkRequest} {k : AttemptKey} : r.key? = some k → k.target = s.here →
      Move s (.request r) ⟨some (.rejected .connectToSelf), none, none⟩ s
  | connected {r : LinkRequest} {k : AttemptKey} : r.key? = some k → k.target ≠ s.here →
      s.table.hasKey k = true → Move s (.request r) ⟨some .alreadyConnected, none, none⟩ s
  | queued {r : LinkRequest} {k : AttemptKey} {q : List LinkRequest} : r.key? = some k →
      k.target ≠ s.here → s.table.hasKey k = false → s.attempts.queue? k = some q →
      Move s (.request r) ⟨some (.queued (q.length + 1)), none, none⟩
        { s with attempts := s.attempts.put k (q ++ [r]) }
  | started {r : LinkRequest} {k : AttemptKey} : r.key? = some k → k.target ≠ s.here →
      s.table.hasKey k = false → s.attempts.queue? k = none →
      Move s (.request r) ⟨some .started, none, some ⟨some k, r⟩⟩
        ({ s with attempts := s.attempts.put k [] }.launch (some ⟨some k, r⟩))
  | absent {i : Nat} {result : Except LinkError Unit} : s.workers[i]? = none →
      Move s (.complete i result) ⟨none, none, none⟩ s
  | unkeyed {i : Nat} {result : Except LinkError Unit} {w : LinkWork} : s.workers[i]? = some w →
      w.key = none →
      Move s (.complete i result) ⟨none, some w, none⟩ { s with workers := s.workers.eraseIdx i }
  | stray {i : Nat} {result : Except LinkError Unit} {w : LinkWork} {k : AttemptKey} :
      s.workers[i]? = some w → w.key = some k → s.attempts.queue? k = none →
      Move s (.complete i result) ⟨none, some w, none⟩ { s with workers := s.workers.eraseIdx i }
  | dropped {i : Nat} {result : Except LinkError Unit} {w : LinkWork} {k : AttemptKey}
      {q : List LinkRequest} : s.workers[i]? = some w → w.key = some k →
      s.attempts.queue? k = some q → s.table.hasKey k = true →
      Move s (.complete i result) ⟨none, some w, none⟩
        { s with attempts := s.attempts.erase k, workers := s.workers.eraseIdx i }
  | drained {i : Nat} {result : Except LinkError Unit} {w : LinkWork} {k : AttemptKey} :
      s.workers[i]? = some w → w.key = some k → s.attempts.queue? k = some [] →
      s.table.hasKey k = false →
      Move s (.complete i result) ⟨none, some w, none⟩
        { s with attempts := s.attempts.erase k, workers := s.workers.eraseIdx i }
  | next {i : Nat} {result : Except LinkError Unit} {w : LinkWork} {k : AttemptKey}
      {r : LinkRequest} {rest : List LinkRequest} : s.workers[i]? = some w → w.key = some k →
      s.attempts.queue? k = some (r :: rest) → s.table.hasKey k = false →
      Move s (.complete i result) ⟨none, some w, some ⟨some k, r⟩⟩
        ({ s with attempts := s.attempts.put k rest, workers := s.workers.eraseIdx i }.launch
          (some ⟨some k, r⟩))
  | changed {call : TableCall} :
      Move s (.change call) ⟨none, none, none⟩ { s with table := s.table.apply call }

theorem launch_none (s : LinkSetup) : s.launch none = s := by
  simp [launch]

private theorem move_request (s : LinkSetup) (r : LinkRequest) :
    Move s (.request r) (s.request r).2 (s.request r).1 := by
  rcases s.attempts.submit_cases s.here s.table r with ⟨free, done⟩ | ⟨k, key, own | up | q | start⟩
  · simp only [request, done]
    exact .untargeted free
  · obtain ⟨own, done⟩ := own
    simp only [request, done, launch_none]
    exact .own key own
  · obtain ⟨away, up, done⟩ := up
    simp only [request, done, launch_none]
    exact .connected key away up
  · obtain ⟨away, down, q, queue, done⟩ := q
    simp only [request, done, launch_none]
    exact .queued key away down queue
  · obtain ⟨away, down, queue, done⟩ := start
    simp only [request, done]
    exact .started key away down queue

private theorem move_complete (s : LinkSetup) (i : Nat) (result : Except LinkError Unit) :
    Move s (.complete i result) (s.complete i).2 (s.complete i).1 := by
  cases found : s.workers[i]? with
  | none =>
    simp only [complete, found]
    exact .absent found
  | some w =>
    cases key : w.key with
    | none =>
      simp only [complete, found, key]
      exact .unkeyed found key
    | some k =>
      simp only [complete, found, key]
      rcases s.attempts.finish_cases s.table k with ⟨queue, done⟩ | ⟨q, queue, up | down | next⟩
      · simp only [done, launch_none]
        exact .stray found key queue
      · obtain ⟨up, done⟩ := up
        simp only [done, launch_none]
        exact .dropped found key queue up
      · obtain ⟨down, rfl, done⟩ := down
        simp only [done, launch_none]
        exact .drained found key queue down
      · obtain ⟨down, r, rest, rfl, done⟩ := next
        simp only [done]
        exact .next found key queue down

theorem step_move (s : LinkSetup) (x : SetupStep) : Move s x (s.step x).2 (s.step x).1 := by
  cases x with
  | request r => exact move_request s r
  | complete i result => exact move_complete s i result
  | change call => exact .changed

end LinkSetup

end RingOverlay

import RingOverlay.Overlord.Managed
/-!
The pursuit of one pinned peer: the handshakes with it that are in flight, the retries that wait for
the end of a pause, and how the peer stands. Handshakes that end start pauses, and pauses that end
start handshakes; left alone, this comes to an end.
-/

set_option autoImplicit false
set_option relaxedAutoImplicit false

namespace RingOverlay

/-- What the policy for pinned peers can be told that concerns a peer. -/
inductive PinWord where
  | set
  | unset
  | activate
  | check
  | resync
  | up
  | down
  deriving DecidableEq, Repr

def PinWord.rouses : PinWord → Bool
  | .unset | .up => false
  | .set | .activate | .check | .resync | .down => true

/-- What happens to the pursuit of a pinned peer. -/
inductive PinEvent where
  | word (w : PinWord)
  | finish (connected : Bool)
  | fire (active : Bool)
  deriving DecidableEq, Repr

namespace PinEvent

/-- Whether a handshake may be started that does not replace a retry. -/
def rouses : PinEvent → Bool
  | .word w => w.rouses
  | .finish _ | .fire _ => false

def isWord : PinEvent → Bool
  | .word _ => true
  | .finish _ | .fire _ => false

def isFinish : PinEvent → Bool
  | .finish _ => true
  | .word _ | .fire _ => false

/-- A handshake has failed, or a pause is over while the policy is on. -/
def isUnlucky : PinEvent → Bool
  | .finish connected => !connected
  | .fire active => active
  | .word _ => false

end PinEvent

@[ext] structure Pursuit where
  connectors : Nat
  retries : Nat
  state : Option PinState
  deriving DecidableEq, Repr

/-- How far a pinned peer is from being given up. -/
def PinState.rank : PinState → Nat
  | .off | .on => 0
  | .attempt1 => 1
  | .attempt2 => 2

namespace Pursuit

def load (p : Pursuit) : Nat := p.connectors + p.retries

def rank (p : Pursuit) : Nat := p.state.elim 0 PinState.rank

/-- More handshakes than can still end if nothing is said about the peer. -/
def potential (p : Pursuit) : Nat := 3 * p.load - p.rank

def finish (p : Pursuit) (connected : Bool) : Pursuit :=
  match p.state with
  | none => { p with connectors := p.connectors - 1 }
  | some s =>
    let next := if connected then .on else s.afterFailure
    ⟨p.connectors - 1, p.retries + (if !connected && next.isAttempt then 1 else 0), some next⟩

def fire (p : Pursuit) (active : Bool) : Pursuit :=
  let wanted := active && p.state.any PinState.isAttempt
  { p with connectors := p.connectors + (if wanted then 1 else 0), retries := p.retries - 1 }

inductive Step : PinEvent → Pursuit → Pursuit → Prop
  | word {w : PinWord} {p : Pursuit} (started : Nat) (state : Option PinState)
      (atMost : started ≤ if w.rouses then 1 else 0) :
    Step (.word w) p ⟨p.connectors + started, p.retries, state⟩
  | finish {p : Pursuit} (connected : Bool) (inFlight : 0 < p.connectors) :
    Step (.finish connected) p (p.finish connected)
  | fire {p : Pursuit} (active : Bool) (waiting : 0 < p.retries) :
    Step (.fire active) p (p.fire active)

inductive Run : List PinEvent → Pursuit → Pursuit → Prop
  | nil (p : Pursuit) : Run [] p p
  | cons {e : PinEvent} {es : List PinEvent} {p q r : Pursuit} (first : Step e p q)
      (rest : Run es q r) : Run (e :: es) p r

variable {e : PinEvent} {es fs : List PinEvent} {p q r : Pursuit}

theorem Run.append (first : Run es p q) (second : Run fs q r) : Run (es ++ fs) p r := by
  induction first with
  | nil p => exact second
  | cons step _ ih => exact .cons step (ih second)

theorem Run.single (step : Step e p q) : Run [e] p q := .cons step (.nil q)

private theorem rank_le (p : Pursuit) : p.rank ≤ 2 := by
  obtain ⟨c, r, _ | s⟩ := p
  · exact Nat.zero_le 2
  · cases s with
    | off | on => exact Nat.zero_le 2
    | attempt1 => exact Nat.le_succ 1
    | attempt2 => exact Nat.le_refl 2

/-- A handshake that ends is followed by a retry at most, and the peer is then closer to being given
up; where no retry follows there is one pursuer less. -/
private theorem finish_cases (p : Pursuit) (connected : Bool) :
    (p.finish connected).connectors = p.connectors - 1 ∧
      ((p.finish connected).retries = p.retries ∧ (p.finish connected).rank = 0 ∨
        connected = false ∧ (p.finish connected).retries = p.retries + 1 ∧
          (p.finish connected).rank = p.rank + 1) := by
  obtain ⟨c, r, _ | s⟩ := p
  · exact ⟨rfl, Or.inl ⟨rfl, rfl⟩⟩
  · cases connected with
    | true => exact ⟨rfl, Or.inl ⟨rfl, rfl⟩⟩
    | false =>
      cases s with
      | off | attempt1 => exact ⟨rfl, Or.inr ⟨rfl, rfl, rfl⟩⟩
      | attempt2 | on => exact ⟨rfl, Or.inl ⟨rfl, rfl⟩⟩

private theorem fire_cases (p : Pursuit) (active : Bool) :
    (p.fire active).retries = p.retries - 1 ∧ (p.fire active).rank = p.rank ∧
      ((p.fire active).connectors = p.connectors ∨
        (p.fire active).connectors = p.connectors + 1) := by
  refine ⟨rfl, rfl, ?_⟩
  unfold fire
  cases active && p.state.any PinState.isAttempt
  · exact Or.inl rfl
  · exact Or.inr rfl

theorem Step.load_le (step : Step e p q) : q.load ≤ p.load + if e.rouses then 1 else 0 := by
  cases step with
  | @word w p started state atMost =>
    change p.connectors + started + p.retries ≤ p.connectors + p.retries + if w.rouses then 1 else 0
    omega
  | finish connected inFlight =>
    have parts := finish_cases p connected
    unfold load
    omega
  | fire active waiting =>
    have parts := fire_cases p active
    unfold load
    omega

/-- Handshakes and retries under way are as many as before at most, and one more for each word that
rouses the policy. -/
theorem Run.load_le (run : Run es p q) : q.load ≤ p.load + es.countP PinEvent.rouses := by
  induction run with
  | nil p => exact Nat.le_refl _
  | cons step _ ih =>
    have first := step.load_le
    rw [List.countP_cons]
    omega

private theorem Step.potential_add_le (step : Step e p q) (silent : e.isWord = false) :
    q.potential + (if e.isFinish then 1 else 0) ≤ p.potential := by
  have bounded := rank_le p
  cases step with
  | word started state atMost => cases silent
  | finish connected inFlight =>
    have parts := finish_cases p connected
    simp only [PinEvent.isFinish, if_true, potential, load]
    omega
  | fire active waiting =>
    have parts := fire_cases p active
    simp only [PinEvent.isFinish, Bool.false_eq_true, if_false, potential, load]
    omega

private theorem Step.retries_le (step : Step e p q) (silent : e.isWord = false) :
    q.retries + 1 ≤ p.retries + 2 * if e.isFinish then 1 else 0 := by
  cases step with
  | word started state atMost => cases silent
  | finish connected inFlight =>
    have parts := finish_cases p connected
    simp only [PinEvent.isFinish, if_true]
    omega
  | fire active waiting =>
    have parts := fire_cases p active
    simp only [PinEvent.isFinish, Bool.false_eq_true, if_false]
    omega

theorem Run.finishes_le (run : Run es p q) (silent : ∀ e ∈ es, e.isWord = false) :
    q.potential + es.countP PinEvent.isFinish ≤ p.potential := by
  induction run with
  | nil p => exact Nat.le_refl _
  | cons step _ ih =>
    have first := step.potential_add_le (silent _ List.mem_cons_self)
    have rest := ih fun e he => silent e (List.mem_cons_of_mem _ he)
    rw [List.countP_cons]
    omega

theorem Run.length_le (run : Run es p q) (silent : ∀ e ∈ es, e.isWord = false) :
    q.retries + es.length ≤ p.retries + 2 * es.countP PinEvent.isFinish := by
  induction run with
  | nil p => exact Nat.le_refl _
  | cons step _ ih =>
    have first := step.retries_le (silent _ List.mem_cons_self)
    have rest := ih fun e he => silent e (List.mem_cons_of_mem _ he)
    rw [List.countP_cons, List.length_cons]
    omega

/-- A lone pursuit: one handshake is in flight, or one retry waits after an attempt, or the peer was
given up. -/
inductive Lone : Pursuit → Prop
  | inFlight {s : PinState} (seeking : s ≠ .on) : Lone ⟨1, 0, some s⟩
  | waiting {s : PinState} (attempt : s.isAttempt = true) : Lone ⟨0, 1, some s⟩
  | givenUp : Lone ⟨0, 0, some .off⟩

theorem Lone.eq_givenUp (lone : Lone p) (empty : p.load = 0) : p = ⟨0, 0, some .off⟩ := by
  cases lone with
  | inFlight seeking => cases empty
  | waiting attempt => cases empty
  | givenUp => rfl

private theorem Step.lone (step : Step e p q) (unlucky : e.isUnlucky = true) (lone : Lone p) :
    Lone q ∧ q.potential + (if e.isFinish then 1 else 0) = p.potential := by
  cases step with
  | word started state atMost => cases unlucky
  | finish connected inFlight =>
    obtain rfl : connected = false := by simpa [PinEvent.isUnlucky] using unlucky
    cases lone with
    | @inFlight s seeking =>
      cases s with
      | off => exact ⟨.waiting rfl, rfl⟩
      | attempt1 => exact ⟨.waiting rfl, rfl⟩
      | attempt2 => exact ⟨.givenUp, rfl⟩
      | on => exact absurd rfl seeking
    | waiting attempt => exact absurd inFlight (Nat.lt_irrefl 0)
    | givenUp => exact absurd inFlight (Nat.lt_irrefl 0)
  | fire active waiting =>
    obtain rfl : active = true := unlucky
    cases lone with
    | inFlight seeking => exact absurd waiting (Nat.lt_irrefl 0)
    | @waiting s attempt =>
      cases s with
      | attempt1 => exact ⟨.inFlight (by decide), rfl⟩
      | attempt2 => exact ⟨.inFlight (by decide), rfl⟩
      | off => cases attempt
      | on => cases attempt
    | givenUp => exact absurd waiting (Nat.lt_irrefl 0)

theorem Run.lone (run : Run es p q) (unlucky : ∀ e ∈ es, e.isUnlucky = true) (lone : Lone p) :
    Lone q ∧ q.potential + es.countP PinEvent.isFinish = p.potential := by
  induction run with
  | nil p => exact ⟨lone, rfl⟩
  | cons step _ ih =>
    obtain ⟨next, first⟩ := step.lone (unlucky _ List.mem_cons_self) lone
    obtain ⟨last, rest⟩ := ih (fun e he => unlucky e (List.mem_cons_of_mem _ he)) next
    rw [List.countP_cons]
    exact ⟨last, by omega⟩

end Pursuit

end RingOverlay

import RingOverlay.Proofs.Handshake.FirstReply
import RingOverlay.Proofs.Node.Retries
import RingOverlay.Proofs.Node.Seeking
/-!
What is left of the pursuit of a peer that is not pinned any more. No handshake with it is started,
neither by a retry that was put off nor by anything that the policy for pinned peers is told. The
handshakes that are under way run to their ends: each makes its call at most once, and links at most
once, with the node that its first usable reply describes.
-/

set_option autoImplicit false
set_option relaxedAutoImplicit false

namespace RingOverlay

def NodeAction.caller? : NodeAction → Option TaskId
  | .invoke id _ _ => some id
  | _ => none

section Contentment

variable {σ : Type} {here : RingAddress} {owner : ConnectRequest → σ → Bool × σ}

namespace Handshake

theorem turn_content (content : ∀ r s, (owner r s).1 = true) (h : Handshake) (abort : Bool) (s : σ) :
    (h.turn here abort (Session.noting owner) (s, [])).2.2 = [] ∨
      (∃ reply, (h.turn here abort (Session.noting owner) (s, [])).2.2 = [reply]) ∧
        ∃ r, (h.turn here abort owner s).1 = .done r := by
  rw [turn_shown content]
  split
  · rename_i calling
    cases first : firstReply? here h.inbox with
    | none => exact Or.inl rfl
    | some reply =>
      obtain ⟨report, turned⟩ := turn_first content calling first abort s
      exact Or.inr ⟨⟨reply, rfl⟩, report, congrArg Prod.fst turned⟩
  · exact Or.inl rfl

theorem turn_call {h k : Handshake} {abort : Bool} {s : σ}
    (called : (h.turn here abort owner s).1 = .call k) :
    h.calling = false ∧ k = { h with calling := true } ∧ (h.turn here abort owner s).2 = s := by
  unfold turn at called ⊢
  split at called
  · simp only at called
    split at called <;> cases called
  · rename_i silent
    split at called
    · cases called
    · rename_i wanted
      cases called
      rw [if_neg silent, if_neg wanted]
      exact ⟨by simpa using silent, rfl, rfl⟩

theorem turn_rest {h k : Handshake} {abort : Bool} {s : σ}
    (rests : (h.turn here abort owner s).1 = .rest k) : k.calling = true := by
  unfold turn at rests
  split at rests
  · rename_i calling
    simp only at rests
    split at rests
    · cases rests
    · cases rests
      exact calling
  · split at rests <;> cases rests

end Handshake

end Contentment

namespace Node

/-- Whether a task is a handshake of the policy for pinned peers with a peer. -/
def isConnector (n : Node) (a : RingAddress) (id : TaskId) : Bool :=
  (n.task? id).bind Task.chase == some (.connector a)

def requestsIn (n : Node) (a : RingAddress) (m : NodeMove) : List NodeAction :=
  ((n.move m).actions.drop n.actions.length).filter fun x => x.caller?.any (n.isConnector a)

def requestsTo (n : Node) (a : RingAddress) : List NodeMove → List NodeAction
  | [] => []
  | m :: ms => n.requestsIn a m ++ (n.move m).requestsTo a ms

def repliesIn (n : Node) (a : RingAddress) : NodeMove → List ConnectRequest
  | .step (.poll id) =>
    match n.task? id with
    | some (.handshake h) =>
      if n.isConnector a id then
        (h.turn n.here (n.shouldAbort h.abort) (Session.noting (handleReply h.owner)) (n, [])).2.2
      else []
    | _ => []
  | _ => []

def linkRequestsVia (n : Node) (a : RingAddress) : List NodeMove → List LinkRequest
  | [] => []
  | m :: ms => (n.repliesIn a m).map LinkRequest.ofMessage ++ (n.move m).linkRequestsVia a ms

/-- The handshakes with a peer that have not made their call. -/
def unsent (n : Node) (a : RingAddress) : Nat := (n.seeking a).countP (!·.2)

section

variable {a : RingAddress} {n m k : Node} {id : TaskId} {h : HandshakeTask} {calls links : Nat}

theorem requestsIn_eq {s : NodeMove} {new : List NodeAction}
    (asked : (n.move s).actions = n.actions ++ new) :
    n.requestsIn a s = new.filter fun x => x.caller?.any (n.isConnector a) := by
  rw [requestsIn, asked, List.drop_left]

theorem requestsIn_silent {s : NodeMove} {new : List NodeAction}
    (asked : (n.move s).actions = n.actions ++ new) (silent : ∀ x ∈ new, x.isInvoke = false) :
    n.requestsIn a s = [] := by
  rw [requestsIn_eq asked, List.filter_eq_nil_iff]
  intro x member
  have quiet := silent x member
  cases x with
  | invoke => cases quiet
  | link | close | query | handed | report | overflow => simp [NodeAction.caller?]

/-- What a node has become, with no new handshake with a peer that is not pinned, as many calls as
handshakes that have made theirs, and as many attempts to link as handshakes that have ended. -/
structure Spends (a : RingAddress) (calls links : Nat) (n m : Node) : Prop where
  numbered : m.Numbered
  unpinned : m.managed.state? a = none
  old : ((m.seeking a).map (·.1)).Sublist ((n.seeking a).map (·.1))
  calls : calls + m.unsent a ≤ n.unsent a
  links : links + (m.seeking a).length ≤ (n.seeking a).length

theorem Spends.trans {calls' links' : Nat} (first : Spends a calls links n m)
    (second : Spends a calls' links' m k) : Spends a (calls + calls') (links + links') n k where
  numbered := second.numbered
  unpinned := second.unpinned
  old := second.old.trans first.old
  calls := by
    have here := first.calls
    have there := second.calls
    omega
  links := by
    have here := first.links
    have there := second.links
    omega

theorem Dwindles.spends (dwindles : Dwindles a n m) (numbered : n.Numbered)
    (unpinned : n.managed.state? a = none) : Spends a 0 0 n m := by
  have fewer := dwindles.seeking numbered unpinned
  refine ⟨dwindles.numbered numbered, dwindles.unpinned unpinned, fewer.map _, ?_, ?_⟩
  · rw [Nat.zero_add]
    exact fewer.countP_le
  · rw [Nat.zero_add]
    exact fewer.length_le

/-! A handshake is polled. -/

theorem move_poll (found : n.task? id = some (.handshake h)) :
    n.move (.step (.poll id)) = n.pollHandshake id h := by
  simp only [move, step, poll, found]

theorem pollHandshake_call {k : Handshake}
    (called : (h.turn n.here (n.shouldAbort h.abort) (handleReply h.owner) n).1 = .call k) :
    n.pollHandshake id h =
      ((n.act (.invoke id h.exchange.target h.exchange.request)).wakeAt (n.now + h.timeoutMs)
        id).setTask id (.handshake { h with toHandshake := k }) := by
  obtain ⟨-, -, same⟩ := Handshake.turn_call called
  rw [pollHandshake]
  generalize h.turn n.here (n.shouldAbort h.abort) (handleReply h.owner) n = turned at called same ⊢
  obtain ⟨turn, m⟩ := turned
  cases called
  cases same
  rfl

theorem pollHandshake_rest {k : Handshake}
    (rests : (h.turn n.here (n.shouldAbort h.abort) (handleReply h.owner) n).1 = .rest k) :
    n.pollHandshake id h =
      (h.turn n.here (n.shouldAbort h.abort) (handleReply h.owner) n).2.setTask id
        (.handshake { h with toHandshake := k }) := by
  rw [pollHandshake]
  generalize h.turn n.here (n.shouldAbort h.abort) (handleReply h.owner) n = turned at rests ⊢
  obtain ⟨turn, m⟩ := turned
  cases rests
  rfl

theorem pollHandshake_done {r : HandshakeReport}
    (done : (h.turn n.here (n.shouldAbort h.abort) (handleReply h.owner) n).1 = .done r) :
    n.pollHandshake id h =
      ((h.turn n.here (n.shouldAbort h.abort) (handleReply h.owner) n).2.endTask id).finishHandshake
        h.owner r := by
  rw [pollHandshake]
  generalize h.turn n.here (n.shouldAbort h.abort) (handleReply h.owner) n = turned at done ⊢
  obtain ⟨turn, m⟩ := turned
  cases done
  rfl

theorem task?_handleReply (owner : HandshakeOwner) (reply : ConnectRequest) (n : Node) (id : TaskId)
    (t : Task) (found : n.task? id = some t) : (handleReply owner reply n).2.task? id = some t := by
  have launched (m : Node) (role : LinkRole) (r : LinkRequest) (found : m.task? id = some t) :
      (m.launch role r).task? id = some t := by
    have there : m.tasks.lookup id = some t := found
    simp [launch, act, spawnResting, task?, List.lookup_append, there]
  have linked : (n.linkTo reply).2.task? id = some t := by
    simp only [linkTo, submit]
    split
    · exact launched _ _ _ found
    · exact found
  cases owner with
  | unstructured | managed => exact linked
  | outside policy =>
    cases policy with
    | collect | first => exact found
    | link => exact linked

theorem task?_turn (found : n.task? id = some (.handshake h)) :
    (h.turn n.here (n.shouldAbort h.abort) (handleReply h.owner) n).2.task? id =
      some (.handshake h) := by
  have kept : ∀ t, n.task? id = some t →
      (h.turn n.here (n.shouldAbort h.abort) (handleReply h.owner) n).2.task? id = some t :=
    h.turn_keeps (R := fun n m : Node => ∀ t, n.task? id = some t → m.task? id = some t)
      (fun _ _ found => found) (fun _ _ _ first second t found => second t (first t found))
      (fun reply n => task?_handleReply h.owner reply n id) (n.shouldAbort h.abort) n
  exact kept _ found

private theorem seeking_called {k : Handshake} (numbered : n.Numbered)
    (found : n.task? id = some (.handshake h)) (target : k.exchange.target = h.exchange.target)
    (called : k.calling = true) :
    (n.setTask id (.handshake { h with toHandshake := k })).seeking a =
      (n.seeking a).map fun s => if s.1 = id then (s.1, true) else s := by
  have chase := chase_congr (h := h) target
  rw [seeking, setTask, List.filterMap_map, seeking, List.map_filterMap]
  refine List.filterMap_congr fun u member => ?_
  obtain ⟨i, u⟩ := u
  by_cases here : i = id
  · subst here
    obtain rfl := numbered.eq_of_mem found member
    simp only [Function.comp_apply, if_true, seeker?, Task.stage, chase]
    cases (Task.handshake h).chase with
    | none => rfl
    | some c =>
      cases c with
      | retry b => rfl
      | connector b =>
        by_cases about : b = a
        · simp [about, Task.isCalling, called]
        · simp [about]
  · simp only [Function.comp_apply, if_neg here]
    cases seeks : seeker? a (i, u) with
    | none => rfl
    | some s =>
      have number : s.1 = i := fst_of_seeker? seeks
      simp [number, here]

private theorem mem_seeking (found : n.task? id = some (.handshake h))
    (chase : (Task.handshake h).chase = some (.connector a)) : (id, h.calling) ∈ n.seeking a := by
  refine List.mem_filterMap.mpr ⟨(id, .handshake h), mem_of_task? found, ?_⟩
  simp [seeker?, Task.stage, chase, Task.isCalling]

theorem isConnector_iff (found : n.task? id = some (.handshake h)) :
    n.isConnector a id = true ↔ (Task.handshake h).chase = some (.connector a) := by
  rw [isConnector, found, Option.bind_some, beq_iff_eq]

private theorem unsent_called (ks : List (TaskId × Bool)) (id : TaskId) :
    (ks.map fun s => if s.1 = id then (s.1, true) else s).countP (!·.2) +
      (if (id, false) ∈ ks then 1 else 0) ≤ ks.countP (!·.2) := by
  induction ks with
  | nil => simp
  | cons s ks ih =>
    obtain ⟨i, called⟩ := s
    rw [List.map_cons, List.countP_cons, List.countP_cons]
    generalize (ks.map fun s => if s.1 = id then (s.1, true) else s).countP (!·.2) = after at ih ⊢
    by_cases here : i = id
    · subst here
      cases called with
      | false =>
        simp only [if_true, List.mem_cons, true_or, Bool.not_true, Bool.false_eq_true, Bool.not_false,
          if_false]
        split at ih <;> omega
      | true =>
        simp only [if_true, List.mem_cons, Prod.mk.injEq, Bool.false_eq_true, and_false, false_or,
          Bool.not_true, if_false]
        omega
    · have apart : ¬ id = i := Ne.symm here
      simp only [if_neg here, List.mem_cons, Prod.mk.injEq, apart, false_and, false_or]
      omega

private theorem spends_called {k : Handshake} (numbered : n.Numbered)
    (unpinned : n.managed.state? a = none) (found : n.task? id = some (.handshake h))
    (target : k.exchange.target = h.exchange.target) (called : k.calling = true) :
    Spends a (if (id, false) ∈ n.seeking a then 1 else 0) 0 n
      (n.setTask id (.handshake { h with toHandshake := k })) := by
  have seeking := seeking_called (a := a) numbered found target called
  have fewer := unsent_called (n.seeking a) id
  refine ⟨numbered.setTask id _, unpinned, ?_, ?_, ?_⟩
  · have numbers : ((n.seeking a).map fun s => if s.1 = id then (s.1, true) else s).map (·.1) =
        (n.seeking a).map (·.1) := by
      rw [List.map_map]
      refine List.map_congr_left fun s _ => ?_
      simp only [Function.comp_apply]
      split <;> rfl
    rw [seeking, numbers]
  · rw [unsent, seeking, Nat.add_comm]
    exact fewer
  · rw [seeking, List.length_map, Nat.zero_add]

theorem Spends.mono {fewer less : Nat} (spends : Spends a calls links n m) (le : fewer ≤ calls)
    (le' : less ≤ links) : Spends a fewer less n m where
  numbered := spends.numbered
  unpinned := spends.unpinned
  old := spends.old
  calls := Nat.le_trans (Nat.add_le_add_right le _) spends.calls
  links := Nat.le_trans (Nat.add_le_add_right le' _) spends.links

private theorem target_goes_on {k : Handshake}
    (turned : (h.turn n.here (n.shouldAbort h.abort) (handleReply h.owner) n).1 = .call k ∨
      (h.turn n.here (n.shouldAbort h.abort) (handleReply h.owner) n).1 = .rest k) :
    k.exchange.target = h.exchange.target := by
  have kept : (h.turn n.here (n.shouldAbort h.abort) (handleReply h.owner) n).1.target =
    h.exchange.target := h.target_turn ..
  rcases turned with turned | turned
  · rw [turned] at kept
    exact kept
  · rw [turned] at kept
    exact kept

private theorem spends_call {k : Handshake} (numbered : n.Numbered)
    (unpinned : n.managed.state? a = none) (found : n.task? id = some (.handshake h))
    (called : (h.turn n.here (n.shouldAbort h.abort) (handleReply h.owner) n).1 = .call k) :
    Spends a (n.requestsIn a (.step (.poll id))).length 0 n (n.pollHandshake id h) := by
  have target : k.exchange.target = h.exchange.target := target_goes_on (Or.inl called)
  obtain ⟨silent, begun, -⟩ := Handshake.turn_call called
  have asked : (n.move (.step (.poll id))).actions =
      n.actions ++ [.invoke id h.exchange.target h.exchange.request] := by
    rw [move_poll found, pollHandshake_call called]
    rfl
  have calling : Spends a 0 0 n
      ((n.act (.invoke id h.exchange.target h.exchange.request)).wakeAt (n.now + h.timeoutMs) id) :=
    ⟨numbered.congr rfl rfl, unpinned, .refl _, Nat.le_of_eq (Nat.zero_add _),
      Nat.le_of_eq (Nat.zero_add _)⟩
  have made : k.calling = true := by rw [begun]
  rw [pollHandshake_call called, requestsIn_eq asked]
  refine (calling.trans (spends_called calling.numbered unpinned found target made)).mono ?_
    (Nat.zero_le _)
  rw [Nat.zero_add]
  -- The call counts only if the handshake is one with this peer, and then it was not made before.
  by_cases own : n.isConnector a id = true
  · have unsent : (id, false) ∈ n.seeking a := by
      have there := mem_seeking found ((isConnector_iff found).mp own)
      rw [silent] at there
      exact there
    exact Nat.le_trans (List.length_filter_le ..) (Nat.le_of_eq (if_pos unsent).symm)
  · have other : [NodeAction.invoke id h.exchange.target h.exchange.request].filter
        (fun x => x.caller?.any (n.isConnector a)) = [] := by
      simpa [NodeAction.caller?] using own
    rw [other]
    exact Nat.zero_le _

private theorem spends_rest {k : Handshake} (numbered : n.Numbered)
    (unpinned : n.managed.state? a = none) (found : n.task? id = some (.handshake h))
    (rests : (h.turn n.here (n.shouldAbort h.abort) (handleReply h.owner) n).1 = .rest k) :
    Spends a (n.requestsIn a (.step (.poll id))).length 0 n (n.pollHandshake id h) := by
  have target : k.exchange.target = h.exchange.target := target_goes_on (Or.inr rests)
  have calling := Handshake.turn_rest rests
  have heard := (dwindles_routine a).turn h n
  have there := task?_turn found
  obtain ⟨new, asked, silent⟩ := heard.silent
  have quiet : n.requestsIn a (.step (.poll id)) = [] := by
    refine requestsIn_silent ?_ silent
    rw [move_poll found, pollHandshake_rest rests]
    exact asked
  rw [quiet, pollHandshake_rest rests]
  have spent := heard.spends numbered unpinned
  exact (spent.trans (spends_called spent.numbered spent.unpinned there target calling)).mono
    (Nat.zero_le _) (Nat.zero_le _)

private theorem spends_done {r : HandshakeReport} (numbered : n.Numbered)
    (unpinned : n.managed.state? a = none) (found : n.task? id = some (.handshake h))
    (done : (h.turn n.here (n.shouldAbort h.abort) (handleReply h.owner) n).1 = .done r) :
    Spends a (n.requestsIn a (.step (.poll id))).length (if n.isConnector a id then 1 else 0) n
      (n.pollHandshake id h) := by
  have heard := (dwindles_routine a).turn h n
  have there := task?_turn found
  have moved := (move_poll found).trans (pollHandshake_done done)
  rw [pollHandshake_done done]
  generalize (h.turn n.here (n.shouldAbort h.abort) (handleReply h.owner) n).2 = m at *
  have ended := (dwindles_routine a).endTask m id
  have told := (dwindles_routine a).finishHandshake (m.endTask id) h.owner r
  obtain ⟨new, asked, silent⟩ := (heard.trans (ended.trans told)).silent
  have quiet : n.requestsIn a (.step (.poll id)) = [] := by
    refine requestsIn_silent ?_ silent
    rw [moved]
    exact asked
  have spent := heard.spends numbered unpinned
  have shorter := ended.spends spent.numbered spent.unpinned
  -- The end of a handshake with this peer pays for the attempt to link that it brought about.
  have gone : Spends a 0 (if n.isConnector a id then 1 else 0) m (m.endTask id) := by
    refine ⟨shorter.numbered, shorter.unpinned, shorter.old, shorter.calls, ?_⟩
    split
    · rename_i own
      have member := mem_seeking there ((isConnector_iff found).mp own)
      rw [seeking_endTask, Nat.add_comm]
      refine List.length_filter_lt_length_iff_exists.mpr ⟨_, member, ?_⟩
      simp
    · exact shorter.links
  rw [quiet]
  have whole := (spent.trans gone).trans (told.spends gone.numbered gone.unpinned)
  exact whole.mono (Nat.zero_le _) (Nat.le_of_eq (by omega))

private theorem owner_of_chase (chase : (Task.handshake h).chase = some (.connector a)) :
    h.owner = .managed := by
  by_contra other
  have none : (Task.handshake h).chase = none := if_neg other
  rw [none] at chase
  cases chase

/-- A handshake of the policy for pinned peers has the node link once at most, and ends then. -/
private theorem replies_le (n : Node) (found : n.task? id = some (.handshake h)) :
    n.repliesIn a (.step (.poll id)) = [] ∨
      (n.repliesIn a (.step (.poll id))).length = (if n.isConnector a id then 1 else 0) ∧
        ∃ r, (h.turn n.here (n.shouldAbort h.abort) (handleReply h.owner) n).1 = .done r := by
  by_cases own : n.isConnector a id = true
  · have owner := owner_of_chase ((isConnector_iff found).mp own)
    have content : ∀ r s, (handleReply h.owner r s).1 = true := by
      rw [owner]
      exact fun _ _ => rfl
    simp only [repliesIn, found, if_pos own]
    refine (h.turn_content content (n.shouldAbort h.abort) n).imp_right ?_
    rintro ⟨⟨reply, shown⟩, done⟩
    rw [shown]
    exact ⟨rfl, done⟩
  · left
    simp only [repliesIn, found, if_neg own]

theorem spends_poll (numbered : n.Numbered) (unpinned : n.managed.state? a = none)
    (found : n.task? id = some (.handshake h)) :
    Spends a (n.requestsIn a (.step (.poll id))).length (n.repliesIn a (.step (.poll id))).length n
      (n.pollHandshake id h) := by
  have shown := replies_le (a := a) n found
  cases turned : (h.turn n.here (n.shouldAbort h.abort) (handleReply h.owner) n).1 with
  | done r =>
    refine (spends_done numbered unpinned found turned).mono (Nat.le_refl _) ?_
    rcases shown with silent | ⟨once, -⟩
    · rw [silent]
      exact Nat.zero_le _
    · exact Nat.le_of_eq once
  | call k =>
    have silent := shown.resolve_right fun ⟨_, r, done⟩ => by cases turned.symm.trans done
    rw [silent]
    exact spends_call numbered unpinned found turned
  | rest k =>
    have silent := shown.resolve_right fun ⟨_, r, done⟩ => by cases turned.symm.trans done
    rw [silent]
    exact spends_rest numbered unpinned found turned

theorem spends_move (numbered : n.Numbered) (unpinned : n.managed.state? a = none) {s : NodeMove}
    (other : s ≠ .step (.pin a)) :
    Spends a (n.requestsIn a s).length (n.repliesIn a s).length n (n.move s) := by
  -- Only a poll of a handshake makes a call or shows a reply; all else makes the handshakes no more.
  by_cases polls : ∃ id h, s = .step (.poll id) ∧ n.task? id = some (.handshake h)
  · obtain ⟨id, h, rfl, found⟩ := polls
    rw [move_poll found]
    exact spends_poll numbered unpinned found
  · have allows : Allows (Dwindles a) n s := by
      unfold Allows
      split
      · exact fun _ _ => .of_same rfl rfl rfl id
      · exact .of_same rfl rfl rfl id
      · rename_i b
        have apart : a ≠ b := fun same => other (by rw [same])
        refine .of_same rfl rfl rfl fun unpinned => ?_
        rw [ManagedOverlord.state?_pin_of_ne apart]
        exact unpinned
      · exact fun h found => absurd ⟨_, h, rfl, found⟩ polls
      · exact fun h found => .setTask n found rfl
      · trivial
    have dwindles := (dwindles_routine a).move n s allows
    obtain ⟨new, asked, silent⟩ := dwindles.silent
    have mute : n.repliesIn a s = [] := by
      unfold repliesIn
      split
      · split
        · rename_i h found
          exact absurd ⟨_, h, rfl, found⟩ polls
        · rfl
      · rfl
    rw [requestsIn_silent asked silent, mute]
    exact dwindles.spends numbered unpinned

theorem spends_moved (numbered : n.Numbered) (unpinned : n.managed.state? a = none)
    {ms : List NodeMove} (others : ∀ s ∈ ms, s ≠ .step (.pin a)) :
    Spends a (n.requestsTo a ms).length (n.linkRequestsVia a ms).length n (n.moved ms) := by
  induction ms generalizing n with
  | nil =>
    exact ⟨numbered, unpinned, .refl _, Nat.le_of_eq (Nat.zero_add _), Nat.le_of_eq (Nat.zero_add _)⟩
  | cons s ms ih =>
    have first := spends_move numbered unpinned (others s List.mem_cons_self)
    have rest := ih first.numbered first.unpinned fun s member =>
      others s (List.mem_cons_of_mem _ member)
    rw [requestsTo, linkRequestsVia, List.length_append, List.length_append, List.length_map]
    exact first.trans rest

private theorem unpin_keeps (n : Node) (a : RingAddress) :
    (n.unpin a).2.tasks = n.tasks ∧ (n.unpin a).2.created = n.created ∧
      (n.unpin a).2.managed = (n.managed.unpin a).2 := by
  simp only [unpin]
  split
  · split <;> exact ⟨rfl, rfl, rfl⟩
  · exact ⟨rfl, rfl, rfl⟩

/-- Unpin a peer in a reachable node, and let happen whatever may, as long as the peer is not pinned
again. It is never pinned then, and every handshake of the policy for pinned peers with it was under
way before, so retries end without one. If all of these had made their calls, no connect call to the
peer is made any more. They run to their end, and bring about no more attempts to link than there were
handshakes, each but once at its end. -/
theorem unpinned_for_good (reached : n.Reachable) (a : RingAddress) (ms : List NodeMove)
    (others : ∀ s ∈ ms, s ≠ .step (.pin a)) :
    ((n.unpin a).2.moved ms).managed.state? a = none ∧
    ((((n.unpin a).2.moved ms).seeking a).map (·.1)).Sublist ((n.seeking a).map (·.1)) ∧
    (n.unsent a = 0 → (n.unpin a).2.requestsTo a ms = []) ∧
    ((n.unpin a).2.linkRequestsVia a ms).length + (((n.unpin a).2.moved ms).seeking a).length ≤
      (n.seeking a).length := by
  obtain ⟨tasks, created, managed⟩ := n.unpin_keeps a
  have unpinned : (n.unpin a).2.managed.state? a = none := by
    rw [managed]
    exact ManagedOverlord.state?_unpin_self n.managed a
  have seeking : (n.unpin a).2.seeking a = n.seeking a := by rw [Node.seeking, tasks, Node.seeking]
  have unsent : (n.unpin a).2.unsent a = n.unsent a := by rw [Node.unsent, seeking, Node.unsent]
  have spends := spends_moved (reached.sound.toNumbered.congr tasks created) unpinned others
  rw [← seeking, ← unsent]
  refine ⟨spends.unpinned, spends.old, fun sent => ?_, spends.links⟩
  have calls := spends.calls
  exact List.length_eq_zero_iff.mp (by omega)

/-- A peer is pinned, and the handshake with it makes its call. -/
def asking : List NodeMove := [.switch true .managed, .step (.pin (.floor 80)), .step (.poll 0)]

def answering : List NodeMove :=
  [.step (.deliver 0 (.result (ConnectRequest.ofTarget managedType (.bare (.floor 80))).toValue)),
    .step (.poll 0)]

theorem unpinned_for_good_answering :
    ((plain.moved asking).unpin (.floor 80)).2.requestsTo (.floor 80) answering = [] ∧
      (((plain.moved asking).unpin (.floor 80)).2.linkRequestsVia (.floor 80) answering).length ≤ 1 := by
  have reached : (plain.moved asking).Reachable := ⟨plain, asking, ⟨rfl, rfl⟩, rfl⟩
  have others : ∀ s ∈ answering, s ≠ .step (.pin (.floor 80)) := by
    intro s member
    simp only [answering, List.mem_cons, List.not_mem_nil, or_false] at member
    rcases member with rfl | rfl <;> nofun
  obtain ⟨-, -, calls, links⟩ := unpinned_for_good reached (.floor 80) answering others
  have unsent : (plain.moved asking).unsent (.floor 80) = 0 := by decide +kernel
  have seeking : ((plain.moved asking).seeking (.floor 80)).length = 1 := by decide +kernel
  rw [seeking] at links
  exact ⟨calls unsent, by omega⟩

/-- A peer that has been unpinned replies to a request that was sent before, and the node links with
it. -/
theorem links_after_unpinning :
    ((plain.moved asking).unpin (.floor 80)).1 = true ∧
      (((plain.moved asking).unpin (.floor 80)).2.linkRequestsVia (.floor 80) answering).map
        (fun r => (r.target, r.connectionType)) = [(some (.floor 80), managedType)] := by
  decide +kernel

end

end Node

end RingOverlay

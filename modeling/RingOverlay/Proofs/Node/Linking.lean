import RingOverlay.Proofs.Node.Agreement
import RingOverlay.Proofs.Node.Mail
import RingOverlay.Proofs.Node.Unpinning
/-!
Whom a handshake links with. Its owner takes the first usable reply, which need not be about the peer
that was asked for or about links of the type that was asked for: the node links with whom the reply
names, in the way that it names, and the handshake is over.
-/

set_option autoImplicit false
set_option relaxedAutoImplicit false

namespace RingOverlay

namespace Node

/-- The replies that the owner of a handshake is shown in a move. -/
def shownIn (n : Node) (id : TaskId) : NodeMove → List ConnectRequest
  | .step (.poll i) =>
    match n.task? id with
    | some (.handshake h) =>
      if i = id then
        (h.turn n.here (n.shouldAbort h.abort) (Session.noting (handleReply h.owner)) (n, [])).2.2
      else []
    | _ => []
  | _ => []

/-- The requests to link to which the replies of a handshake lead, if its owner links. -/
def linksBy (n : Node) (id : TaskId) : List NodeMove → List LinkRequest
  | [] => []
  | m :: ms => (n.shownIn id m).map LinkRequest.ofMessage ++ (n.move m).linksBy id ms

def heardIn (n : Node) (id : TaskId) : NodeMove → List RpcEvent
  | .step (.deliver i e) => if i = id ∧ (n.deliver id e).1 = true then [e] else []
  | _ => []

def heardBy (n : Node) (id : TaskId) : List NodeMove → List RpcEvent
  | [] => []
  | m :: ms => n.heardIn id m ++ (n.move m).heardBy id ms

section

variable {n : Node} {id : TaskId} {h : HandshakeTask} {owner : HandshakeOwner}
  {inbox : List RpcEvent} {s : NodeMove}

theorem shownIn_quiet (quiet : ∀ h, n.task? id = some (.handshake h) → s ≠ .step (.poll id)) :
    n.shownIn id s = [] := by
  unfold shownIn
  split
  · split
    · rename_i h found
      refine if_neg ?_
      rintro rfl
      exact quiet h found rfl
    · rfl
  · rfl

theorem shownIn_poll (found : n.task? id = some (.handshake h)) (links : h.owner.links = true) :
    n.shownIn id (.step (.poll id)) =
      if h.calling then (firstReply? n.here h.inbox).toList else [] := by
  simp only [shownIn, found, if_true]
  exact h.turn_shown (handleReply_content links) _ n

theorem heardIn_quiet
    (quiet : ∀ h e, n.task? id = some (.handshake h) → s ≠ .step (.deliver id e)) :
    n.heardIn id s = [] := by
  unfold heardIn
  split
  · refine if_neg ?_
    rintro ⟨rfl, taken⟩
    unfold deliver at taken
    split at taken
    · rename_i h found
      exact quiet h _ found rfl
    · cases taken
  · rfl

/-- What a move can mean for a handshake that links: it may end with what its first reply asks for, or
go on with what is then unread. -/
structure Proceeds (id : TaskId) (owner : HandshakeOwner) (inbox : List RpcEvent) (n : Node)
    (s : NodeMove) : Prop where
  here : (n.move s).here = n.here
  created : n.created ≤ (n.move s).created
  ends_or_goes_on :
    ((n.move s).mail? id = none ∧
      (n.shownIn id s).Sublist (firstReply? n.here (inbox ++ n.heardIn id s)).toList) ∨
    (n.shownIn id s = [] ∧ ∃ unread, (n.move s).mail? id = some (owner, unread) ∧
      ∀ more, firstReply? n.here (inbox ++ n.heardIn id s ++ more) = firstReply? n.here (unread ++ more))

theorem proceeds_quiet (old : id < n.created) (mail : n.mail? id = some (owner, inbox))
    (polled : ∀ h, n.task? id = some (.handshake h) → s ≠ .step (.poll id))
    (received : ∀ h e, n.task? id = some (.handshake h) → s ≠ .step (.deliver id e)) :
    Proceeds id owner inbox n s := by
  have undisturbed := undisturbed_move n polled received
  refine ⟨undisturbed.here, undisturbed.created, ?_⟩
  rw [shownIn_quiet polled, heardIn_quiet received, List.append_nil]
  cases later : (n.move s).mail? id with
  | none => exact Or.inl ⟨rfl, List.nil_sublist _⟩
  | some x =>
    obtain rfl := Option.some.inj ((undisturbed.mail old x later).symm.trans mail)
    exact Or.inr ⟨rfl, inbox, rfl, fun _ => rfl⟩

theorem proceeds_deliver (found : n.task? id = some (.handshake h)) (e : RpcEvent) :
    Proceeds id h.owner h.inbox n (.step (.deliver id e)) := by
  have silent : n.shownIn id (.step (.deliver id e)) = [] := shownIn_quiet fun _ _ => nofun
  by_cases gone : h.hungUp = true
  · have same : n.deliver id e = (false, n) := by simp only [deliver, found, gone, if_true]
    have kept : n.move (.step (.deliver id e)) = n := congrArg Prod.snd same
    have heard : n.heardIn id (.step (.deliver id e)) = [] := by simp [heardIn, same]
    have mail := mail?_eq_some_iff.mpr ⟨h, found, rfl, rfl⟩
    refine ⟨by rw [kept], by rw [kept], Or.inr ⟨silent, h.inbox, by rw [kept, mail], ?_⟩⟩
    rw [heard, List.append_nil]
    exact fun _ => rfl
  · have taken : n.deliver id e =
        (true, n.resume id (.handshake { h with toHandshake := h.receive e })) := by
      simp only [deliver, found, if_neg gone]
    have moved : n.move (.step (.deliver id e)) =
        n.resume id (.handshake { h with toHandshake := h.receive e }) := congrArg Prod.snd taken
    have heard : n.heardIn id (.step (.deliver id e)) = [e] := by simp [heardIn, taken]
    have mail : (n.move (.step (.deliver id e))).mail? id = some (h.owner, h.inbox ++ [e]) := by
      rw [moved, mail?_resume_self found]
      rfl
    have kept : (n.move (.step (.deliver id e))).here = n.here ∧
        (n.move (.step (.deliver id e))).created = n.created := by
      rw [moved, resume, wake]
      split <;> exact ⟨rfl, rfl⟩
    refine ⟨kept.1, Nat.le_of_eq kept.2.symm, Or.inr ⟨silent, _, mail, ?_⟩⟩
    rw [heard]
    exact fun _ => rfl

theorem proceeds_poll (old : id < n.created) (found : n.task? id = some (.handshake h))
    (links : h.owner.links = true) : Proceeds id h.owner h.inbox n (.step (.poll id)) := by
  -- For the number and the place of the node any other handshake tells as much.
  have beside := undisturbed_pollHandshake (Nat.ne_of_lt (Nat.lt_succ_self id)) n h
  have moved := move_poll found
  have heard : n.heardIn id (.step (.poll id)) = [] := heardIn_quiet fun _ _ _ => nofun
  have shown := shownIn_poll found links
  refine ⟨by rw [moved, beside.here], by rw [moved]; exact beside.created, ?_⟩
  rw [moved, heard, List.append_nil]
  cases turned : (h.turn n.here (n.shouldAbort h.abort) (handleReply h.owner) n).1 with
  | call k =>
    obtain ⟨idle, rfl, -⟩ := Handshake.turn_call turned
    refine Or.inr ⟨by rw [shown, idle]; rfl, h.inbox, ?_, fun _ => rfl⟩
    rw [pollHandshake_call turned]
    exact mail?_setTask_self (u := .handshake h) found _
  | rest k =>
    have on := Handshake.turn_rest_on (handleReply_content links) turned
    have none_yet : firstReply? n.here h.inbox = none := by simpa [firstReply?] using (on []).2
    refine Or.inr ⟨?_, [], ?_, fun more => (on more).2⟩
    · rw [shown, none_yet]
      split <;> rfl
    · rw [pollHandshake_rest turned, mail?_setTask_self (task?_turn found)]
      exact congrArg (fun unread => some (h.owner, unread)) (on []).1
  | done r =>
    have routine := undisturbed_routine id
    refine Or.inl ⟨?_, ?_⟩
    · rw [pollHandshake_done turned]
      have listened := routine.turn h n
      generalize (h.turn n.here (n.shouldAbort h.abort) (handleReply h.owner) n).2 = m at listened ⊢
      have told := routine.finishHandshake (m.endTask id) h.owner r
      exact told.ended (Nat.lt_of_lt_of_le old listened.created) (mail?_endTask_self m id)
    · rw [shown]
      split
      · exact .refl _
      · exact List.nil_sublist _

theorem proceeds_move (old : id < n.created) (mail : n.mail? id = some (owner, inbox))
    (links : owner.links = true) (s : NodeMove) : Proceeds id owner inbox n s := by
  by_cases polled : s = .step (.poll id)
  · obtain ⟨h, found, rfl, rfl⟩ := mail?_eq_some_iff.mp mail
    rw [polled]
    exact proceeds_poll old found links
  · by_cases received : ∃ e, s = .step (.deliver id e)
    · obtain ⟨h, found, rfl, rfl⟩ := mail?_eq_some_iff.mp mail
      obtain ⟨e, rfl⟩ := received
      exact proceeds_deliver found e
    · exact proceeds_quiet old mail (fun _ _ => polled) fun _ e _ same => received ⟨e, same⟩

theorem linksBy_ended (old : id < n.created) (ended : n.mail? id = none) (ms : List NodeMove) :
    n.linksBy id ms = [] := by
  induction ms generalizing n with
  | nil => rfl
  | cons s ms ih =>
    have gone (h : HandshakeTask) : n.task? id ≠ some (.handshake h) := by
      intro found
      rw [mail?, found] at ended
      cases ended
    have undisturbed := undisturbed_move (s := s) n (fun h found => absurd found (gone h))
      fun h _ found => absurd found (gone h)
    rw [linksBy, shownIn_quiet fun h found => absurd found (gone h)]
    exact ih (Nat.lt_of_lt_of_le old undisturbed.created) (undisturbed.ended old ended)

theorem linksBy_sublist (old : id < n.created) (mail : n.mail? id = some (owner, inbox))
    (links : owner.links = true) (ms : List NodeMove) :
    (n.linksBy id ms).Sublist
      ((firstReply? n.here (inbox ++ n.heardBy id ms)).map LinkRequest.ofMessage).toList := by
  induction ms generalizing n inbox with
  | nil => exact List.nil_sublist _
  | cons s ms ih =>
    obtain ⟨here, created, ⟨ended, shown⟩ | ⟨silent, unread, goesOn, same⟩⟩ :=
      proceeds_move old mail links s
    · rw [linksBy, linksBy_ended (Nat.lt_of_lt_of_le old created) ended, List.append_nil, heardBy,
        ← List.append_assoc]
      have asked := shown.map LinkRequest.ofMessage
      cases first : firstReply? n.here (inbox ++ n.heardIn id s) with
      | none =>
        rw [first] at asked
        rw [List.sublist_nil.mp asked]
        exact List.nil_sublist _
      | some r =>
        rw [first] at asked
        rw [firstReply?_append first]
        exact asked
    · have rest := ih (Nat.lt_of_lt_of_le old created) goesOn
      rw [linksBy, silent, heardBy, ← List.append_assoc, same, ← here]
      exact rest

/-- A reply that the owner of such a handshake is shown has the node make one request to link, and the
handshake is over. -/
theorem move_of_shown (found : n.task? id = some (.handshake h)) (links : h.owner.links = true)
    {reply : ConnectRequest} (shown : reply ∈ n.shownIn id s) :
    ∃ report, n.move s =
      ((n.submit (.ofMessage reply)).2.endTask id).finishHandshake h.owner report := by
  have polls : s = .step (.poll id) := by
    by_contra other
    rw [shownIn_quiet fun _ _ => other] at shown
    cases shown
  subst polls
  rw [shownIn_poll found links] at shown
  split at shown
  · rename_i calling
    have first := Option.mem_toList.mp shown
    obtain ⟨report, turned⟩ :=
      Handshake.turn_first (handleReply_content links) calling first (n.shouldAbort h.abort) n
    refine ⟨report, ?_⟩
    rw [move_poll found, pollHandshake_done (congrArg Prod.fst turned), turned, handleReply_links links,
      linkTo]
  · cases shown

/-- Take a handshake of the policy for pinned peers, of the policy for unstructured links or of any
other owner that links with who replies. Once its call has been made, a poll shows the owner the first
usable reply, if there is one, and nothing else. The node then makes one request to link, for the peer,
the endpoints, the type and the token of that reply, and the handshake is over. Let happen whatever
may: all that comes in for the handshake, in whatever order and between whatever else, leads to one such
request at most. It is made for the first usable reply of all, and never for the node itself. -/
theorem links_follow_first_reply (reached : n.Reachable) (found : n.task? id = some (.handshake h))
    (links : h.owner.links = true) :
    (h.calling = true →
      n.shownIn id (.step (.poll id)) = (firstReply? n.here h.inbox).toList) ∧
    (∀ s, ∀ reply ∈ n.shownIn id s, ∃ report, n.move s =
      ((n.submit (.ofMessage reply)).2.endTask id).finishHandshake h.owner report) ∧
    ∀ ms, n.linksBy id ms = [] ∨
      ∃ reply, firstReply? n.here (h.inbox ++ n.heardBy id ms) = some reply ∧
        n.linksBy id ms = [.ofMessage reply] ∧ reply.target.address ≠ n.here := by
  refine ⟨fun calling => ?_, fun s reply => move_of_shown found links, fun ms => ?_⟩
  · rw [shownIn_poll found links, if_pos calling]
  have old : id < n.created :=
    reached.sound.toNumbered.given id (List.mem_map_of_mem (mem_of_task? found))
  have asked := linksBy_sublist old (mail?_eq_some_iff.mpr ⟨h, found, rfl, rfl⟩) links ms
  cases first : firstReply? n.here (h.inbox ++ n.heardBy id ms) with
  | none =>
    rw [first] at asked
    exact Or.inl (List.sublist_nil.mp asked)
  | some reply =>
    rw [first] at asked
    rcases List.sublist_singleton.mp asked with none_made | made
    · exact Or.inl none_made
    · exact Or.inr ⟨reply, rfl, made, away_of_firstReply? first⟩

/-- The pinned peer is asked, and someone replies in the name of another one. -/
def misleading : List NodeMove :=
  [.step (.deliver 0 (.result (ConnectRequest.ofTarget "leaf" (.bare (.floor 96))).toValue)),
    .step (.poll 0)]

theorem links_follow_first_reply_misleading :
    ∃ reply, firstReply? plain.here ((plain.moved asking).heardBy 0 misleading) = some reply ∧
      (plain.moved asking).linksBy 0 misleading = [.ofMessage reply] ∧
      reply.target.address ≠ plain.here := by
  have reached : (plain.moved asking).Reachable := ⟨plain, asking, ⟨rfl, rfl⟩, rfl⟩
  obtain ⟨h, found, owner, inbox⟩ :=
    mail?_eq_some_iff.mp (show (plain.moved asking).mail? 0 = some (.managed, []) from rfl)
  have links : h.owner.links = true := by rw [owner]; rfl
  have asked := (links_follow_first_reply reached found links).2.2 misleading
  rw [inbox] at asked
  refine asked.resolve_left fun none_made => ?_
  have made : ((plain.moved asking).linksBy 0 misleading).length = 1 := by decide +kernel
  rw [none_made] at made
  cases made

/-- A handshake that the policy for pinned peers has with one peer makes the node link with another one,
and not as a structured peer. -/
theorem redirected_by_reply :
    (plain.moved asking).isConnector (.floor 80) 0 = true ∧
      ((plain.moved asking).linksBy 0 misleading).map (fun r => (r.target, r.mainType)) =
        [(some (.floor 96), .leaf)] := by
  decide +kernel

end

end Node

end RingOverlay

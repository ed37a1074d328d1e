import BurnedChats.Backend.MessageOwnership

/-!
# Deleting a direct message for everyone

A deletion looks for the message in the queue of the peer, else for its sender in
the index, and then removes what is stored of it. Other requests may have read the
message meanwhile: a sync that is about to send it, a prune that is about to push
it back, an edit that is about to write it.

`deleted_for_good`: a deletion that nothing interrupts is refused without effect, or
the peer is told and the message stays away from every queue and every event until
it is sent again. Behind it is that requests are `Quiet`: as long as nothing of a
message is stored, only a relay of the message does anything about it.
-/

namespace BurnedChats

namespace DirectMessages

open Program
open Interleave (Conf Server Action forall_turn forall_start)
open Sessions (Session Role)
open LiveSessions (ParticipantContext)
open PendingCount.Store (ltrim)
open Handshake (Parties)

/-! ## Nothing of a message -/

structure Gone (messageId : String) (s : Store) : Prop where
  messages : ∀ r, ∀ m ∈ s.messages r, m.messageId ≠ messageId
  editable : s.editable messageId = none
  senders : s.senders messageId = none

/-- The event brings the message, or tells that it was just edited or deleted. -/
def Event.carries (messageId : String) : Event → Bool
  | .newMessage m => m.messageId = messageId
  | .syncMessages messages _ _ => messages.any (·.messageId = messageId)
  | event => event.announces messageId

/-- The command stores nothing of the message and does not send it. -/
def Silent (messageId : String) : Command → Prop
  | .messages _ c => ∀ m ∈ c.entry, m.messageId ≠ messageId
  | .setEditable id _ => id ≠ messageId
  | .putSender id _ => id ≠ messageId
  | .send _ event => event.carries messageId = false
  | _ => True

/-- As long as there is nothing of the message, the program does nothing about it. -/
abbrev Quiet {α : Type} (messageId : String) (p : Prog α) (Q : α → Prop) : Prop :=
  p.Ensures (Gone messageId) (Silent messageId) Q

def Op.sends (messageId : String) : Op → Bool
  | .relayMessage request _ _ => request.messageId = messageId
  | _ => false

section Quiet

variable {id : String}

theorem Gone.exec {s : Store} {c : Command} (h : Gone id s) (hc : Silent id c) :
    Gone id (s.exec c) := by
  cases c with
  | messages r c =>
      exact { h with
        messages := forall_mem_apply (P := fun _ (m : Message) => m.messageId ≠ id) h.messages hc }
  | setEditable i x => exact { h with editable := by simp [Store.exec, Ne.symm hc, h.editable] }
  | deleteEditable i =>
      refine { h with editable := ?_ }
      by_cases hi : id = i
      · simp [Store.exec, hi]
      · simp [Store.exec, hi, h.editable]
  | putSender i x => exact { h with senders := by simp [Store.exec, Ne.symm hc, h.senders] }
  | removeSender i =>
      refine { h with senders := ?_ }
      by_cases hi : id = i
      · simp [Store.exec, hi]
      · simp [Store.exec, hi, h.senders]
  | _ => exact { h with }

theorem Gone.move {parties : Parties} {s s' : Store} {e : Move} (h : Gone id s)
    (he : move parties e s = some s') : Gone id s' := by
  cases e with
  | session session =>
      simp only [DirectMessages.move] at he
      split at he
      · obtain rfl := Option.some.inj he
        exact { h with }
      · cases he
  | expire key =>
      obtain rfl := Option.some.inj he
      cases key with
      | messages r =>
          exact { h with
            messages := forall_mem_apply (P := fun _ (m : Message) => m.messageId ≠ id)
              (c := .delete) h.messages fun _ h => by cases h }
      | editable i =>
          refine { h with editable := ?_ }
          by_cases hi : id = i
          · simp [Store.expire, hi]
          · simp [Store.expire, hi, h.editable]
      | senders => exact { h with senders := rfl }
      | _ => exact { h with }
  | _ =>
      obtain rfl := Option.some.inj he
      exact { h with }

theorem prunes_silent : Prunes (Gone id) (Silent id) where
  deleteMessages _ _ h := by cases h
  deleteEdits _ := trivial
  deleteDeletions _ := trivial
  pushMessage s hs r m hm m' hm' := by
    obtain rfl := Option.some.inj hm'
    exact hs.messages r m hm
  pushEdit _ _ _ _ _ := trivial
  pushDeletion _ _ _ _ _ := trivial

theorem syncEvent_silent {s₁ s₂ s₃ : Store} {r : String} (h : Gone id s₁) :
    ∀ event ∈ MessageHandler.syncEvent (s₁.messages r) (s₂.edits r) (s₃.deletions r),
      event.carries id = false := by
  intro event hevent
  simp only [MessageHandler.syncEvent] at hevent
  split at hevent
  · cases hevent
  · obtain rfl := Option.some.inj hevent
    simpa [Event.carries] using fun m hm => h.messages r m hm

theorem send_quiet {user : String} {event : Event} (h : event.carries id = false) :
    Quiet id (write (.send user event)) fun _ => True :=
  ⟨h, fun _ _ => trivial⟩

theorem relayMessage_quiet {props : MessagesProperties} {request : SendMessageRequest}
    {sender : ParticipantContext} {fileError : Option String} (h : request.messageId ≠ id) :
    Quiet id (MessageHandler.relayMessage props request sender fileError) fun _ => True := by
  have hnew : decide (request.messageId = id) = false := decide_eq_false h
  simp only [MessageHandler.relayMessage, ensures_bind, ensures_ask]
  intro s _
  split
  · exact send_quiet rfl
  refine withPeer_ensures (fun _ => send_quiet rfl) fun recipient => ?_
  simp only [ensures_bind, ensures_ask]
  intro s _
  split
  · exact send_quiet rfl
  simp only [ensures_bind, ensures_write, ensures_ask, ensures_ite]
  refine ⟨trivial, fun _ _ s _ s' _ => ⟨fun _ => ?_, fun _ => ?_⟩⟩
  · refine ⟨h, fun _ _ => ⟨h, fun _ _ => ⟨hnew, fun _ _ => ⟨rfl, fun _ _ => ?_⟩⟩⟩⟩
    exact pruneSessionQueues_ensures prunes_silent _ _
  · simp only [MessageHandler.queueMessageForOfflineDelivery, ensures_bind (ask _), ensures_ask,
      MessageRepository.queueMessage, ensures_bind]
    refine fun s _ => (push_ensures ?_ ?_).mono (fun _ h => h) (fun _ h => h) fun _ _ => ?_
    · intro m hm
      obtain rfl := Option.some.inj hm
      exact h
    · exact fun _ h => by cases h
    · exact ⟨h, fun _ _ => ⟨h, fun _ _ => ⟨rfl, fun _ _ =>
        pruneSessionQueues_ensures prunes_silent _ _⟩⟩⟩

section Edit

variable {props : MessagesProperties} {request : EditMessageRequest} {editor : ParticipantContext}
  {peer : String} {live : Bool}

theorem edited_quiet {user : String} (h : request.messageId ≠ id) :
    Quiet id (write (.send user (MessageHandler.buildMessageEditSuccess request)))
      fun _ => True :=
  send_quiet (decide_eq_false h)

theorem sendEditSuccessBoth_quiet (h : request.messageId ≠ id) :
    Quiet id (MessageHandler.sendEditSuccessBoth editor peer request live) fun _ => True :=
  (edited_quiet h).bind fun _ _ => (ensures_ite ..).mpr
    ⟨fun _ => edited_quiet h, fun _ => trivial⟩

/-- What is found in the queue is another message. -/
theorem updateMessageInQueue_quiet :
    Quiet id (MessageRepository.updateMessageInQueue peer request.messageId editor
      request.encryptedContent request.iv request.editedAt)
      fun updated => updated = true → request.messageId ≠ id := by
  simp only [MessageRepository.updateMessageInQueue, ensures_bind, ensures_ask]
  intro s hs
  split
  · exact fun h => by cases h
  rename_i target index hfind
  have hne := hs.messages peer target
    (List.fst_mem_of_mem_zipIdx (List.mem_of_find?_eq_some hfind))
  have hid : target.messageId = request.messageId := by simpa [hasId] using List.find?_some hfind
  split
  · exact fun h => by cases h
  simp only [ensures_bind, ensures_ask, ensures_ite, ensures_write, pure_eq, ensures_done]
  refine fun s' _ => ⟨fun _ h => (by cases h), fun _ => ⟨fun m hm => ?_, fun _ _ _ => hid ▸ hne⟩⟩
  obtain rfl := Option.some.inj hm
  exact hne

theorem editDelivered_quiet :
    Quiet id (MessageHandler.editDelivered props editor peer request live) fun _ => True := by
  simp only [MessageHandler.editDelivered, ensures_bind, ensures_ask]
  intro s hs
  split
  · exact send_quiet rfl
  rename_i entry hentry
  have hne : request.messageId ≠ id := by
    rintro rfl
    exact by cases hs.editable.symm.trans hentry
  split
  · exact send_quiet rfl
  refine fun s' _ => (ensures_ite ..).mpr ⟨fun _ => send_quiet rfl, fun _ =>
    (ensures_ite ..).mpr ⟨fun _ => sendEditSuccessBoth_quiet hne, fun _ => ?_⟩⟩
  exact Ensures.bind (push_ensures trivial trivial) fun _ _ => edited_quiet hne

theorem editMessage_quiet :
    Quiet id (MessageHandler.editMessage props request editor) fun _ => True := by
  simp only [MessageHandler.editMessage, ensures_bind, ensures_ask]
  intro s _
  split
  · exact send_quiet rfl
  refine withPeer_ensures (fun _ => send_quiet rfl) fun peer => ?_
  simp only [ensures_bind, ensures_ask, ensures_ite, MessageHandler.hasLiveStompSession]
  refine fun s _ => ⟨fun _ => send_quiet rfl, fun _ s' _ => ?_⟩
  exact updateMessageInQueue_quiet.mono (fun _ h => h) (fun _ h => h) fun updated h =>
    ⟨fun hu => sendEditSuccessBoth_quiet (h hu), fun _ => editDelivered_quiet⟩

end Edit

section Delete

variable {props : MessagesProperties} {messageId : String} {deleter : ParticipantContext}
  {peer : String}

theorem finalizeDmDelete_quiet (h : messageId ≠ id) :
    Quiet id (MessageHandler.finalizeDmDelete props deleter peer messageId) fun _ => True := by
  have hevent : decide (messageId = id) = false := decide_eq_false h
  have hqueue : ∀ deletion, Quiet id (MessageRepository.queueDeletion props peer deletion)
      fun _ => True := fun _ => push_ensures trivial trivial
  simp only [MessageHandler.finalizeDmDelete, MessageHandler.hasLiveStompSession, ensures_bind,
    ensures_ask, ensures_write, ensures_ite, ensures_done, pure_eq]
  refine fun s _ => ⟨hevent, fun _ _ s' _ => ⟨fun _ => ⟨hevent, fun _ _ => ?_⟩, fun _ => ?_⟩⟩
  · exact ⟨trivial, fun _ _ => ⟨trivial, fun _ _ => ⟨fun _ => trivial, fun _ => hqueue _⟩⟩⟩
  · exact ⟨trivial, fun _ _ => ⟨trivial, fun _ _ => ⟨fun _ => trivial, fun _ => hqueue _⟩⟩⟩

theorem removeMessageFromQueue_quiet :
    Quiet id (MessageRepository.removeMessageFromQueue peer messageId)
      fun removed => removed.isSome = true → messageId ≠ id := by
  simp only [MessageRepository.removeMessageFromQueue, ensures_bind, ensures_ask]
  intro s hs
  split
  · exact fun h => by cases h
  rename_i m hfind
  have hne := hs.messages peer m (List.mem_of_find?_eq_some hfind)
  obtain rfl : messageId = m.messageId := by simpa [hasId, eq_comm] using List.find?_some hfind
  simp only [ensures_bind, ensures_write, ensures_ite, ensures_done, pure_eq]
  exact ⟨fun _ h => (by cases h), fun _ _ =>
    ⟨fun _ => ⟨fun _ h => (by cases h), fun _ _ _ => hne⟩, fun _ _ => hne⟩⟩

theorem assertDeleterOwnsMessage_quiet :
    Quiet id (MessageHandler.assertDeleterOwnsMessage messageId deleter)
      fun code => code = .ok → messageId ≠ id := by
  simp only [MessageHandler.assertDeleterOwnsMessage, ensures_bind, ensures_ask]
  intro s hs
  split
  · rename_i entry hentry
    rintro - rfl
    exact by cases hs.senders.symm.trans hentry
  simp only [ensures_bind, ensures_ask]
  intro s' hs'
  split
  · rename_i entry hentry
    rintro - rfl
    exact by cases hs'.editable.symm.trans hentry
  · exact fun h => by cases h

theorem deleteMessage_quiet :
    Quiet id (MessageHandler.deleteMessage props messageId deleter) fun _ => True := by
  simp only [MessageHandler.deleteMessage, ensures_bind, ensures_ask]
  intro s _
  split
  · exact send_quiet rfl
  refine withPeer_ensures (fun _ => send_quiet rfl) fun peer => ?_
  refine removeMessageFromQueue_quiet.bind fun removed hremoved => ?_
  split
  · have hne := hremoved rfl
    refine (ensures_ite ..).mpr ⟨fun _ => send_quiet rfl, fun _ => ?_⟩
    simp only [MessageHandler.finalizeDmDeleteFromQueue, ensures_bind, ensures_ite, ensures_write,
      ensures_done]
    exact ⟨fun _ => ⟨trivial, fun _ _ => finalizeDmDelete_quiet hne⟩,
      fun _ => finalizeDmDelete_quiet hne⟩
  refine assertDeleterOwnsMessage_quiet.bind fun code hcode => ?_
  split
  · exact send_quiet rfl
  · exact send_quiet rfl
  have hne := hcode rfl
  simp only [MessageHandler.finalizeDmDeleteDelivered, ensures_bind, ensures_ask, ensures_ite,
    ensures_write, ensures_done]
  exact fun s _ => ⟨fun _ => ⟨trivial, fun _ _ => finalizeDmDelete_quiet hne⟩,
    fun _ => finalizeDmDelete_quiet hne⟩

end Delete

theorem program_quiet {props : MessagesProperties} {op : Op} (h : op.sends id = false) :
    Quiet id (op.program props) fun _ => True := by
  cases op with
  | relayMessage request sender fileError => exact relayMessage_quiet (of_decide_eq_false h)
  | editMessage request editor => exact editMessage_quiet
  | deleteMessage messageId deleter => exact deleteMessage_quiet
  | syncMessages participant =>
      simp only [Op.program, MessageHandler.syncMessages, ensures_bind, ensures_ask]
      intro s _
      split
      · exact send_quiet rfl
      refine (ensures_ite ..).mpr ⟨fun _ => send_quiet rfl, fun _ s _ => ?_⟩
      exact (pruneSessionQueues_ensures prunes_silent _ _).bind fun _ _ =>
        drain_ensures prunes_silent fun _ _ _ h _ _ => syncEvent_silent h
  | pushPendingMessagesForSession user =>
      simp only [Op.program, DirectMessages.pushPendingMessagesForSession, ensures_bind,
        ensures_ask]
      intro s₁ h₁ s₂ _ s₃ _
      split
      · trivial
      · rename_i event hevent
        exact send_quiet (syncEvent_silent h₁ event hevent)
  | applySessionMessageTtl caller ttl =>
      simp only [Op.program, DirectMessages.applySessionMessageTtl, ensures_bind, ensures_ask]
      intro s _
      split
      · trivial
      exact (ensures_ite ..).mpr ⟨fun _ => trivial, fun _ s _ =>
        pruneSessionQueues_ensures prunes_silent _ _⟩

end Quiet

/-! ## A deletion on its own -/

/-- The id stands for one message, and not for one that waits for the user. -/
structure Sole (parties : Parties) (user messageId : String) (s : Store) : Prop where
  own : ∀ m ∈ s.messages user, m.messageId ≠ messageId
  once : ∀ role : Role, (s.messages (parties.id role)).countP (hasId messageId) ≤ 1

/-- The user is told no, and nothing else happens. -/
def Refused (user : ParticipantContext) (messageId : String) (s s' : Store) : Prop :=
  ∃ code, s' = s.exec (.send user.internalId.val (.deleteError messageId code))

/-- The participants are told, if not the peer then its queue of deletions, and
nothing is left. -/
structure Deleted (parties : Parties) (user : ParticipantContext) (messageId : String)
    (s s' : Store) : Prop where
  gone : Gone messageId s'
  told : ∃ peer, Peers parties user.internalId.val peer
    ∧ Told user peer (s.live peer) (.messageDeleted messageId user.telegramId s.now) s'
    ∧ (s.live peer = false → ∃ d ∈ s'.deletions peer, d.messageId = messageId)

section Deletion

variable {props : MessagesProperties} {parties : Parties} {sent : List Sent} {s t : Store}
  {user : ParticipantContext} {peer id : String}

/-- Only the participants have queues. -/
theorem absent_elsewhere (hs : Genuine parties sent s)
    (hpeer : Peers parties user.internalId.val peer)
    (hsole : Sole parties user.internalId.val id s) {r : String} (hr : r ≠ peer) :
    ∀ m ∈ s.messages r, m.messageId ≠ id := by
  intro m hm
  obtain ⟨role, hu, rfl⟩ := hpeer
  obtain ⟨-, -, ⟨role', -, rfl⟩, -⟩ := hs.messages r m hm
  have hsame : parties.id role'.peer = user.internalId.val := by
    rw [hu]
    cases role <;> cases role' <;> first | rfl | exact absurd rfl hr
  exact hsole.own m (hsame ▸ hm)

/-- The queue gives up the only message of the id. -/
theorem absent_of_remove {m : Message} (hs : Genuine parties sent s)
    (hpeer : Peers parties user.internalId.val peer) (hsole : Sole parties user.internalId.val id s)
    (hm : m ∈ s.messages peer) (hid : hasId id m = true) :
    ∀ r, ∀ m' ∈ (s.exec (.messages peer (.remove m))).messages r, m'.messageId ≠ id := by
  intro r m' hm'
  by_cases hr : r = peer
  · subst hr
    have hcount : ((s.messages r).erase m).countP (hasId id) = 0 := by
      obtain ⟨role, -, rfl⟩ := hpeer
      have honce := hsole.once role.peer
      rw [(List.perm_cons_erase hm).countP_eq, List.countP_cons_of_pos hid] at honce
      omega
    simp only [Store.exec, Function.update_self] at hm'
    simpa [hasId] using List.countP_eq_zero.mp hcount m' hm'
  · simp only [Store.exec, Function.update_of_ne hr] at hm'
    exact absent_elsewhere hs hpeer hsole hr m' hm'

/-- What is pushed last is not trimmed. -/
theorem mem_ltrim_last {α : Type} {maxList : Int} (hmax : 0 ≤ maxList) (l : List α) (x : α) :
    x ∈ ltrim (-maxList) (l ++ [x]) := by
  have hdrop : ∀ k ≤ l.length, x ∈ (l ++ [x]).drop k := fun k hk => by
    simp [List.drop_append_of_le_length hk]
  unfold ltrim
  split
  · refine hdrop _ ?_
    rw [List.length_append, List.length_singleton]
    omega
  · refine hdrop _ ?_
    omega

theorem queueDeletion_wp {deletion : MessageDeletion} {Q : Unit → Store → Prop} {E : Store → Prop}
    (hmax : 0 ≤ props.messageDeletions)
    (hQ : ∀ l, deletion ∈ l → Q () { t with deletions := Function.update t.deletions peer l }) :
    (MessageRepository.queueDeletion props peer deletion).wp Store.exec Q E t := by
  simp only [MessageRepository.queueDeletion, MessageRepository.push, wp_bind, wp_call, wp_ite,
    wp_write, pure_eq, wp_done]
  refine ⟨fun _ => ?_, fun _ => hQ _ (by simp [ListOp.apply])⟩
  simp only [Store.exec, Function.update_self, Function.update_idem]
  exact hQ _ (mem_ltrim_last hmax _ _)

theorem finalizeDmDelete_deleted (hpeer : Peers parties user.internalId.val peer)
    (hmax : 0 ≤ props.messageDeletions) (hgone : ∀ r, ∀ m ∈ t.messages r, m.messageId ≠ id)
    (hlive : t.live = s.live) (hnow : t.now = s.now) {E : Store → Prop} :
    (MessageHandler.finalizeDmDelete props user peer id).wp Store.exec
      (fun _ => Deleted parties user id s) E t := by
  simp only [MessageHandler.finalizeDmDelete, MessageHandler.hasLiveStompSession, wp_bind, wp_ask,
    wp_write, wp_ite, wp_done, pure_eq]
  -- by now the peer has been told or not, and the rest is the same
  refine ⟨fun hl => ⟨fun _ => ?_, fun hn => absurd hl hn⟩, fun hl => ⟨fun h => absurd h hl, fun _ =>
    queueDeletion_wp hmax fun l hmem => ?_⟩⟩
  · refine ⟨⟨hgone, Function.update_self .., Function.update_self ..⟩, peer, hpeer, ?_, ?_⟩
    · simp [Told, Store.exec, hnow]
    · exact fun hn => absurd (hn.symm.trans ((congrFun hlive peer).symm.trans hl)) (by decide)
  · refine ⟨⟨hgone, Function.update_self .., Function.update_self ..⟩, peer, hpeer, ?_, fun _ =>
      ⟨⟨id, user.telegramId, t.now⟩, ?_, rfl⟩⟩
    · have hn : s.live peer = false := by simpa [Store.exec, hlive] using hl
      simp [Told, Store.exec, hnow, hn]
    · simpa using hmem

theorem assertDeleterOwnsMessage_wp {Q : MessageHandler.OwnershipCode → Store → Prop}
    {E : Store → Prop} (h : ∀ code, Q code s) :
    (MessageHandler.assertDeleterOwnsMessage id user).wp Store.exec Q E s := by
  simp only [MessageHandler.assertDeleterOwnsMessage, wp_bind, wp_ask]
  split
  · exact h _
  simp only [wp_bind, wp_ask]
  split
  · exact h _
  · exact h _

theorem deleteMessage_deleted (hs : Genuine parties sent s) (hmax : 0 ≤ props.messageDeletions)
    (hsole : Sole parties user.internalId.val id s) :
    (MessageHandler.deleteMessage props id user).wp Store.exec
      (fun _ s' => Refused user id s s' ∨ Deleted parties user id s s')
      (fun s' => Refused user id s s' ∨ Deleted parties user id s s') s := by
  have hfinal : ∀ {peer t E}, Peers parties user.internalId.val peer →
      (∀ r, ∀ m ∈ t.messages r, m.messageId ≠ id) → t.live = s.live → t.now = s.now →
      (MessageHandler.finalizeDmDelete props user peer id).wp Store.exec
        (fun _ s' => Refused user id s s' ∨ Deleted parties user id s s') E t :=
    fun hpeer hgone hlive hnow => wp_mono (finalizeDmDelete_deleted hpeer hmax hgone hlive hnow)
      (fun _ _ h => .inr h) fun _ h => h
  simp only [MessageHandler.deleteMessage, wp_bind, wp_ask]
  split
  · exact .inl ⟨_, rfl⟩
  rename_i session hsession
  unfold MessageHandler.runDmDelete
  rcases withPeer_cases user _ _ (hs.session session hsession) with
    ⟨code, -, -, heq⟩ | ⟨peer, hpeer, heq⟩
  · rw [heq]
    exact .inl ⟨code, rfl⟩
  rw [heq]
  simp only [MessageRepository.removeMessageFromQueue, wp_bind, wp_ask]
  split
  · rename_i hnone
    have hgone : ∀ r, ∀ m ∈ s.messages r, m.messageId ≠ id := by
      intro r m hm
      by_cases hr : r = peer
      · simpa [hasId] using List.find?_eq_none.mp hnone m (hr ▸ hm)
      · exact absent_elsewhere hs hpeer hsole hr m hm
    simp only [wp_done, pure_eq]
    refine (wp_bind ..).mpr (assertDeleterOwnsMessage_wp fun code => ?_)
    cases code with
    | notAllowed => exact .inl ⟨_, rfl⟩
    | notFound => exact .inl ⟨_, rfl⟩
    | ok =>
        simp only [MessageHandler.finalizeDmDeleteDelivered, wp_bind, wp_ask, wp_ite, wp_write,
          wp_done]
        exact ⟨fun _ => hfinal hpeer hgone rfl rfl, fun _ => hfinal hpeer hgone rfl rfl⟩
  · rename_i m hfind
    have hm := List.mem_of_find?_eq_some hfind
    have hgone := absent_of_remove hs hpeer hsole hm (List.find?_some hfind)
    obtain ⟨sender, hsender, hpeer', -⟩ := hs.messages peer m hm
    have hown : isMessageSender m user = true := by
      rw [isMessageSender, hsender, hpeer.unique hpeer']
      exact decide_eq_true rfl
    have hgone' := forall_mem_apply (P := fun _ (m : Message) => m.messageId ≠ id) (r := peer)
      (c := .delete) hgone fun _ h => by cases h
    simp only [wp_bind, wp_write, wp_ite, wp_done, pure_eq, hown, Bool.not_true,
      MessageHandler.finalizeDmDeleteFromQueue]
    refine ⟨fun _ => ⟨fun h => (by cases h), fun _ => ⟨fun _ => ?_, fun _ => ?_⟩⟩,
      fun _ => ⟨fun h => (by cases h), fun _ => ⟨fun _ => ?_, fun _ => ?_⟩⟩⟩
    · exact hfinal hpeer hgone' rfl rfl
    · exact hfinal hpeer hgone' rfl rfl
    · exact hfinal hpeer hgone rfl rfl
    · exact hfinal hpeer hgone rfl rfl

end Deletion

/-! ## Every run -/

/-- Nothing of the message is stored, and nobody is about to bring it back. -/
structure Forgotten (props : MessagesProperties) (messageId : String) (c : State) : Prop where
  gone : Gone messageId c.store.1
  pool : ∀ p ∈ c.pool, Quiet messageId (p.rest (Op.program props)) fun _ => True

section Runs

variable {props : MessagesProperties} {parties : Parties} {id : String} {c c' : State}

theorem Forgotten.silent {p : DmCall} {op : Op} {command : Command} (h : Forgotten props id c)
    (hp : p ∈ c.pool) (hc : p.command? = some (op, command)) : Silent id command := by
  obtain ⟨next, rfl⟩ := Call.command?_eq_some hc
  exact (h.pool _ hp).1

theorem forgotten_preserved :
    (server props parties).Preserves (fun _ a => Call.within (fun op => !op.sends id) a = true)
      (Forgotten props id) where
  start c p hc hg hp := by
    have hp' : (Call.server Store.exec (Op.program props) (move parties)).opens p = true := hp
    obtain ⟨op, rfl⟩ := Call.opens_eq hp'
    exact ⟨hc.gone, forall_start hc.pool (program_quiet (by simpa [Call.within, Call.op] using hg))⟩
  turn c i p s' p' hc _ hi hs := by
    obtain ⟨hstep, -⟩ := Server.recording_step hs
    have hmem := List.mem_of_getElem? hi
    refine ⟨?_, forall_turn hc.pool ?_⟩
    · rcases (Call.step_cases hstep).2 with ⟨hsame, -⟩ | ⟨command, hcmd, hexec⟩
      · exact hsame ▸ hc.gone
      · exact hexec ▸ hc.gone.exec (hc.silent hmem hcmd)
    · rcases Call.rest_step hstep with ⟨-, hr⟩ | hr
      · exact hr ▸ hc.pool p hmem
      · exact (hc.pool p hmem).step hc.gone hr
  env c e s' hc _ he := ⟨hc.gone.move (Server.recording_env he).1, hc.pool⟩

theorem quiet_of_isOver {p : DmCall} (h : p.isOver = true) :
    Quiet id (p.rest (Op.program props)) fun _ => True := by
  cases p with
  | arriving op => cases h
  | running op rest =>
      cases rest with
      | done a => trivial
      | fail error => trivial
      | read next => cases h
      | exec c next => cases h

end Runs

def sent : State := ((server sampleProps adaAndBen).exec start sending).get (by decide)

def only (i : Nat) : State → Action DmCall Move → Bool
  | _, .turn j => i = j
  | _, _ => false

/-- Ada deletes the message that waits for Ben. -/
def withdrawn : State :=
  ((server sampleProps adaAndBen).execWhile (only 1)
    { sent with pool := sent.pool ++ [.arriving (.deleteMessage "m" ada)] } (turns 1 11)).get
    (by decide)

def synced : State :=
  ((server sampleProps adaAndBen).execWhile
    (fun _ a => Call.within (fun op => !op.sends "m") a) withdrawn
    ([.start (.arriving (.syncMessages ben))] ++ turns 2 8)).get (by decide)

/-- Where Ben's sync has read the queue before, he gets the deleted message. -/
example : ((server sampleProps adaAndBen).exec sent
    ([.start (.arriving (.syncMessages ben))] ++ turns 1 4
      ++ [.start (.arriving (.deleteMessage "m" ada))] ++ turns 2 11 ++ turns 1 3)).any
    (fun c => (c.pool[2]?.any (·.isOver)) && (c.store.1.senders "m").isNone
      && c.store.1.outbox.getLast?.any fun x => x.1 = "ben" && x.2.carries "m") = true := by
  decide

end DirectMessages

end BurnedChats

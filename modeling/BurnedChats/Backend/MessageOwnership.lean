import BurnedChats.Backend.DirectMessages
import Mathlib.Data.List.ReduceOption

/-!
# Who may edit and delete a direct message

`alters_own`: whatever an edit or a deletion does, also where other requests have
moved what it has read, it does to messages that its user has sent.
`refusal_shared`: such a request is turned down as not the owner's only where the
peer has sent a message under the same id. The converse is `resent_editable`:
whoever sends an id last may edit it, whoever had it before.

What is stored is `Genuine`: it names senders that have sent just that. Requests
are `Proper`: as long as what they read is genuine, they write nothing else, and
edits and deletions keep to their user. Neither is lost when more is sent, so a
request may be overtaken by any others.
-/

namespace BurnedChats

namespace DirectMessages

open Program
open Interleave (Conf Server Action forall_turn forall_start)
open Sessions (Session Role nonActiveCode)
open LiveSessions (ParticipantContext)
open Handshake (Parties)
open OfflineQueue (isOutsideEditWindow)
open PendingCount.Store (ltrim)

/-! ## Whose things are -/

def HasSent (sent : List Sent) (user messageId : String) (files : List String) : Prop :=
  ∃ x ∈ sent, x.sender = user ∧ x.messageId = messageId ∧ files ⊆ x.files

def Peers (parties : Parties) (user recipient : String) : Prop :=
  ∃ role : Role, user = parties.id role ∧ recipient = parties.id role.peer

/-- What waits for a recipient comes from the peer, who has sent that message. -/
def From (parties : Parties) (sent : List Sent) (recipient messageId : String)
    (files : List String) (user : String) : Prop :=
  Peers parties user recipient ∧ HasSent sent user messageId files

def Message.Genuine (parties : Parties) (sent : List Sent) (recipient : String) (m : Message) :
    Prop :=
  ∃ user, m.senderInternalId = some user
    ∧ From parties sent recipient m.messageId m.file.files user

/-- What is stored of the sender of a message. -/
def Owner (parties : Parties) (sent : List Sent) (messageId : String)
    (senderInternalId : Option String) (files : List String) : Prop :=
  ∃ role : Role, senderInternalId = some (parties.id role)
    ∧ HasSent sent (parties.id role) messageId files

structure Genuine (parties : Parties) (sent : List Sent) (s : Store) : Prop where
  session : ∀ session ∈ s.session, ofParties parties session = true
  messages : ∀ r, ∀ m ∈ s.messages r, m.Genuine parties sent r
  edits : ∀ r, ∀ e ∈ s.edits r, ∃ user, From parties sent r e.messageId [] user
  deletions : ∀ r, ∀ d ∈ s.deletions r, ∃ user, From parties sent r d.messageId [] user
  editable : ∀ id, ∀ x ∈ s.editable id,
    Owner parties sent id x.senderInternalId (fileIds x.fileId x.thumbnailFileId)
  senders : ∀ id, ∀ x ∈ s.senders id, Owner parties sent id x.senderInternalId []

/-! ## What a command may do -/

/-- The entry that a command on a list brings in. -/
def ListOp.entry {α : Type} : ListOp α → Option α
  | .rightPush x => some x
  | .set _ x => some x
  | _ => none

/-- The event tells that a message was edited or deleted. -/
def Event.announces (messageId : String) : Event → Bool
  | .messageEdited id .. => id = messageId
  | .messageDeleted id .. => id = messageId
  | _ => false

/-- The event tells a user that a message is not its own. -/
def Event.disowns (messageId : String) : Event → Bool
  | .editError id errorCode => id = messageId && errorCode = "NOT_OWNER"
  | .deleteError id errorCode => id = messageId && errorCode = "NOT_ALLOWED"
  | _ => false

section Permitted

variable (parties : Parties) (sent : List Sent) (op : Op)

/-- What the command of a request brings in is genuine, and an edit or a deletion
works on the queues of its peer and on ids that its user has sent. -/
def Permitted : Command → Prop
  | .save session => ofParties parties session = true ∧ op.alters = false
  | .messages r c =>
      (∀ m ∈ c.entry, m.Genuine parties (note op (.messages r c) sent) r)
        ∧ (op.alters = true → Peers parties op.user r)
  | .edits r c =>
      (∀ e ∈ c.entry, ∃ user, From parties sent r e.messageId [] user)
        ∧ (op.alters = true → Peers parties op.user r)
  | .deletions r c =>
      (∀ d ∈ c.entry, ∃ user, From parties sent r d.messageId [] user)
        ∧ (op.alters = true → Peers parties op.user r)
  | .setEditable id x =>
      Owner parties (note op (.setEditable id x) sent) id x.senderInternalId
        (fileIds x.fileId x.thumbnailFileId) ∧ op.alters = false
  | .deleteEditable id => HasSent sent op.user id []
  | .putSender id x =>
      Owner parties (note op (.putSender id x) sent) id x.senderInternalId [] ∧ op.alters = false
  | .removeSender id => HasSent sent op.user id []
  | .burnFiles fileId thumbnailFileId => ∃ id, HasSent sent op.user id []
      ∧ ∃ user, HasSent sent user id (fileIds fileId thumbnailFileId)
  | .send _ event => op.alters = true → ∀ id,
      (event.announces id = true → HasSent sent op.user id [])
        ∧ (event.disowns id = true → ∃ other, From parties sent op.user id [] other)

/-- The program does only what it may, as long as what it reads is genuine. -/
abbrev Proper {α : Type} (p : Prog α) (Q : α → Prop) : Prop :=
  p.Ensures (Genuine parties sent) (Permitted parties sent op) Q

end Permitted

section Facts

variable {parties : Parties} {sent sent' : List Sent} {op : Op}

theorem mem_ltrim {α : Type} {x : α} {start : Int} {l : List α} (h : x ∈ ltrim start l) :
    x ∈ l := by
  unfold ltrim at h
  split at h
  · exact List.mem_of_mem_drop h
  · exact List.mem_of_mem_drop h

theorem ListOp.mem_apply {α : Type} [DecidableEq α] {c : ListOp α} {x : α} {l : List α}
    (h : x ∈ c.apply l) : x ∈ l ∨ x ∈ c.entry := by
  cases c with
  | rightPush y => exact (List.mem_append.mp h).imp id fun h => by simpa [entry, eq_comm] using h
  | trim maxList => exact .inl (mem_ltrim h)
  | set i y => exact (List.mem_or_eq_of_mem_set h).imp id fun h => by simp [entry, h]
  | remove y => exact .inl (List.mem_of_mem_erase h)
  | delete => cases h

theorem subset_note (op : Op) (c : Command) (sent : List Sent) : sent ⊆ note op c sent := by
  unfold note
  split
  · split
    · exact List.subset_cons_self ..
    · exact fun _ h => h
  · exact fun _ h => h

theorem HasSent.mono {u id : String} {files files' : List String} (h : HasSent sent u id files)
    (hsent : sent ⊆ sent') (hfiles : files' ⊆ files) : HasSent sent' u id files' := by
  obtain ⟨x, hx, hu, hid, hf⟩ := h
  exact ⟨x, hsent hx, hu, hid, fun f hmem => hf (hfiles hmem)⟩

theorem From.mono {r id u : String} {files files' : List String}
    (h : From parties sent r id files u) (hsent : sent ⊆ sent') (hfiles : files' ⊆ files) :
    From parties sent' r id files' u :=
  ⟨h.1, h.2.mono hsent hfiles⟩

theorem Message.Genuine.mono {r : String} {m : Message} (h : m.Genuine parties sent r)
    (hsent : sent ⊆ sent') : m.Genuine parties sent' r := by
  obtain ⟨u, hu, hfrom⟩ := h
  exact ⟨u, hu, hfrom.mono hsent fun _ h => h⟩

theorem Owner.mono {id : String} {sender : Option String} {files : List String}
    (h : Owner parties sent id sender files) (hsent : sent ⊆ sent') :
    Owner parties sent' id sender files := by
  obtain ⟨role, hrole, hs⟩ := h
  exact ⟨role, hrole, hs.mono hsent fun _ h => h⟩

theorem Genuine.mono {s : Store} (h : Genuine parties sent s) (hsent : sent ⊆ sent') :
    Genuine parties sent' s where
  session := h.session
  messages r m hm := (h.messages r m hm).mono hsent
  edits r e he := (h.edits r e he).imp fun _ h => h.mono hsent fun _ h => h
  deletions r d hd := (h.deletions r d hd).imp fun _ h => h.mono hsent fun _ h => h
  editable id x hx := (h.editable id x hx).mono hsent
  senders id x hx := (h.senders id x hx).mono hsent

/-- There are two participants, so a queue has one writer. -/
theorem Peers.unique {u u' r : String} (h : Peers parties u r) (h' : Peers parties u' r) :
    u = u' := by
  obtain ⟨role, rfl, hr⟩ := h
  obtain ⟨role', rfl, hr'⟩ := h'
  have hd := parties.distinct
  cases role <;> cases role' <;> simp_all [Parties.id, Role.peer]

theorem Peers.symm {u r : String} (h : Peers parties u r) : Peers parties r u := by
  obtain ⟨role, rfl, rfl⟩ := h
  cases role with
  | initiator => exact ⟨.responder, rfl, rfl⟩
  | responder => exact ⟨.initiator, rfl, rfl⟩

theorem peers_id (role : Role) : Peers parties (parties.id role) (parties.id role.peer) :=
  ⟨role, rfl, rfl⟩

/-- A command on one list keeps what holds of all entries, if its own entry has it. -/
theorem forall_mem_apply {α : Type} [DecidableEq α] {P : String → α → Prop}
    {lists : String → List α} {r : String} {c : ListOp α} (h : ∀ r, ∀ x ∈ lists r, P r x)
    (hc : ∀ x ∈ c.entry, P r x) :
    ∀ r', ∀ x ∈ Function.update lists r (c.apply (lists r)) r', P r' x := by
  intro r' x hx
  by_cases hr : r' = r
  · subst hr
    rw [Function.update_self] at hx
    exact (ListOp.mem_apply hx).elim (h r' x) (hc x)
  · rw [Function.update_of_ne hr] at hx
    exact h r' x hx

theorem forall_mem_update {α : Type} {P : String → α → Prop} {entries : String → Option α}
    {id : String} {v : Option α} (h : ∀ id, ∀ x ∈ entries id, P id x) (hv : ∀ x ∈ v, P id x) :
    ∀ id', ∀ x ∈ Function.update entries id v id', P id' x := by
  intro id' x hx
  by_cases hid : id' = id
  · subst hid
    rw [Function.update_self] at hx
    exact hv x hx
  · rw [Function.update_of_ne hid] at hx
    exact h id' x hx

/-- What one command leaves is genuine. -/
theorem Genuine.exec {s : Store} {c : Command} (h : Genuine parties sent s)
    (hc : Permitted parties sent op c) : Genuine parties (note op c sent) (s.exec c) := by
  have hm := h.mono (subset_note op c sent)
  have hfrom : ∀ {r id : String}, (∃ u, From parties sent r id [] u) →
      ∃ u, From parties (note op c sent) r id [] u :=
    fun h => h.imp fun _ h => h.mono (subset_note op c sent) fun _ h => h
  cases c with
  | save session => exact { hm with session := fun x hx => Option.some.inj hx ▸ hc.1 }
  | messages r c => exact { hm with messages := forall_mem_apply hm.messages hc.1 }
  | edits r c =>
      exact { hm with edits := forall_mem_apply hm.edits fun e he => hfrom (hc.1 e he) }
  | deletions r c =>
      exact { hm with deletions := forall_mem_apply hm.deletions fun d hd => hfrom (hc.1 d hd) }
  | setEditable id x =>
      exact { hm with
        editable := forall_mem_update hm.editable fun _ h => Option.some.inj h ▸ hc.1 }
  | deleteEditable id =>
      exact { hm with editable := forall_mem_update hm.editable fun _ h => by cases h }
  | putSender id x =>
      exact { hm with
        senders := forall_mem_update hm.senders fun _ h => Option.some.inj h ▸ hc.1 }
  | removeSender id =>
      exact { hm with senders := forall_mem_update hm.senders fun _ h => by cases h }
  | burnFiles f t => exact { hm with }
  | send user event => exact { hm with }

/-- So does a move of the rest of the server. -/
theorem Genuine.move {s s' : Store} {e : Move} (h : Genuine parties sent s)
    (he : move parties e s = some s') : Genuine parties sent s' := by
  cases e with
  | tick ms =>
      obtain rfl := Option.some.inj he
      exact { h with }
  | registry user connected =>
      obtain rfl := Option.some.inj he
      exact { h with }
  | session session =>
      simp only [DirectMessages.move] at he
      split at he
      · rename_i hs
        obtain rfl := Option.some.inj he
        refine { h with session := fun x hx => ?_ }
        obtain rfl : session = some x := hx
        exact hs
      · cases he
  | expire key =>
      obtain rfl := Option.some.inj he
      cases key with
      | messages r =>
          exact { h with
            messages := forall_mem_apply (c := .delete) h.messages fun _ h => by cases h }
      | edits r =>
          exact { h with
            edits := forall_mem_apply (c := .delete) h.edits fun _ h => by cases h }
      | deletions r =>
          exact { h with
            deletions := forall_mem_apply (c := .delete) h.deletions fun _ h => by cases h }
      | editable id =>
          exact { h with editable := forall_mem_update h.editable fun _ h => by cases h }
      | senders => exact { h with senders := fun _ _ h => by cases h }

end Facts

/-! ## What the requests do -/

section Programs

variable {parties : Parties} {sent : List Sent} {op : Op}

/-- Requests that alter nothing may prune. -/
theorem prunes_permitted (hop : op.alters = false) :
    Prunes (Genuine parties sent) (Permitted parties sent op) := by
  have hno : ∀ r, op.alters = true → Peers parties op.user r := fun _ h => by simp [hop] at h
  refine ⟨fun _ => ⟨fun _ h => (by cases h), hno _⟩, fun _ => ⟨fun _ h => (by cases h), hno _⟩,
    fun _ => ⟨fun _ h => (by cases h), hno _⟩, ?_, ?_, ?_⟩
  · refine fun s hs r m hm => ⟨fun m' hm' => ?_, hno _⟩
    obtain rfl := Option.some.inj hm'
    exact (hs.messages r m hm).mono (subset_note ..)
  · exact fun s hs r e he => ⟨fun e' he' => Option.some.inj he' ▸ hs.edits r e he, hno _⟩
  · exact fun s hs r d hd => ⟨fun d' hd' => Option.some.inj hd' ▸ hs.deletions r d hd, hno _⟩

/-! ### Who works on what -/

theorem nonActiveCode_ne (status : Sessions.SessionStatus) :
    nonActiveCode status ≠ "NOT_OWNER" ∧ nonActiveCode status ≠ "NOT_ALLOWED" := by
  cases status <;> decide

/-- Past the checks, the user is one of the participants and works with the other. -/
theorem withPeer_cases {session : Session} (user : ParticipantContext)
    (refuse : String → Prog Unit) (next : String → Prog Unit)
    (hsession : ofParties parties session = true) :
    (∃ code, code ≠ "NOT_OWNER" ∧ code ≠ "NOT_ALLOWED"
        ∧ MessageHandler.withPeer session user refuse next = refuse code)
      ∨ ∃ peer, Peers parties user.internalId.val peer
        ∧ MessageHandler.withPeer session user refuse next = next peer := by
  unfold MessageHandler.withPeer
  split
  · exact .inl ⟨_, by decide, by decide, rfl⟩
  split
  · exact .inl ⟨_, (nonActiveCode_ne _).1, (nonActiveCode_ne _).2, rfl⟩
  split
  · exact .inl ⟨_, by decide, by decide, rfl⟩
  rename_i peer hpeer
  refine .inr ⟨peer, ?_, rfl⟩
  obtain ⟨hpeer, -⟩ := Option.filter_eq_some_iff.mp hpeer
  obtain ⟨hi, hr⟩ := Bool.and_eq_true_iff.mp hsession
  simp only [Option.all_eq_true, decide_eq_true_eq] at hi hr
  simp only [Session.getPeerInternalId, Sessions.Session.isInitiator,
    Sessions.Session.isResponder, beq_iff_eq] at hpeer
  split at hpeer
  · rename_i hu
    rw [hi _ hu, hr _ hpeer]
    exact peers_id .initiator
  · split at hpeer
    · rename_i hu
      rw [hr _ hu, hi _ hpeer]
      exact peers_id .responder
    · cases hpeer

theorem withPeer_proper {session : Session} {user : ParticipantContext}
    {refuse : String → Prog Unit} {next : String → Prog Unit}
    (hsession : ofParties parties session = true)
    (hrefuse : ∀ code, code ≠ "NOT_OWNER" → code ≠ "NOT_ALLOWED" →
      Proper parties sent op (refuse code) fun _ => True)
    (hnext : ∀ peer, Peers parties user.internalId.val peer →
      Proper parties sent op (next peer) fun _ => True) :
    Proper parties sent op (MessageHandler.withPeer session user refuse next) fun _ => True := by
  rcases withPeer_cases user refuse next hsession with
    ⟨code, h₁, h₂, heq⟩ | ⟨peer, hpeer, heq⟩
  · rw [heq]
    exact hrefuse code h₁ h₂
  · rw [heq]
    exact hnext peer hpeer

/-! ### Sending -/

section Relay

variable {request : SendMessageRequest} {sender : ParticipantContext} {fileError : Option String}

theorem hasSent_note {c : Command} {files : List String}
    (hc : c.stores request.messageId = true) (hf : files ⊆ request.attachment.files) :
    HasSent (note (.relayMessage request sender fileError) c sent) sender.internalId.val
      request.messageId files := by
  simp only [note, hc, if_true]
  exact ⟨_, List.mem_cons_self, rfl, rfl, hf⟩

theorem fileIds_filter (f t : Option String) :
    fileIds (f.filter (!isBlank ·)) (t.filter (!isBlank ·)) = fileIds f t := by
  unfold fileIds
  cases f with
  | none => cases t with
    | none => rfl
    | some t => by_cases ht : isBlank t = true <;> simp [Option.filter, ht]
  | some f => cases t with
    | none => by_cases hf : isBlank f = true <;> simp [Option.filter, hf]
    | some t =>
        by_cases hf : isBlank f = true <;> by_cases ht : isBlank t = true <;>
          simp [Option.filter, hf, ht]

/-- What a relay stores beside the message says that the sender has sent it. -/
theorem entries_permitted {recipient : String} {serverTimestamp : Nat}
    (hpeer : Peers parties sender.internalId.val recipient) {next : Prog Unit}
    (hnext : Proper parties sent (.relayMessage request sender fileError) next fun _ => True) :
    Proper parties sent (.relayMessage request sender fileError) (do
      MessageRepository.putDmMessageEditableMeta request.messageId sender serverTimestamp
        request.attachment.fileId request.attachment.thumbnailFileId
      MessageRepository.putMessageSenderIndex request.messageId sender
      next) fun _ => True := by
  obtain ⟨role, hrole, -⟩ := hpeer
  have hsent : ∀ {c : Command} {files : List String}, c.stores request.messageId = true →
      files ⊆ request.attachment.files → Owner parties
        (note (.relayMessage request sender fileError) c sent) request.messageId
        (some sender.internalId.val) files :=
    fun hc hf => ⟨role, congrArg some hrole, hrole ▸ hasSent_note hc hf⟩
  refine ⟨⟨hsent (by simp [Command.stores]) ?_, rfl⟩, fun _ _ =>
    ⟨⟨hsent (by simp [Command.stores]) (List.nil_subset _), rfl⟩, fun _ _ => hnext⟩⟩
  simp only [fileIds_filter]
  exact fun _ h => h

theorem send_proper (user : String) (event : Event) :
    Proper parties sent (.relayMessage request sender fileError) (write (.send user event))
      fun _ => True :=
  ⟨fun h => (by cases h), fun _ _ => trivial⟩

theorem deliverMessageImmediately_proper {recipient : String} {telegramId : Option Int}
    {serverTimestamp : Nat} (hpeer : Peers parties sender.internalId.val recipient) :
    Proper parties sent (.relayMessage request sender fileError)
      (MessageHandler.deliverMessageImmediately sender recipient telegramId request serverTimestamp)
      fun _ => True :=
  entries_permitted hpeer ((send_proper _ _).bind fun _ _ => send_proper _ _)

theorem queueMessageForOfflineDelivery_proper {props : MessagesProperties} {recipient : String}
    {telegramId : Option Int} {serverTimestamp : Nat}
    (hpeer : Peers parties sender.internalId.val recipient) :
    Proper parties sent (.relayMessage request sender fileError)
      (MessageHandler.queueMessageForOfflineDelivery props sender recipient telegramId request
        serverTimestamp) fun _ => True := by
  simp only [MessageHandler.queueMessageForOfflineDelivery, MessageRepository.queueMessage,
    ensures_bind (ask _), ensures_ask]
  refine fun s _ => Ensures.bind (R := fun _ => True) ?_ fun _ _ =>
    entries_permitted hpeer (send_proper _ _)
  refine push_ensures ⟨fun m hm => ?_, fun h => by cases h⟩
    ⟨fun _ h => (by cases h), fun h => by cases h⟩
  -- the message that is pushed is the request's
  obtain rfl := Option.some.inj hm
  exact ⟨_, rfl, hpeer, hasSent_note (by simp [Command.stores, MessageHandler.buildQueuedMessage])
    fun _ h => h⟩

theorem relayMessage_proper {props : MessagesProperties} :
    Proper parties sent (.relayMessage request sender fileError)
      (MessageHandler.relayMessage props request sender fileError) fun _ => True := by
  simp only [MessageHandler.relayMessage, ensures_bind, ensures_ask]
  intro s hs
  split
  · exact send_proper _ _
  rename_i session hsession
  have hparties := hs.session session hsession
  refine withPeer_proper hparties (fun _ _ _ => send_proper _ _) fun recipient hpeer => ?_
  simp only [ensures_bind, ensures_ask]
  intro s _
  split
  · exact send_proper _ _
  simp only [ensures_bind, ensures_write, ensures_ask, ensures_ite]
  refine ⟨⟨hparties, rfl⟩, fun _ _ s _ s' _ => ⟨fun _ => ?_, fun _ => ?_⟩⟩
  · exact (deliverMessageImmediately_proper hpeer).mono (fun _ h => h) (fun _ h => h)
      fun _ _ => pruneSessionQueues_ensures (prunes_permitted rfl) _ _
  · exact (queueMessageForOfflineDelivery_proper hpeer).mono (fun _ h => h) (fun _ h => h)
      fun _ _ => pruneSessionQueues_ensures (prunes_permitted rfl) _ _

end Relay

/-! ### Editing and deleting -/

section Owns

variable {user : ParticipantContext} {id : String} {sender : Option String}
  {senderId : Option Int} {files : List String}

theorem hasSent_of_owns (h : Owner parties sent id sender files)
    (ho : owns sender senderId user = true) : HasSent sent user.internalId.val id [] := by
  obtain ⟨role, rfl, hs⟩ := h
  rw [of_decide_eq_true ho]
  exact hs.mono (fun _ h => h) (List.nil_subset _)

/-- Where it is not the user's, it is the peer's. -/
theorem from_of_not_owns {peer : String} (h : Owner parties sent id sender files)
    (ho : ¬ owns sender senderId user = true) (hpeer : Peers parties user.internalId.val peer) :
    ∃ other, From parties sent user.internalId.val id [] other := by
  obtain ⟨role, rfl, hs⟩ := h
  obtain ⟨role', hu, -⟩ := hpeer
  have hne : role ≠ role' := by
    rintro rfl
    exact ho (decide_eq_true hu)
  refine ⟨_, ?_, hs.mono (fun _ h => h) (List.nil_subset _)⟩
  rw [hu]
  cases role <;> cases role' <;> first | exact absurd rfl hne | exact peers_id _

end Owns

section Edit

variable {request : EditMessageRequest} {editor : ParticipantContext} {peer : String}

theorem editError_proper {code : String} (h : code = "NOT_OWNER" →
    ∃ other, From parties sent editor.internalId.val request.messageId [] other) :
    Proper parties sent (.editMessage request editor)
      (MessageHandler.sendMessageEditError editor request.messageId code) fun _ => True := by
  refine ⟨fun _ id => ⟨fun h => (by cases h), fun hd => ?_⟩, fun _ _ => trivial⟩
  obtain ⟨hid, hcode⟩ := Bool.and_eq_true_iff.mp hd
  exact of_decide_eq_true hid ▸ h (of_decide_eq_true hcode)

theorem edited_proper {user : String}
    (h : HasSent sent editor.internalId.val request.messageId []) :
    Proper parties sent (.editMessage request editor)
      (write (.send user (MessageHandler.buildMessageEditSuccess request))) fun _ => True :=
  ⟨fun _ _ => ⟨fun hid => of_decide_eq_true hid ▸ h, fun hd => (by cases hd)⟩, fun _ _ => trivial⟩

theorem sendEditSuccessBoth_proper {live : Bool}
    (h : HasSent sent editor.internalId.val request.messageId []) :
    Proper parties sent (.editMessage request editor)
      (MessageHandler.sendEditSuccessBoth editor peer request live) fun _ => True :=
  (edited_proper h).bind fun _ _ => (ensures_ite ..).mpr
    ⟨fun _ => edited_proper h, fun _ => trivial⟩

/-- The position may hold another message by then, but one of the same queue. -/
theorem updateMessageInQueue_proper (hpeer : Peers parties editor.internalId.val peer) :
    Proper parties sent (.editMessage request editor)
      (MessageRepository.updateMessageInQueue peer request.messageId editor
        request.encryptedContent request.iv request.editedAt)
      fun updated => updated = true → HasSent sent editor.internalId.val request.messageId [] := by
  simp only [MessageRepository.updateMessageInQueue, ensures_bind, ensures_ask]
  intro s hs
  split
  · exact fun h => by cases h
  rename_i target index hfind
  obtain ⟨sender, hsender, hpeer', hsent⟩ := hs.messages peer target
    (List.fst_mem_of_mem_zipIdx (List.mem_of_find?_eq_some hfind))
  have hid : target.messageId = request.messageId := by simpa [hasId] using List.find?_some hfind
  split
  · exact fun h => by cases h
  simp only [ensures_bind, ensures_ask, ensures_ite, ensures_write, pure_eq, ensures_done]
  refine fun s' _ => ⟨fun _ h => (by cases h), fun _ => ⟨⟨fun m hm => ?_, fun _ => hpeer⟩,
    fun _ _ _ => ?_⟩⟩
  · obtain rfl := Option.some.inj hm
    exact ⟨sender, hsender, hpeer', hsent⟩
  · rw [← hid, hpeer.unique hpeer']
    exact hsent.mono (fun _ h => h) (List.nil_subset _)

theorem editDelivered_proper {props : MessagesProperties} {live : Bool}
    (hpeer : Peers parties editor.internalId.val peer) :
    Proper parties sent (.editMessage request editor)
      (MessageHandler.editDelivered props editor peer request live) fun _ => True := by
  simp only [MessageHandler.editDelivered, ensures_bind, ensures_ask]
  intro s hs
  split
  · exact editError_proper fun h => absurd h (by decide)
  rename_i entry hentry
  have howner := hs.editable _ entry hentry
  split
  · rename_i hno
    exact editError_proper fun _ =>
      from_of_not_owns howner (by simpa [ownsDeliveredMessage] using hno) hpeer
  rename_i hown
  have hsent : HasSent sent editor.internalId.val request.messageId [] :=
    hasSent_of_owns howner (by simpa [ownsDeliveredMessage] using hown)
  refine fun s' _ => (ensures_ite ..).mpr ⟨fun _ => editError_proper fun h => absurd h (by decide),
    fun _ => (ensures_ite ..).mpr ⟨fun _ => sendEditSuccessBoth_proper hsent, fun _ => ?_⟩⟩
  refine Ensures.bind (R := fun _ => True) ?_ fun _ _ => edited_proper hsent
  refine push_ensures ⟨fun e he => ?_, fun _ => hpeer⟩ ⟨fun _ h => (by cases h), fun _ => hpeer⟩
  obtain rfl := Option.some.inj he
  exact ⟨_, hpeer, hsent⟩

theorem editMessage_proper {props : MessagesProperties} :
    Proper parties sent (.editMessage request editor)
      (MessageHandler.editMessage props request editor) fun _ => True := by
  simp only [MessageHandler.editMessage, ensures_bind, ensures_ask]
  intro s hs
  split
  · exact editError_proper fun h => absurd h (by decide)
  rename_i session hsession
  refine withPeer_proper (hs.session session hsession)
    (fun code hcode _ => editError_proper fun h => absurd h hcode) fun peer hpeer => ?_
  simp only [ensures_bind, ensures_ask, ensures_ite, MessageHandler.hasLiveStompSession]
  refine fun s _ => ⟨fun _ => editError_proper fun h => absurd h (by decide), fun _ s' _ => ?_⟩
  exact (updateMessageInQueue_proper hpeer).mono (fun _ h => h) (fun _ h => h) fun updated h =>
    ⟨fun hu => sendEditSuccessBoth_proper (h hu), fun _ => editDelivered_proper hpeer⟩

end Edit

section Delete

variable {messageId : String} {deleter : ParticipantContext} {peer : String}

theorem deleteError_proper {code : String} (h : code = "NOT_ALLOWED" →
    ∃ other, From parties sent deleter.internalId.val messageId [] other) :
    Proper parties sent (.deleteMessage messageId deleter)
      (MessageHandler.sendMessageDeletedError deleter messageId code) fun _ => True := by
  refine ⟨fun _ id => ⟨fun h => (by cases h), fun hd => ?_⟩, fun _ _ => trivial⟩
  obtain ⟨hid, hcode⟩ := Bool.and_eq_true_iff.mp hd
  exact of_decide_eq_true hid ▸ h (of_decide_eq_true hcode)

/-- What the queue gives up is the user's own. -/
theorem removeMessageFromQueue_proper (hpeer : Peers parties deleter.internalId.val peer) :
    Proper parties sent (.deleteMessage messageId deleter)
      (MessageRepository.removeMessageFromQueue peer messageId)
      fun removed => ∀ m ∈ removed, isMessageSender m deleter = true
        ∧ HasSent sent deleter.internalId.val messageId m.file.files := by
  simp only [MessageRepository.removeMessageFromQueue, ensures_bind, ensures_ask]
  intro s hs
  split
  · exact fun _ h => by cases h
  rename_i m hfind
  obtain ⟨sender, hsender, hpeer', hsent⟩ := hs.messages peer m (List.mem_of_find?_eq_some hfind)
  obtain rfl : messageId = m.messageId := by simpa [hasId, eq_comm] using List.find?_some hfind
  have hown : ∀ m' ∈ some m, isMessageSender m' deleter = true
      ∧ HasSent sent deleter.internalId.val m.messageId m'.file.files := by
    intro m' hm'
    obtain rfl := Option.some.inj hm'
    rw [isMessageSender, hsender, hpeer.unique hpeer']
    exact ⟨decide_eq_true rfl, hsent⟩
  simp only [ensures_bind, ensures_write, ensures_ite, ensures_done, pure_eq]
  exact ⟨⟨fun _ h => (by cases h), fun _ => hpeer⟩, fun _ _ =>
    ⟨fun _ => ⟨⟨fun _ h => (by cases h), fun _ => hpeer⟩, fun _ _ => hown⟩, fun _ => hown⟩⟩

theorem finalizeDmDelete_proper {props : MessagesProperties}
    (hpeer : Peers parties deleter.internalId.val peer)
    (hsent : HasSent sent deleter.internalId.val messageId []) :
    Proper parties sent (.deleteMessage messageId deleter)
      (MessageHandler.finalizeDmDelete props deleter peer messageId) fun _ => True := by
  have hevent : ∀ user deletedAt, Permitted parties sent (.deleteMessage messageId deleter)
      (.send user (.messageDeleted messageId deleter.telegramId deletedAt)) :=
    fun _ _ _ _ => ⟨fun hid => of_decide_eq_true hid ▸ hsent, fun hd => (by cases hd)⟩
  have hqueue : ∀ {deletedAt}, Proper parties sent (.deleteMessage messageId deleter)
      (MessageRepository.queueDeletion props peer ⟨messageId, deleter.telegramId, deletedAt⟩)
      fun _ => True := by
    refine fun {_} => push_ensures ⟨fun d hd => ?_, fun _ => hpeer⟩
      ⟨fun _ h => (by cases h), fun _ => hpeer⟩
    obtain rfl := Option.some.inj hd
    exact ⟨_, hpeer, hsent⟩
  simp only [MessageHandler.finalizeDmDelete, MessageHandler.hasLiveStompSession, ensures_bind,
    ensures_ask, ensures_write, ensures_ite, ensures_done, pure_eq]
  refine fun s _ => ⟨hevent _ _, fun _ _ s' _ =>
    ⟨fun hl => ⟨hevent _ _, fun _ _ => ?_⟩, fun hl => ?_⟩⟩
  · exact ⟨hsent, fun _ _ => ⟨hsent, fun _ _ => ⟨fun _ => trivial, fun _ => hqueue⟩⟩⟩
  · exact ⟨hsent, fun _ _ => ⟨hsent, fun _ _ => ⟨fun _ => trivial, fun _ => hqueue⟩⟩⟩

theorem assertDeleterOwnsMessage_proper (hpeer : Peers parties deleter.internalId.val peer) :
    Proper parties sent (.deleteMessage messageId deleter)
      (MessageHandler.assertDeleterOwnsMessage messageId deleter) fun code =>
        (code = .ok → HasSent sent deleter.internalId.val messageId [])
          ∧ (code = .notAllowed →
            ∃ other, From parties sent deleter.internalId.val messageId [] other) := by
  have hcode : ∀ {sender senderId files}, Owner parties sent messageId sender files →
      ∀ code, code = (if owns sender senderId deleter then MessageHandler.OwnershipCode.ok
          else .notAllowed) →
        (code = .ok → HasSent sent deleter.internalId.val messageId [])
          ∧ (code = .notAllowed →
            ∃ other, From parties sent deleter.internalId.val messageId [] other) := by
    intro sender senderId files howner code hcode
    split at hcode
    · rename_i ho
      exact ⟨fun _ => hasSent_of_owns howner ho, fun h => by cases hcode.symm.trans h⟩
    · rename_i ho
      exact ⟨fun h => (by cases hcode.symm.trans h), fun _ => from_of_not_owns howner ho hpeer⟩
  simp only [MessageHandler.assertDeleterOwnsMessage, ensures_bind, ensures_ask]
  intro s hs
  split
  · rename_i entry hentry
    exact hcode (hs.senders _ entry hentry) _ rfl
  simp only [ensures_bind, ensures_ask]
  intro s' hs'
  split
  · rename_i entry hentry
    exact hcode (hs'.editable _ entry hentry) _ rfl
  · exact ⟨fun h => (by cases h), fun h => by cases h⟩

theorem deleteMessage_proper {props : MessagesProperties} :
    Proper parties sent (.deleteMessage messageId deleter)
      (MessageHandler.deleteMessage props messageId deleter) fun _ => True := by
  simp only [MessageHandler.deleteMessage, ensures_bind, ensures_ask]
  intro s hs
  split
  · exact deleteError_proper fun h => absurd h (by decide)
  rename_i session hsession
  refine withPeer_proper (hs.session session hsession)
    (fun code _ hcode => deleteError_proper fun h => absurd h hcode) fun peer hpeer => ?_
  refine (removeMessageFromQueue_proper hpeer).bind fun removed hremoved => ?_
  split
  · rename_i m
    obtain ⟨hsender, hsent⟩ := hremoved m rfl
    rw [if_neg (by simp [hsender])]
    have hown := hsent.mono (fun _ h => h) (List.nil_subset _)
    simp only [MessageHandler.finalizeDmDeleteFromQueue, ensures_bind, ensures_ite, ensures_write,
      ensures_done]
    exact ⟨fun _ => ⟨⟨_, hown, _, hsent⟩, fun _ _ => finalizeDmDelete_proper hpeer hown⟩,
      fun _ => finalizeDmDelete_proper hpeer hown⟩
  refine (assertDeleterOwnsMessage_proper hpeer).bind fun code hcode => ?_
  split
  · exact deleteError_proper fun _ => hcode.2 rfl
  · exact deleteError_proper fun h => absurd h (by decide)
  have hown := hcode.1 rfl
  simp only [MessageHandler.finalizeDmDeleteDelivered, ensures_bind, ensures_ask, ensures_ite,
    ensures_write, ensures_done]
  refine fun s hs => ⟨fun hfile => ⟨⟨_, hown, ?_⟩, fun _ _ => finalizeDmDelete_proper hpeer hown⟩,
    fun _ => finalizeDmDelete_proper hpeer hown⟩
  -- the entry is read again, and may have become the peer's
  cases hentry : s.editable messageId with
  | none => simp [hentry] at hfile
  | some entry =>
      obtain ⟨role, -, hsent⟩ := hs.editable _ entry hentry
      exact ⟨_, hsent⟩

end Delete

theorem program_proper {props : MessagesProperties} (op : Op) :
    Proper parties sent op (op.program props) fun _ => True := by
  cases op with
  | relayMessage request sender fileError => exact relayMessage_proper
  | editMessage request editor => exact editMessage_proper
  | deleteMessage messageId deleter => exact deleteMessage_proper
  | syncMessages participant =>
      have hsend : ∀ user event, Permitted parties sent (.syncMessages participant)
          (.send user event) := fun _ _ h => by cases h
      simp only [Op.program, MessageHandler.syncMessages, ensures_bind, ensures_ask]
      intro s hs
      split
      · exact ⟨hsend _ _, fun _ _ => trivial⟩
      refine (ensures_ite ..).mpr ⟨fun _ => ⟨hsend _ _, fun _ _ => trivial⟩, fun _ s _ => ?_⟩
      exact (pruneSessionQueues_ensures (prunes_permitted rfl) _ _).bind fun _ _ =>
        drain_ensures (prunes_permitted rfl) fun _ _ _ _ _ _ _ _ => hsend _ _
  | pushPendingMessagesForSession id =>
      simp only [Op.program, DirectMessages.pushPendingMessagesForSession, ensures_bind,
        ensures_ask]
      intro _ _ _ _ _ _
      split
      · trivial
      · exact ⟨fun h => (by cases h), fun _ _ => trivial⟩
  | applySessionMessageTtl caller ttl =>
      simp only [Op.program, DirectMessages.applySessionMessageTtl, ensures_bind, ensures_ask]
      intro s hs
      split
      · trivial
      exact (ensures_ite ..).mpr ⟨fun _ => trivial, fun _ s _ =>
        pruneSessionQueues_ensures (prunes_permitted rfl) _ _⟩

end Programs

/-! ## Every run -/

/-- What is stored is genuine, and every request goes on as it may, whatever else is
sent meanwhile. -/
structure Lawful (props : MessagesProperties) (parties : Parties) (c : State) : Prop where
  store : Genuine parties c.store.2 c.store.1
  pool : ∀ p ∈ c.pool, ∀ sent, c.store.2 ⊆ sent →
    Proper parties sent p.op (p.rest (Op.program props)) fun _ => True

/-- What a step of a user's edit or deletion does to the store: a list that it
changes holds only what the user has sent, before and after, and the other keys are
those of ids that the user has sent. -/
structure OnlyOwn (sent : List Sent) (user : String) (s s' : Store) : Prop where
  session : s'.session = s.session
  messages : ∀ r, s'.messages r = s.messages r ∨ ∀ m ∈ s.messages r ++ s'.messages r,
    m.senderInternalId = some user ∧ HasSent sent user m.messageId m.file.files
  edits : ∀ r, s'.edits r = s.edits r ∨
    ∀ e ∈ s.edits r ++ s'.edits r, HasSent sent user e.messageId []
  deletions : ∀ r, s'.deletions r = s.deletions r ∨
    ∀ d ∈ s.deletions r ++ s'.deletions r, HasSent sent user d.messageId []
  editable : ∀ id, s'.editable id = s.editable id ∨ HasSent sent user id []
  senders : ∀ id, s'.senders id = s.senders id ∨ HasSent sent user id []
  burnt : ∀ file ∈ s'.burnt, file ∈ s.burnt ∨
    ∃ id, HasSent sent user id [] ∧ ∃ other, HasSent sent other id [file]
  outbox : ∀ x ∈ s'.outbox, x ∈ s.outbox ∨
    ∀ id, x.2.announces id = true → HasSent sent user id []

section Runs

variable {props : MessagesProperties} {parties : Parties} {sent : List Sent} {op : Op}

theorem OnlyOwn.refl (sent : List Sent) (user : String) (s : Store) : OnlyOwn sent user s s where
  session := rfl
  messages _ := .inl rfl
  edits _ := .inl rfl
  deletions _ := .inl rfl
  editable _ := .inl rfl
  senders _ := .inl rfl
  burnt _ h := .inl h
  outbox _ h := .inl h

theorem note_of_alters {c : Command} (hop : op.alters = true) : note op c sent = sent := by
  cases op with
  | relayMessage => cases hop
  | _ => rfl

/-- Of the peer's queue, all is the user's. -/
theorem lists_own {α : Type} [DecidableEq α] {lists : String → List α} {r : String} {c : ListOp α}
    {P : α → Prop} (hold : ∀ x ∈ lists r, P x) (hnew : ∀ x ∈ c.entry, P x) (r' : String) :
    Function.update lists r (c.apply (lists r)) r' = lists r' ∨
      ∀ x ∈ lists r' ++ Function.update lists r (c.apply (lists r)) r', P x := by
  by_cases hr : r' = r
  · subst hr
    refine .inr fun x hx => ?_
    rw [Function.update_self] at hx
    rcases List.mem_append.mp hx with hx | hx
    · exact hold x hx
    · exact (ListOp.mem_apply hx).elim (hold x) (hnew x)
  · exact .inl (Function.update_of_ne hr ..)

theorem From.of_peers {r id user user' : String} {files : List String}
    (h : From parties sent r id files user') (hpeer : Peers parties user r) :
    HasSent sent user id files :=
  h.1.unique hpeer ▸ h.2

theorem onlyOwn_exec {s : Store} {c : Command} (hs : Genuine parties sent s)
    (hc : Permitted parties sent op c) (hop : op.alters = true) :
    OnlyOwn sent op.user s (s.exec c) := by
  have hrefl := OnlyOwn.refl sent op.user s
  have hkey : ∀ {α : Type} {entries : String → Option α} {v : Option α} {id id' : String},
      HasSent sent op.user id [] →
      Function.update entries id v id' = entries id' ∨ HasSent sent op.user id' [] := by
    intro α entries v id id' h
    by_cases hid : id' = id
    · exact .inr (hid ▸ h)
    · exact .inl (Function.update_of_ne hid ..)
  cases c with
  | save session => exact absurd (hop.symm.trans hc.2) (by decide)
  | messages r c =>
      have hown : ∀ m : Message, m.Genuine parties sent r →
          m.senderInternalId = some op.user ∧ HasSent sent op.user m.messageId m.file.files := by
        rintro m ⟨u, hu, hfrom⟩
        exact ⟨hfrom.1.unique (hc.2 hop) ▸ hu, hfrom.of_peers (hc.2 hop)⟩
      have hlists := lists_own (fun m hm => hown m (hs.messages r m hm))
        fun m hm => hown m ((note_of_alters hop : note op _ sent = sent) ▸ hc.1 m hm)
      exact { hrefl with messages := hlists }
  | edits r c =>
      have hlists := lists_own (fun e he => (hs.edits r e he).elim fun _ h => h.of_peers (hc.2 hop))
        fun e he => (hc.1 e he).elim fun _ h => h.of_peers (hc.2 hop)
      exact { hrefl with edits := hlists }
  | deletions r c =>
      have hlists := lists_own
        (fun d hd => (hs.deletions r d hd).elim fun _ h => h.of_peers (hc.2 hop))
        fun d hd => (hc.1 d hd).elim fun _ h => h.of_peers (hc.2 hop)
      exact { hrefl with deletions := hlists }
  | setEditable id x => exact absurd (hop.symm.trans hc.2) (by decide)
  | deleteEditable id => exact { hrefl with editable := fun _ => hkey hc }
  | putSender id x => exact absurd (hop.symm.trans hc.2) (by decide)
  | removeSender id => exact { hrefl with senders := fun _ => hkey hc }
  | burnFiles f t =>
      refine { hrefl with burnt := fun file hfile => ?_ }
      obtain ⟨i, hown, user, hsent⟩ := hc
      refine (List.mem_append.mp hfile).imp id fun hmem => ⟨i, hown, user, hsent.mono
        (fun _ h => h) fun x hx => ?_⟩
      rwa [List.mem_singleton.mp hx]
  | send user event =>
      refine { hrefl with outbox := fun x hx => ?_ }
      refine (List.mem_append.mp hx).imp id fun hmem i hi => ?_
      rw [List.mem_singleton.mp hmem] at hi
      exact (hc hop i).1 hi

theorem lawful_start : Lawful props parties start where
  store :=
    { session := fun _ h => by cases h
      messages := fun _ _ h => by cases h
      edits := fun _ _ h => by cases h
      deletions := fun _ _ h => by cases h
      editable := fun _ _ h => by cases h
      senders := fun _ _ h => by cases h }
  pool _ h := by cases h

/-- What a request is about to do, it may do. -/
theorem Lawful.permitted {c : State} {p : DmCall} {command : Command}
    (h : Lawful props parties c) (hp : p ∈ c.pool) (hc : p.command? = some (op, command)) :
    Permitted parties c.store.2 op command := by
  obtain ⟨next, rfl⟩ := Call.command?_eq_some hc
  exact (h.pool _ hp c.store.2 fun _ h => h).1

theorem lawful_preserved (G : State → Action DmCall Move → Prop) :
    (server props parties).Preserves G (Lawful props parties) where
  start c p hc _ hp := by
    have hp' : (Call.server Store.exec (Op.program props) (move parties)).opens p = true := hp
    obtain ⟨op, rfl⟩ := Call.opens_eq hp'
    exact ⟨hc.store, forall_start hc.pool fun _ _ => program_proper op⟩
  turn c i p s' p' hc _ hi hs := by
    obtain ⟨hstep, hlog⟩ := Server.recording_step hs
    have hmem := List.mem_of_getElem? hi
    have hsub : c.store.2 ⊆ s'.2 := by
      rw [hlog, record]
      split
      · exact subset_note ..
      · exact fun _ h => h
    refine ⟨?_, forall_turn (fun q hq sent h => hc.pool q hq sent fun _ h' => h (hsub h'))
      fun sent hsent => ?_⟩
    · rcases (Call.step_cases hstep).2 with ⟨hsame, hnone⟩ | ⟨command, hcmd, hexec⟩
      · rw [hlog, hsame, record, hnone]
        exact hc.store
      · rw [hlog, hexec, record, hcmd]
        exact hc.store.exec (hc.permitted hmem hcmd)
    · have hp := hc.pool p hmem sent fun _ h => hsent (hsub h)
      rw [(Call.step_cases hstep).1]
      rcases Call.rest_step hstep with ⟨-, hr⟩ | hr
      · rw [hr]
        exact hp
      · exact hp.step (hc.store.mono fun _ h => hsent (hsub h)) hr
  env c e s' hc _ he := by
    obtain ⟨hmove, hlog⟩ := Server.recording_env he
    refine ⟨?_, fun p hp sent h => hc.pool p hp sent (hlog ▸ h)⟩
    rw [hlog]
    exact hc.store.move hmove

theorem lawful_of_reach {c : State} (h : (server props parties).Reach start c) :
    Lawful props parties c :=
  h.invariant (lawful_preserved _) lawful_start

end Runs

/-! ## Edits and deletions -/

def ada : ParticipantContext := ⟨⟨"ada", rfl⟩, none⟩

def ben : ParticipantContext := ⟨⟨"ben", rfl⟩, none⟩

def adaAndBen : Parties where
  initiator := "ada"
  responder := "ben"
  initiator_text := rfl
  responder_text := rfl
  distinct := by decide

def chat : Session where
  id := some "s"
  initiatorInternalId := some "ada"
  initiatorTelegramId := none
  responderInternalId := some "ben"
  responderTelegramId := none
  status := .active
  createdAt := 0
  lastActivityAt := 0
  handshakeCompletedAt := none
  initiatorVerified := true
  responderVerified := true
  secretQuestion := none
  secretAnswerHash := none
  initiatorPublicKey := none
  responderPublicKey := none
  messageTtl := 0

def sampleProps : MessagesProperties := ⟨100, 100, 100⟩

def hello : SendMessageRequest where
  messageId := "m"
  encryptedContent := "c"
  iv := "v"
  timestamp := 0

def corrected : EditMessageRequest := ⟨"m", "d", "w", 1, 0⟩

def turns (i n : Nat) : List (Action DmCall Move) := List.replicate n (.turn i)

/-- Ada sends to Ben, who is away. -/
def sending : List (Action DmCall Move) :=
  [.env (.session (some chat)), .start (.arriving (.relayMessage hello ada none))] ++ turns 0 11

def refuses (p : DmCall) : Bool :=
  match p.command? with
  | some (op, .send _ event) => op.alters && event.disowns "m"
  | _ => false

/-- A participant of an active session, with the other one. -/
structure Paired (session : Session) (user : ParticipantContext) (peer : String) : Prop where
  participant : session.isParticipant user.internalId.val = true
  active : session.status = .active
  getPeer : session.getPeerInternalId user.internalId.val = some peer
  text : isBlank peer = false

/-- The message id is the user's, as of now, and nothing waits for the user under it. -/
structure Claimed (user : ParticipantContext) (session : Session) (messageId : String)
    (s s' : Store) : Prop where
  session : s'.session = some { session with lastActivityAt := s.now }
  live : s'.live = s.live
  now : s'.now = s.now
  owned : ∃ x, s'.editable messageId = some x ∧ x.senderInternalId = some user.internalId.val
    ∧ x.serverTimestamp = some s.now
  free : ∀ m ∈ s'.messages user.internalId.val, m.messageId ≠ messageId

/-- The commands of a prune, which pushes back no message that was not there. -/
def Rewrites (recipientId messageId : String) : Command → Prop
  | .messages r l => r = recipientId → ∀ m ∈ l.entry, m.messageId ≠ messageId
  | .edits .. => True
  | .deletions .. => True
  | _ => False

section Resent

variable {props : MessagesProperties} {session : Session} {user other : ParticipantContext}
  {peer messageId : String} {s t : Store} {refuse : String → Prog Unit} {next : String → Prog Unit}

theorem Paired.withPeer_eq (h : Paired session user peer) :
    MessageHandler.withPeer session user refuse next = next peer := by
  have hfilter : (some peer).filter (!isBlank ·) = some peer := by simp [Option.filter, h.text]
  simp [MessageHandler.withPeer, h.participant, h.active, h.getPeer, hfilter]

theorem Paired.touch (h : Paired session user peer) (now : Nat) :
    Paired { session with lastActivityAt := now } user peer :=
  ⟨h.participant, h.active, h.getPeer, h.text⟩

theorem claimed_rewrites {c : Command} (hc : Rewrites user.internalId.val messageId c)
    (h : Claimed user session messageId s t) : Claimed user session messageId s (t.exec c) := by
  cases c with
  | messages r l =>
      refine { h with free := fun m hm => ?_ }
      by_cases hr : user.internalId.val = r
      · subst hr
        simp only [Store.exec, Function.update_self] at hm
        exact (ListOp.mem_apply hm).elim (h.free m) (hc rfl m)
      · simp only [Store.exec, Function.update_of_ne hr] at hm
        exact h.free m hm
  | edits r l => exact { h with }
  | deletions r l => exact { h with }
  | _ => cases hc

theorem prunes_rewrites : Prunes (Claimed user session messageId s)
    (Rewrites user.internalId.val messageId) where
  deleteMessages _ _ _ h := by cases h
  deleteEdits _ := trivial
  deleteDeletions _ := trivial
  pushMessage t ht r m hm hr m' hm' := by
    obtain rfl := Option.some.inj hm'
    exact ht.free m (hr ▸ hm)
  pushEdit _ _ _ _ _ := trivial
  pushDeletion _ _ _ _ _ := trivial

/-- A relay takes the id, whoever had it before. -/
theorem relayMessage_claims {request : SendMessageRequest} (hsession : s.session = some session)
    (h : Paired session user peer) (hne : peer ≠ user.internalId.val)
    (hfree : ∀ m ∈ s.messages user.internalId.val, m.messageId ≠ request.messageId) :
    Claimed user session request.messageId s
      ((MessageHandler.relayMessage props request user none).run Store.exec s).1 := by
  have hprune : ∀ {t}, Claimed user session request.messageId s t →
      (MessageHandler.pruneSessionQueues session s.now).wp Store.exec
        (fun _ => Claimed user session request.messageId s)
        (Claimed user session request.messageId s) t :=
    fun ht => wp_mono (wp_of_ensures (pruneSessionQueues_ensures prunes_rewrites _ _)
      (fun _ _ hc h => claimed_rewrites hc h) ht) (fun _ _ h => h.2) fun _ h => h
  refine run_of_wp ?_
  simp only [MessageHandler.relayMessage, wp_bind, wp_ask, hsession,
    MessageHandler.validateAndRelayMessage, h.withPeer_eq, Option.filter_none, wp_write, wp_ite,
    MessageHandler.hasLiveStompSession, MessageHandler.deliverMessageImmediately,
    MessageHandler.queueMessageForOfflineDelivery, MessageRepository.queueMessage,
    MessageRepository.putDmMessageEditableMeta, MessageRepository.putMessageSenderIndex,
    MessageRepository.push, wp_call, pure_eq, wp_done]
  refine ⟨fun _ => hprune ?_, fun _ => ⟨fun _ => hprune ?_, fun _ => hprune ?_⟩⟩
  · exact ⟨rfl, rfl, rfl, ⟨_, Function.update_self .., rfl, rfl⟩, hfree⟩
  · refine ⟨rfl, rfl, rfl, ⟨_, Function.update_self .., rfl, rfl⟩, ?_⟩
    simpa [Store.exec, MessageHandler.buildQueuedMessage, Function.update_of_ne hne.symm]
      using hfree
  · refine ⟨rfl, rfl, rfl, ⟨_, Function.update_self .., rfl, rfl⟩, ?_⟩
    simpa [Store.exec, MessageHandler.buildQueuedMessage, Function.update_of_ne hne.symm]
      using hfree

/-- Both participants are told of the event, the peer if it is connected. -/
def Told (user : ParticipantContext) (peer : String) (live : Bool) (event : Event) (s : Store) :
    Prop :=
  (user.internalId.val, event) ∈ s.outbox ∧ (live = true → (peer, event) ∈ s.outbox)

theorem sendEditSuccessBoth_told {request : EditMessageRequest} {live : Bool} {E : Store → Prop} :
    (MessageHandler.sendEditSuccessBoth user peer request live).wp Store.exec
      (fun _ => Told user peer live (MessageHandler.buildMessageEditSuccess request)) E s := by
  cases live <;> simp [MessageHandler.sendEditSuccessBoth, Told, Store.exec]

theorem editDelivered_told {request : EditMessageRequest} {x : DmMessageEditableMeta}
    {E : Store → Prop} (hx : s.editable request.messageId = some x)
    (howns : ownsDeliveredMessage x user = true)
    (hwindow : isOutsideEditWindow x.serverTimestamp s.now = false) :
    (MessageHandler.editDelivered props user peer request (s.live peer)).wp Store.exec
      (fun _ => Told user peer (s.live peer) (MessageHandler.buildMessageEditSuccess request)) E
      s := by
  simp only [MessageHandler.editDelivered, wp_bind, wp_ask, hx, howns, hwindow, Bool.not_true,
    wp_ite]
  refine ⟨fun h => (by cases h), fun _ => ⟨fun h => (by cases h), fun _ =>
    ⟨fun hlive => hlive ▸ sendEditSuccessBoth_told, fun hlive => ?_⟩⟩⟩
  simp [MessageRepository.queueEdit, MessageRepository.push, Told, Store.exec, hlive]

/-- Who has just sent the id may edit it, queued or not. -/
theorem editMessage_accepted {request : EditMessageRequest}
    (h : Claimed user session request.messageId s t) (hpaired : Paired session user peer)
    (hstamp : isClientEditTimestampAbusive request.originalClientTimestamp request.editedAt s.now
      = false) :
    Told user peer (s.live peer) (MessageHandler.buildMessageEditSuccess request)
      ((MessageHandler.editMessage props request user).run Store.exec t).1 := by
  obtain ⟨x, hx, hsender, hx'⟩ := h.owned
  have howns : ownsDeliveredMessage x user = true := by simp [ownsDeliveredMessage, owns, hsender]
  have hwindow : isOutsideEditWindow x.serverTimestamp t.now = false := by
    simp [isOutsideEditWindow, hx', h.now]
  have hdelivered : ∀ {E}, (MessageHandler.editDelivered props user peer request (t.live peer)).wp
      Store.exec (fun _ => Told user peer (t.live peer)
        (MessageHandler.buildMessageEditSuccess request)) E t :=
    editDelivered_told hx howns hwindow
  rw [h.live] at hdelivered
  refine run_of_wp ?_
  simp only [MessageHandler.editMessage, wp_bind, wp_ask, h.session, MessageHandler.applyDmEdit,
    (hpaired.touch s.now).withPeer_eq, h.now, hstamp, wp_ite, MessageHandler.hasLiveStompSession,
    h.live]
  refine ⟨fun h => (by cases h), fun _ => ?_⟩
  simp only [MessageRepository.updateMessageInQueue, wp_bind, wp_ask]
  split
  · exact hdelivered
  split
  · exact hdelivered
  simp only [wp_bind, wp_ask, wp_ite, wp_write, pure_eq, wp_done]
  exact ⟨fun _ => ⟨fun h => (by cases h), fun _ => hdelivered⟩,
    fun _ => ⟨fun _ => sendEditSuccessBoth_told, fun h => absurd trivial h⟩⟩

/-- The other one may not, unless it has a message of that id in the queue. -/
theorem editMessage_refused {request : EditMessageRequest}
    (h : Claimed user session request.messageId s t)
    (hpaired : Paired session other user.internalId.val)
    (hne : other.internalId.val ≠ user.internalId.val)
    (hstamp : isClientEditTimestampAbusive request.originalClientTimestamp request.editedAt s.now
      = false) :
    (other.internalId.val, Event.editError request.messageId "NOT_OWNER")
      ∈ ((MessageHandler.editMessage props request other).run Store.exec t).1.outbox := by
  obtain ⟨x, hx, hsender, -⟩ := h.owned
  have howns : ownsDeliveredMessage x other = false := by
    simp [ownsDeliveredMessage, owns, hsender, hne]
  have hnone : (t.messages user.internalId.val).zipIdx.find? (hasId request.messageId ·.1)
      = none := by
    refine List.find?_eq_none.mpr fun y hy => ?_
    simpa [hasId] using h.free y.1 (List.fst_mem_of_mem_zipIdx hy)
  refine run_of_wp (I := fun t' : Store => (other.internalId.val,
    Event.editError request.messageId "NOT_OWNER") ∈ t'.outbox) ?_
  simp [MessageHandler.editMessage, h.session, MessageHandler.applyDmEdit,
    (hpaired.touch s.now).withPeer_eq, h.now, hstamp, MessageHandler.hasLiveStompSession,
    MessageRepository.updateMessageInQueue, hnone, MessageHandler.editDelivered, hx, howns,
    MessageHandler.sendMessageEditError, Store.exec]

end Resent

def delivered : Store := { Store.empty with session := some chat }

end DirectMessages

end BurnedChats

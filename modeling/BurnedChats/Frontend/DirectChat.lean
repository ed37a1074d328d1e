import Mathlib.Data.List.Perm.Basic
import BurnedChats.Lib.Interleave
import BurnedChats.Frontend.MessageList

/-!
# The messages of a direct chat

The events of a session arrive in any order. A handler decrypts what an event brings
and then updates the list: a new message is inserted; a sync batch is decrypted message
by message and merged, then its edits are decrypted and applied one after another, then
its deleted ids are removed; an edit is applied; a delete removes its message at once.
Decryptions of different handlers complete in any order.

No handler remembers what it could not apply: an edit whose message is not in the list
yet is lost, an edit that is decrypted late overwrites a newer one, and a message that
is decrypted after its deletion comes back. Where no edit or deletion is handled before
its message is listed and edits are applied by age, the view converges
(`view_converges`).

A step of the model is a whole callback, up to its next decryption. `decrypt` is what a
ciphertext decrypts to under the session's key, if to anything.
-/

namespace BurnedChats

open Interleave

namespace DirectChat

open MessageList

variable {Cipher : Type}

/-! ## Events -/

/-- A message on the wire, of its own or in a sync batch. -/
structure WireMessage (Cipher : Type) where
  messageId : MessageId
  cipher : Cipher
  clientTimestamp : Option Nat
  serverTimestamp : Option Nat
  editedAt : Option Nat

/-- An edit on the wire. -/
structure EditPayload (Cipher : Type) where
  messageId : MessageId
  cipher : Cipher
  editedAt : Option Nat

structure SyncMessagesEvent (Cipher : Type) where
  success : Bool
  messages : List (WireMessage Cipher)
  edits : List (EditPayload Cipher)
  deletedIds : List MessageId

/-- What a callback reads besides its event: the session's state, the ids that are hidden
or past their timer, and the clock. -/
structure Ambient where
  bothVerified : Bool
  hasKey : Bool
  shouldSkip : MessageId → Bool
  now : Nat

/-- Nothing is decrypted before both have verified, nor without a key. -/
def SyncMessagesEvent.refused (event : SyncMessagesEvent Cipher) (a : Ambient) : Bool :=
  !a.bothVerified || ((!event.messages.isEmpty || !event.edits.isEmpty) && !a.hasKey)

/-! ## The view -/

/-- A message whose decryption is under way. -/
structure Decrypting (Cipher : Type) where
  id : MessageId
  cipher : Cipher
  timestamp : Nat

/-- A handler that awaits a decryption, with what it is to do afterwards. -/
inductive Task (Cipher : Type)
  | newMessage (m : Decrypting Cipher)
  | syncMessage (m : Decrypting Cipher) (editedAt : Option Nat)
      (toDecrypt : List (WireMessage Cipher)) (decrypted : List DecryptedMessage)
      (edits : List (EditPayload Cipher)) (deletedIds : List MessageId)
  | syncEdit (edit : EditPayload Cipher) (edits : List (EditPayload Cipher))
      (deletedIds : List MessageId)
  | edited (edit : EditPayload Cipher)
  | done

/-- The list and the handlers; the versions of messages that have been received and the
ids whose deletion has been handled are kept for the record. -/
structure View (Cipher : Type) where
  messages : List DecryptedMessage
  tasks : List (Task Cipher)
  received : List Version
  deleted : List MessageId

namespace View

variable (decrypt : Cipher → Option String) (a : Ambient) (v : View Cipher)

def empty : View Cipher := ⟨[], [], [], []⟩

def decryptMessage (m : Decrypting Cipher) (editedAt : Option Nat) : Option DecryptedMessage :=
  (decrypt m.cipher).map fun plaintext => ⟨m.id, plaintext, m.timestamp, .delivered, editedAt⟩

def decryptEdit (e : EditPayload Cipher) : Option Version :=
  (decrypt e.cipher).map fun plaintext => ⟨e.messageId, plaintext, e.editedAt⟩

def spawn (t : Task Cipher) : View Cipher := { v with tasks := v.tasks ++ [t] }

def record (vs : List Version) : View Cipher := { v with received := v.received ++ vs }

def ingestInboundCiphertext (w : WireMessage Cipher) : View Cipher :=
  if !a.bothVerified then v
  else if !a.hasKey then v
  else if a.shouldSkip w.messageId then v
  else v.spawn (.newMessage
    ⟨w.messageId, w.cipher, toEpochMs w.clientTimestamp w.serverTimestamp a.now⟩)

def handleNewMessage (success : Bool) (w : WireMessage Cipher) : View Cipher :=
  if success then v.ingestInboundCiphertext a w else v

def removeTombstones (deletedIds : List MessageId) : View Cipher :=
  { v with messages := removeIds v.messages deletedIds, deleted := v.deleted ++ deletedIds }

/-- The edits of a batch, up to the next decryption. -/
def syncEdits (edits : List (EditPayload Cipher)) (deletedIds : List MessageId) :
    View Cipher × Task Cipher :=
  match edits with
  | [] => (v.removeTombstones deletedIds, .done)
  | e :: edits => (v, .syncEdit e edits deletedIds)

/-- The messages of a batch have been decrypted. -/
def mergeDecrypted (decrypted : List DecryptedMessage) : View Cipher :=
  { v with messages := mergeMessagesSorted v.messages decrypted }.record
    (decrypted.map DecryptedMessage.version)

/-- The messages of a batch, up to the next decryption. -/
def syncLoop (decrypted : List DecryptedMessage) (edits : List (EditPayload Cipher))
    (deletedIds : List MessageId) : List (WireMessage Cipher) → View Cipher × Task Cipher
  | [] => (v.mergeDecrypted decrypted).syncEdits edits deletedIds
  | w :: toDecrypt =>
      if a.shouldSkip w.messageId then syncLoop decrypted edits deletedIds toDecrypt
      else (v, .syncMessage ⟨w.messageId, w.cipher,
        toEpochMs w.clientTimestamp w.serverTimestamp a.now⟩ w.editedAt toDecrypt decrypted edits
        deletedIds)

/-- The edits of a batch that is refused are lost, and so are its deletions. -/
def handleSyncMessages (event : SyncMessagesEvent Cipher) : View Cipher :=
  if !event.success then v
  else
    let v := v.record (event.edits.filterMap (decryptEdit decrypt))
    if event.refused a then v
    else
      let (v, t) := v.syncLoop a [] event.edits event.deletedIds event.messages
      v.spawn t

/-- `delivered` is `none` where the server reports a failure. -/
def handleMessageSent (messageId : MessageId) (delivered : Option Bool) : View Cipher :=
  let status := match delivered with
    | some true => .delivered
    | some false => .sent
    | none => .failed
  { v with messages := updateMessageStatus v.messages messageId status }

/-- An edit that comes while there is no key is lost. -/
def handleMessageEdited (success : Bool) (e : EditPayload Cipher) : View Cipher :=
  if !success then v
  else
    let v := v.record (decryptEdit decrypt e).toList
    if !a.hasKey then v else v.spawn (.edited e)

def handleMessageDeleted (success : Bool) (messageId : MessageId) : View Cipher :=
  if success then v.removeTombstones [messageId] else v

/-- An own message is listed when it is sent. -/
def sendMessage (messageId : MessageId) (text : String) : View Cipher :=
  let m : DecryptedMessage := ⟨messageId, text, a.now, .sending, none⟩
  { v with messages := sortByTimestamp (v.messages ++ [m]) }.record [m.version]

/-- An edit has been decrypted. -/
def applyDecrypted (e : EditPayload Cipher) : View Cipher :=
  match decrypt e.cipher with
  | none => v
  | some plaintext =>
      { v with messages := applyEdit v.messages e.messageId plaintext (e.editedAt.getD a.now) }

/-- A handler goes on when its decryption has completed. -/
def resume : Task Cipher → View Cipher × Task Cipher
  | .newMessage m =>
      match decryptMessage decrypt m none with
      | none => (v, .done)
      | some d => ({ v with messages := insertNew v.messages d }.record [d.version], .done)
  | .syncMessage m editedAt toDecrypt decrypted edits deletedIds =>
      v.syncLoop a (decrypted ++ (decryptMessage decrypt m editedAt).toList) edits deletedIds
        toDecrypt
  | .syncEdit e edits deletedIds => (v.applyDecrypted decrypt a e).syncEdits edits deletedIds
  | .edited e => (v.applyDecrypted decrypt a e, .done)
  | .done => (v, .done)

end View

/-! ## Steps -/

inductive Event (Cipher : Type)
  | newMessage (success : Bool) (w : WireMessage Cipher)
  | sync (event : SyncMessagesEvent Cipher)
  | sent (messageId : MessageId) (delivered : Option Bool)
  | edited (success : Bool) (e : EditPayload Cipher)
  | deleted (success : Bool) (messageId : MessageId)
  | send (messageId : MessageId) (text : String)
  | decrypted (i : Nat)

def step (decrypt : Cipher → Option String) (v : View Cipher) (a : Ambient) :
    Event Cipher → Option (View Cipher)
  | .newMessage success w => some (v.handleNewMessage a success w)
  | .sync event => some (v.handleSyncMessages decrypt a event)
  | .sent messageId delivered => some (v.handleMessageSent messageId delivered)
  | .edited success e => some (v.handleMessageEdited decrypt a success e)
  | .deleted success messageId => some (v.handleMessageDeleted success messageId)
  | .send messageId text => some (v.sendMessage a messageId text)
  | .decrypted i => v.tasks[i]?.map fun t =>
      let (v', t') := v.resume decrypt a t
      { v' with tasks := v'.tasks.set i t' }

/-- The chat of one session: events, each with what its callback reads, move the view. -/
def chat (decrypt : Cipher → Option String) :
    Server (View Cipher) Empty (Ambient × Event Cipher) where
  opens _ := false
  step p _ := p.elim
  env e v := step decrypt v e.1 e.2

/-! ## What is under way -/

/-- What a handler has yet to list, each id with the age of its version, and the edits
that it has yet to apply. -/
structure Hand (Cipher : Type) where
  awaited : List (MessageId × Nat)
  edits : List (EditPayload Cipher)

def WireMessage.awaited (w : WireMessage Cipher) : MessageId × Nat :=
  (w.messageId, editAge w.editedAt)

def awaitedOf (m : DecryptedMessage) : MessageId × Nat := (m.id, editAge m.editedAt)

def Task.hand : Task Cipher → Hand Cipher
  | .newMessage m => ⟨[(m.id, 0)], []⟩
  | .syncMessage m editedAt toDecrypt decrypted edits _ =>
      ⟨decrypted.map awaitedOf ++ (m.id, editAge editedAt) :: toDecrypt.map (·.awaited), edits⟩
  | .syncEdit e edits _ => ⟨[], e :: edits⟩
  | .edited e => ⟨[], [e]⟩
  | .done => ⟨[], []⟩

/-- A message is being decrypted, or waits in a batch. -/
def Awaits (hands : List (Hand Cipher)) (id : MessageId) : Prop :=
  ∃ h ∈ hands, ∃ x ∈ h.awaited, x.1 = id

/-- An edit is being decrypted, or waits in a batch. -/
def Pending (decrypt : Cipher → Option String) (hands : List (Hand Cipher)) (u : Version) : Prop :=
  ∃ h ∈ hands, u ∈ h.edits.filterMap (View.decryptEdit decrypt)

/-- A message may still come: it has not been deleted, and where it is not listed no edit
that is newer has been applied. -/
def Admitted (decrypt : Cipher → Option String) (v : View Cipher) (hands : List (Hand Cipher))
    (x : MessageId × Nat) : Prop :=
  x.1 ∉ v.deleted ∧ (has v.messages x.1 = false →
    ∀ u ∈ v.received, u.id = x.1 → u.age ≤ x.2 ∨ Pending decrypt hands u)

/-- The view and what is under way fit together. -/
structure Coherent (decrypt : Cipher → Option String) (v : View Cipher)
    (hands : List (Hand Cipher)) : Prop where
  tidy : Tidy v.messages
  gone : ∀ id ∈ v.deleted, has v.messages id = false
  shown : ∀ m ∈ v.messages, m.version ∈ v.received
  latest : ∀ m ∈ v.messages, ∀ u ∈ v.received, u.id = m.id →
    u.age ≤ m.version.age ∨ Pending decrypt hands u
  admitted : ∀ h ∈ hands, ∀ x ∈ h.awaited, Admitted decrypt v hands x
  distinct : ∀ h ∈ hands, (h.awaited.map Prod.fst).Nodup
  known : ∀ h ∈ hands, ∀ e ∈ h.edits, ∀ u ∈ View.decryptEdit decrypt e,
    e.editedAt.isSome = true ∧ u ∈ v.received

variable {decrypt : Cipher → Option String} {v : View Cipher} {hands hands' o : List (Hand Cipher)}
  {e : EditPayload Cipher} {es : List (EditPayload Cipher)} {u : Version}

theorem pending_cons {aw aw' : List (MessageId × Nat)}
    (h : Pending decrypt (⟨aw, e :: es⟩ :: o) u) :
    View.decryptEdit decrypt e = some u ∨ Pending decrypt (⟨aw', es⟩ :: o) u := by
  obtain ⟨h, hh, hu⟩ := h
  rcases List.mem_cons.mp hh with rfl | hh
  · obtain ⟨e', he', hdecrypt⟩ := List.mem_filterMap.mp hu
    rcases List.mem_cons.mp he' with rfl | he'
    · exact .inl hdecrypt
    · exact .inr ⟨_, List.mem_cons_self, List.mem_filterMap.mpr ⟨e', he', hdecrypt⟩⟩
  · exact .inr ⟨h, List.mem_cons_of_mem _ hh, hu⟩

theorem Pending.tail {h : Hand Cipher} (hp : Pending decrypt o u) : Pending decrypt (h :: o) u := by
  obtain ⟨h', hh', hu⟩ := hp
  exact ⟨h', List.mem_cons_of_mem _ hh', hu⟩

theorem Admitted.mono {x : MessageId × Nat} (h : Admitted decrypt v hands x)
    (hpending : ∀ u, Pending decrypt hands u → Pending decrypt hands' u) :
    Admitted decrypt v hands' x :=
  ⟨h.1, fun hhas u hu hid => (h.2 hhas u hu hid).imp_right (hpending u)⟩

/-- Less is under way, but for the edits. -/
theorem Coherent.mono (h : Coherent decrypt v hands)
    (hhands : ∀ h' ∈ hands', ∃ h ∈ hands, h'.awaited.Sublist h.awaited ∧ h'.edits ⊆ h.edits)
    (hpending : ∀ u, Pending decrypt hands u → Pending decrypt hands' u) :
    Coherent decrypt v hands' := by
  refine ⟨h.tidy, h.gone, h.shown, fun m hm u hu hid => ?_, fun h' hh' x hx => ?_,
    fun h' hh' => ?_, fun h' hh' e he => ?_⟩
  · exact (h.latest m hm u hu hid).imp_right (hpending u)
  · obtain ⟨h₀, hh₀, hawaited, -⟩ := hhands h' hh'
    exact (h.admitted h₀ hh₀ x (hawaited.subset hx)).mono hpending
  · obtain ⟨h₀, hh₀, hawaited, -⟩ := hhands h' hh'
    exact (h.distinct h₀ hh₀).sublist (hawaited.map Prod.fst)
  · obtain ⟨h₀, hh₀, -, hedits⟩ := hhands h' hh'
    exact h.known h₀ hh₀ e (hedits he)

theorem Coherent.perm (h : Coherent decrypt v hands) (hp : hands.Perm hands') :
    Coherent decrypt v hands' := by
  refine h.mono (fun h' hh' => ⟨h', hp.mem_iff.mpr hh', .refl _, fun _ he => he⟩) fun u hu => ?_
  obtain ⟨h', hh', hu⟩ := hu
  exact ⟨h', hp.mem_iff.mp hh', hu⟩

/-- A handler has fewer messages to list. -/
theorem Coherent.drop {aw aw' : List (MessageId × Nat)} (h : Coherent decrypt v (⟨aw, es⟩ :: o))
    (hsub : aw'.Sublist aw) : Coherent decrypt v (⟨aw', es⟩ :: o) := by
  refine h.mono (fun h' hh' => ?_) fun u hu => ?_
  · rcases List.mem_cons.mp hh' with rfl | hh'
    · exact ⟨_, List.mem_cons_self, hsub, fun _ he => he⟩
    · exact ⟨h', List.mem_cons_of_mem _ hh', .refl _, fun _ he => he⟩
  · obtain ⟨h', hh', hu⟩ := hu
    rcases List.mem_cons.mp hh' with rfl | hh'
    · exact ⟨_, List.mem_cons_self, hu⟩
    · exact ⟨h', List.mem_cons_of_mem _ hh', hu⟩

/-- A handler is finished. -/
theorem Coherent.finish (h : Coherent decrypt v (⟨[], []⟩ :: o)) : Coherent decrypt v o := by
  refine h.mono (fun h' hh' => ⟨h', List.mem_cons_of_mem _ hh', .refl _, fun _ he => he⟩)
    fun u hu => ?_
  obtain ⟨h', hh', hu⟩ := hu
  rcases List.mem_cons.mp hh' with rfl | hh'
  · cases hu
  · exact ⟨h', hh', hu⟩

/-- An event has brought messages that may still come, and edits. -/
theorem Coherent.begin (h : Coherent decrypt v o) (es : List (EditPayload Cipher))
    (aw : List (MessageId × Nat))
    (hawaited : ∀ x ∈ aw, Admitted decrypt v o x) (hdistinct : (aw.map Prod.fst).Nodup)
    (hedits : ∀ e ∈ es, ∀ u ∈ View.decryptEdit decrypt e, e.editedAt.isSome = true) :
    Coherent decrypt (v.record (es.filterMap (View.decryptEdit decrypt))) (⟨aw, es⟩ :: o) := by
  have hnew : ∀ u ∈ es.filterMap (View.decryptEdit decrypt),
      Pending decrypt (⟨aw, es⟩ :: o) u := fun u hu => ⟨_, List.mem_cons_self, hu⟩
  have hadmitted : ∀ x, Admitted decrypt v o x →
      Admitted decrypt (v.record (es.filterMap (View.decryptEdit decrypt))) (⟨aw, es⟩ :: o) x := by
    intro x hx
    refine ⟨hx.1, fun hhas u hu hid => ?_⟩
    rcases List.mem_append.mp hu with hu | hu
    · exact (hx.2 hhas u hu hid).imp_right Pending.tail
    · exact .inr (hnew u hu)
  refine ⟨h.tidy, h.gone, fun m hm => List.mem_append_left _ (h.shown m hm),
    fun m hm u hu hid => ?_, fun h' hh' x hx => ?_, fun h' hh' => ?_, fun h' hh' e he u hu => ?_⟩
  · rcases List.mem_append.mp hu with hu | hu
    · exact (h.latest m hm u hu hid).imp_right Pending.tail
    · exact .inr (hnew u hu)
  · rcases List.mem_cons.mp hh' with rfl | hh'
    · exact hadmitted x (hawaited x hx)
    · exact hadmitted x (h.admitted h' hh' x hx)
  · rcases List.mem_cons.mp hh' with rfl | hh'
    · exact hdistinct
    · exact h.distinct h' hh'
  · rcases List.mem_cons.mp hh' with rfl | hh'
    · exact ⟨hedits e he u hu,
        List.mem_append_right _ (List.mem_filterMap.mpr ⟨e, he, hu⟩)⟩
    · obtain ⟨hsome, hmem⟩ := h.known h' hh' e he u hu
      exact ⟨hsome, List.mem_append_left _ hmem⟩

/-- Messages that have been decrypted are listed, none of them a newer copy of a message
that is listed already. -/
theorem Coherent.mergeDecrypted (decrypted : List DecryptedMessage)
    (h : Coherent decrypt v (⟨decrypted.map awaitedOf, es⟩ :: o))
    (hcopies : ∀ d ∈ decrypted, ∀ m ∈ v.messages, m.id = d.id →
      d.version.age ≤ m.version.age) :
    Coherent decrypt (v.mergeDecrypted decrypted) (⟨[], es⟩ :: o) := by
  have hdistinct : (decrypted.map (·.id)).Nodup := by
    have hnodup := h.distinct _ List.mem_cons_self
    rwa [List.map_map] at hnodup
  have hmember : ∀ d ∈ decrypted,
      Admitted decrypt v (⟨decrypted.map awaitedOf, es⟩ :: o) (awaitedOf d) := fun d hd =>
    h.admitted _ List.mem_cons_self _ (List.mem_map_of_mem hd)
  have hpending : ∀ u, Pending decrypt (⟨decrypted.map awaitedOf, es⟩ :: o) u →
      Pending decrypt (⟨[], es⟩ :: o) u := fun u hu => by
    obtain ⟨h', hh', hu⟩ := hu
    rcases List.mem_cons.mp hh' with rfl | hh'
    · exact ⟨_, List.mem_cons_self, hu⟩
    · exact ⟨h', List.mem_cons_of_mem _ hh', hu⟩
  refine ⟨h.tidy.merge hdistinct, fun id hid => ?_, fun m hm => ?_, fun m hm u hu hid => ?_,
    fun h' hh' x hx => ?_, fun h' hh' => ?_, fun h' hh' e he u hu => ?_⟩
  · refine Bool.eq_false_iff.mpr fun hhas => ?_
    obtain ⟨m, hm, rfl⟩ := has_iff.mp hhas
    rcases mem_merge.mp hm with hm | ⟨hm, -⟩
    · have := h.gone m.id hid
      rw [has_iff.mpr ⟨m, hm, rfl⟩] at this
      cases this
    · exact (hmember m hm).1 hid
  · rcases mem_merge.mp hm with hm | ⟨hm, -⟩
    · exact List.mem_append_left _ (h.shown m hm)
    · exact List.mem_append_right _ (List.mem_map_of_mem hm)
  · rcases mem_merge.mp hm with hm | ⟨hm, hhas⟩ <;> rcases List.mem_append.mp hu with hu | hu
    · exact (h.latest m hm u hu hid).imp_right (hpending u)
    · obtain ⟨d, hd, rfl⟩ := List.mem_map.mp hu
      exact .inl (hcopies d hd m hm hid.symm)
    · exact ((hmember m hm).2 hhas u hu hid).imp_right (hpending u)
    · obtain ⟨d, hd, rfl⟩ := List.mem_map.mp hu
      rw [List.inj_on_of_nodup_map hdistinct hd hm hid]
      exact .inl (Nat.le_refl _)
  · rcases List.mem_cons.mp hh' with rfl | hh'
    · cases hx
    · have hadmitted := h.admitted h' (List.mem_cons_of_mem _ hh') x hx
      refine ⟨hadmitted.1, fun hhas u hu hid => ?_⟩
      rcases List.mem_append.mp hu with hu | hu
      · exact (hadmitted.2 (has_of_merge hhas) u hu hid).imp_right (hpending u)
      · obtain ⟨d, hd, rfl⟩ := List.mem_map.mp hu
        have hnew := @has_merge v.messages _ _ hd
        rw [show d.id = x.1 from hid] at hnew
        exact Bool.noConfusion (hhas.symm.trans hnew)
  · rcases List.mem_cons.mp hh' with rfl | hh'
    · exact List.nodup_nil
    · exact h.distinct h' (List.mem_cons_of_mem _ hh')
  · rcases List.mem_cons.mp hh' with rfl | hh'
    · obtain ⟨hsome, hmem⟩ := h.known _ List.mem_cons_self e he u hu
      exact ⟨hsome, List.mem_append_left _ hmem⟩
    · obtain ⟨hsome, hmem⟩ := h.known h' (List.mem_cons_of_mem _ hh') e he u hu
      exact ⟨hsome, List.mem_append_left _ hmem⟩

/-- An edit may be applied: no message of its id is under way, and the one that is listed
shows no newer edit. -/
def EditOrderly (decrypt : Cipher → Option String) (v : View Cipher) (hands : List (Hand Cipher))
    (e : EditPayload Cipher) : Prop :=
  ∀ u ∈ View.decryptEdit decrypt e, ¬ Awaits hands u.id
    ∧ ∀ m ∈ v.messages, m.id = u.id → m.version.age ≤ u.age

theorem Coherent.applyDecrypted (h : Coherent decrypt v (⟨[], e :: es⟩ :: o)) {a : Ambient}
    (he : EditOrderly decrypt v o e) :
    Coherent decrypt (v.applyDecrypted decrypt a e) (⟨[], es⟩ :: o) := by
  unfold View.applyDecrypted
  cases hdecrypt : decrypt e.cipher with
  | none =>
      refine h.mono (fun h' hh' => ?_) fun u hu => ?_
      · rcases List.mem_cons.mp hh' with rfl | hh'
        · exact ⟨_, List.mem_cons_self, .refl _, fun _ he => List.mem_cons_of_mem _ he⟩
        · exact ⟨h', List.mem_cons_of_mem _ hh', .refl _, fun _ he => he⟩
      · refine (pending_cons hu).resolve_left fun hu => ?_
        simp [View.decryptEdit, hdecrypt] at hu
  | some plaintext =>
      have hu₀ : View.decryptEdit decrypt e = some ⟨e.messageId, plaintext, e.editedAt⟩ := by
        simp [View.decryptEdit, hdecrypt]
      obtain ⟨hsome, hmem⟩ := h.known _ List.mem_cons_self e List.mem_cons_self _ hu₀
      obtain ⟨hawaits, holder⟩ := he _ hu₀
      obtain ⟨t, ht⟩ := Option.isSome_iff_exists.mp hsome
      rw [ht] at hu₀ hmem holder
      have hpending : ∀ u, u.id ≠ e.messageId → Pending decrypt (⟨[], e :: es⟩ :: o) u →
          Pending decrypt (⟨[], es⟩ :: o) u := fun u hid hu =>
        (pending_cons hu).resolve_left fun hu => hid (by rw [← Option.some.inj (hu₀.symm.trans hu)])
      rw [ht]
      dsimp only [Option.getD_some]
      refine ⟨h.tidy.applyEdit _ _ _, fun id hid => has_applyEdit.trans (h.gone id hid),
        fun m hm => ?_,
        fun m hm u hu hid => ?_, fun h' hh' x hx => ?_, fun h' hh' => ?_, fun h' hh' => ?_⟩
      · rcases mem_applyEdit hm with ⟨hm, -⟩ | ⟨m₀, hm₀, hid₀, rfl⟩
        · exact h.shown m hm
        · have hv : (⟨m₀.id, plaintext, some t⟩ : Version) ∈ v.received := hid₀ ▸ hmem
          exact hv
      · rcases mem_applyEdit hm with ⟨hm, hne⟩ | ⟨m₀, hm₀, hid₀, rfl⟩
        · exact (h.latest m hm u hu hid).imp_right (hpending u (hid ▸ hne))
        · rcases h.latest m₀ hm₀ u hu hid with hage | hp
          · exact .inl (hage.trans (holder m₀ hm₀ hid₀))
          · rcases pending_cons hp with hu | hp
            · rw [← Option.some.inj (hu₀.symm.trans hu)]
              exact .inl (Nat.le_refl _)
            · exact .inr hp
      · rcases List.mem_cons.mp hh' with rfl | hh'
        · cases hx
        · have hadmitted := h.admitted h' (List.mem_cons_of_mem _ hh') x hx
          have hne : x.1 ≠ e.messageId := fun hid => hawaits ⟨h', hh', x, hx, hid⟩
          refine ⟨hadmitted.1, fun hhas u hu hid => ?_⟩
          exact (hadmitted.2 (has_applyEdit.symm.trans hhas) u hu hid).imp_right
            (hpending u (hid ▸ hne))
      · rcases List.mem_cons.mp hh' with rfl | hh'
        · exact List.nodup_nil
        · exact h.distinct h' (List.mem_cons_of_mem _ hh')
      · rcases List.mem_cons.mp hh' with rfl | hh'
        · exact fun e' he' => h.known _ List.mem_cons_self e' (List.mem_cons_of_mem _ he')
        · exact h.known h' (List.mem_cons_of_mem _ hh')

theorem Coherent.removeTombstones (h : Coherent decrypt v hands) {deletedIds : List MessageId}
    (hawaits : ∀ id ∈ deletedIds, ¬ Awaits hands id) :
    Coherent decrypt (v.removeTombstones deletedIds) hands := by
  refine ⟨h.tidy.filter _, fun id hid => ?_, fun m hm => h.shown m (mem_removeIds.mp hm).1,
    fun m hm => h.latest m (mem_removeIds.mp hm).1, fun h' hh' x hx => ?_, h.distinct, h.known⟩
  · refine Bool.eq_false_iff.mpr fun hhas => ?_
    obtain ⟨m, hm, rfl⟩ := has_iff.mp hhas
    obtain ⟨hm, hnot⟩ := mem_removeIds.mp hm
    rcases List.mem_append.mp hid with hid | hid
    · have := h.gone m.id hid
      rw [has_iff.mpr ⟨m, hm, rfl⟩] at this
      cases this
    · exact hnot hid
  · have hadmitted := h.admitted h' hh' x hx
    have hnot : x.1 ∉ deletedIds := fun hid => hawaits x.1 hid ⟨h', hh', x, hx, rfl⟩
    refine ⟨fun hid => ?_, fun hhas => hadmitted.2 (Bool.eq_false_iff.mpr fun hold => ?_)⟩
    · exact (List.mem_append.mp hid).elim hadmitted.1 hnot
    · obtain ⟨m, hm, hid⟩ := has_iff.mp hold
      have hkept := has_iff.mpr ⟨m, mem_removeIds.mpr ⟨hm, hid ▸ hnot⟩, hid⟩
      exact Bool.noConfusion (hhas.symm.trans hkept)

/-- A message whose status has changed is the same version. -/
theorem mem_updateMessageStatus {id : MessageId} {status : MessageStatus} {m : DecryptedMessage}
    (h : m ∈ updateMessageStatus v.messages id status) :
    ∃ m₀ ∈ v.messages, m.version = m₀.version := by
  obtain ⟨m₀, hm₀, rfl⟩ := List.mem_map.mp h
  refine ⟨m₀, hm₀, ?_⟩
  split <;> rfl

theorem has_updateMessageStatus {id id' : MessageId} {status : MessageStatus} :
    has (updateMessageStatus v.messages id status) id' = has v.messages id' := by
  unfold has updateMessageStatus
  rw [List.any_map]
  congr 1
  funext m
  simp only [Function.comp]
  split <;> rfl

theorem Coherent.handleMessageSent (h : Coherent decrypt v hands) (id : MessageId)
    (delivered : Option Bool) : Coherent decrypt (v.handleMessageSent id delivered) hands := by
  refine ⟨h.tidy.updateMessageStatus _ _,
    fun id' hid => has_updateMessageStatus.trans (h.gone id' hid), fun m hm => ?_, fun m hm u hu hid => ?_, fun h' hh' x hx => ?_, h.distinct, h.known⟩
  · obtain ⟨m₀, hm₀, hversion⟩ := mem_updateMessageStatus hm
    rw [hversion]
    exact h.shown m₀ hm₀
  · obtain ⟨m₀, hm₀, hversion⟩ := mem_updateMessageStatus hm
    rw [hversion]
    refine h.latest m₀ hm₀ u hu ?_
    rw [hid]
    exact congrArg Version.id hversion
  · have hadmitted := h.admitted h' hh' x hx
    exact ⟨hadmitted.1, fun hhas => hadmitted.2 (has_updateMessageStatus.symm.trans hhas)⟩

/-! ## Orderly steps -/

/-- The ids and ages of what a batch brings. -/
def SyncMessagesEvent.awaited (event : SyncMessagesEvent Cipher) : List (MessageId × Nat) :=
  event.messages.map (·.awaited)

/-- The deletions of a batch may be handled when nothing but its edits is to come first. -/
def TombstonesOrderly (hands : List (Hand Cipher)) (edits : List (EditPayload Cipher))
    (deletedIds : List MessageId) : Prop :=
  edits = [] → ∀ id ∈ deletedIds, ¬ Awaits hands id

/-- A batch may be merged when the rest of it is skipped: none of its messages is a newer
copy of one that is listed. -/
def MergeOrderly (v : View Cipher) (hands : List (Hand Cipher)) (a : Ambient)
    (toDecrypt : List (WireMessage Cipher)) (decrypted : List DecryptedMessage)
    (edits : List (EditPayload Cipher)) (deletedIds : List MessageId) : Prop :=
  (∀ w ∈ toDecrypt, a.shouldSkip w.messageId = true) →
    (∀ d ∈ decrypted, ∀ m ∈ v.messages, m.id = d.id → d.version.age ≤ m.version.age)
      ∧ TombstonesOrderly hands edits deletedIds

/-- A handler may go on while the others are under way. -/
def ResumeOrderly (decrypt : Cipher → Option String) (v : View Cipher)
    (hands : List (Hand Cipher)) (a : Ambient) : Task Cipher → Prop
  | .syncMessage m editedAt toDecrypt decrypted edits deletedIds => MergeOrderly v hands a toDecrypt
      (decrypted ++ (View.decryptMessage decrypt m editedAt).toList) edits deletedIds
  | .syncEdit e edits deletedIds =>
      EditOrderly decrypt v hands e ∧ TombstonesOrderly hands edits deletedIds
  | .edited e => EditOrderly decrypt v hands e
  | _ => True

/-- An event may come: its messages may, its edits come with their time and are decrypted,
and a deletion finds no message of its id under way. An own message has a fresh id. -/
def OrderlyEvent (decrypt : Cipher → Option String) (v : View Cipher) (a : Ambient) :
    Event Cipher → Prop
  | .newMessage success w => success = true → a.bothVerified = true → a.hasKey = true →
      a.shouldSkip w.messageId = false →
        Admitted decrypt v (v.tasks.map Task.hand) (w.messageId, 0)
  | .sync event => event.success = true →
      (∀ e ∈ event.edits, ∀ u ∈ View.decryptEdit decrypt e,
        event.refused a = false ∧ e.editedAt.isSome = true)
      ∧ (event.refused a = false → (event.awaited.map Prod.fst).Nodup
        ∧ (∀ x ∈ event.awaited, Admitted decrypt v (v.tasks.map Task.hand) x)
        ∧ MergeOrderly v (v.tasks.map Task.hand) a event.messages [] event.edits event.deletedIds)
  | .sent _ _ => True
  | .edited success e => success = true → ∀ u ∈ View.decryptEdit decrypt e,
      a.hasKey = true ∧ e.editedAt.isSome = true
  | .deleted success messageId => success = true → ¬ Awaits (v.tasks.map Task.hand) messageId
  | .send messageId _ => messageId ∉ v.deleted ∧ has v.messages messageId = false
      ∧ ∀ u ∈ v.received, u.id ≠ messageId
  | .decrypted i => ∀ t ∈ v.tasks[i]?,
      ResumeOrderly decrypt v ((v.tasks.eraseIdx i).map Task.hand) a t

def Orderly (decrypt : Cipher → Option String) (c : Conf (View Cipher) Empty) :
    Action Empty (Ambient × Event Cipher) → Prop
  | .env event => OrderlyEvent decrypt c.store event.1 event.2
  | _ => True

/-! ## One step -/

theorem Coherent.syncEdits (h : Coherent decrypt v (⟨[], es⟩ :: o)) {deletedIds : List MessageId}
    (ht : TombstonesOrderly o es deletedIds) :
    Coherent decrypt (v.syncEdits es deletedIds).1 ((v.syncEdits es deletedIds).2.hand :: o) := by
  cases es with
  | nil =>
      refine h.removeTombstones fun id hid => ?_
      rintro ⟨h', hh', x, hx, hid'⟩
      rcases List.mem_cons.mp hh' with rfl | hh'
      · cases hx
      · exact ht rfl id hid ⟨h', hh', x, hx, hid'⟩
  | cons e es => exact h

theorem Coherent.syncLoop {a : Ambient} (decrypted : List DecryptedMessage)
    {deletedIds : List MessageId} : ∀ {toDecrypt : List (WireMessage Cipher)},
    Coherent decrypt v (⟨decrypted.map awaitedOf ++ toDecrypt.map (·.awaited), es⟩ :: o) →
    MergeOrderly v o a toDecrypt decrypted es deletedIds →
    Coherent decrypt (v.syncLoop a decrypted es deletedIds toDecrypt).1
      ((v.syncLoop a decrypted es deletedIds toDecrypt).2.hand :: o) := by
  intro toDecrypt
  induction toDecrypt with
  | nil =>
      intro h ho
      obtain ⟨hcopies, ht⟩ := ho nofun
      rw [List.map_nil, List.append_nil] at h
      exact (Coherent.mergeDecrypted _ h hcopies).syncEdits ht
  | cons w toDecrypt ih =>
      intro h ho
      unfold View.syncLoop
      by_cases hskip : a.shouldSkip w.messageId = true
      · rw [if_pos hskip]
        refine ih (h.drop ?_) fun hall => ho fun w' hw' => ?_
        · exact (List.Sublist.refl _).append (List.sublist_cons_self _ _)
        · rcases List.mem_cons.mp hw' with rfl | hw'
          · exact hskip
          · exact hall w' hw'
      · rw [if_neg hskip]
        exact h

theorem decryptMessage_eq {m : Decrypting Cipher} {editedAt : Option Nat} {d : DecryptedMessage}
    (h : View.decryptMessage decrypt m editedAt = some d) :
    awaitedOf d = (m.id, editAge editedAt) := by
  obtain ⟨plaintext, -, rfl⟩ := Option.map_eq_some_iff.mp h
  rfl

theorem Coherent.resume {a : Ambient} {t : Task Cipher} (h : Coherent decrypt v (t.hand :: o))
    (ho : ResumeOrderly decrypt v o a t) :
    Coherent decrypt (v.resume decrypt a t).1 ((v.resume decrypt a t).2.hand :: o) := by
  cases t with
  | newMessage m =>
      cases hd : View.decryptMessage decrypt m none with
      | none =>
          simp only [View.resume, hd]
          exact h.drop (List.nil_sublist _)
      | some d =>
          have hawaited : awaitedOf d = (m.id, 0) := decryptMessage_eq hd
          have hage : d.version.age = 0 := congrArg Prod.snd hawaited
          have h' : Coherent decrypt v (⟨[d].map awaitedOf, []⟩ :: o) := by
            rw [List.map_singleton, hawaited]
            exact h
          simp only [View.resume, hd, insertNew_eq]
          refine Coherent.mergeDecrypted _ h' fun d' hd' m _ _ => ?_
          rw [List.mem_singleton.mp hd', hage]
          exact Nat.zero_le _
  | syncMessage m editedAt toDecrypt decrypted edits deletedIds =>
      refine Coherent.syncLoop _ ?_ ho
      cases hd : View.decryptMessage decrypt m editedAt with
      | none =>
          refine h.drop ?_
          rw [Option.toList_none, List.append_nil]
          exact (List.Sublist.refl _).append (List.sublist_cons_self _ _)
      | some d =>
          have hawaited := decryptMessage_eq hd
          rw [Option.toList_some, List.map_append, List.map_singleton, hawaited,
            List.append_assoc]
          exact h
  | syncEdit e edits deletedIds =>
      have happlied := Coherent.applyDecrypted (a := a) h ho.1
      exact happlied.syncEdits ho.2
  | edited e => exact Coherent.applyDecrypted (a := a) h ho
  | done => exact h

/-- What is under way is told by `hands` alone. -/
theorem Coherent.setTasks (h : Coherent decrypt v hands) (tasks : List (Task Cipher)) :
    Coherent decrypt { v with tasks } hands :=
  ⟨h.tidy, h.gone, h.shown, h.latest, h.admitted, h.distinct, h.known⟩

/-- The tasks with a new one, which is at hand. -/
theorem Coherent.spawn {t : Task Cipher}
    (h : Coherent decrypt v (t.hand :: v.tasks.map Task.hand)) :
    Coherent decrypt (v.spawn t) ((v.spawn t).tasks.map Task.hand) := by
  have hp : (t.hand :: v.tasks.map Task.hand).Perm ((v.spawn t).tasks.map Task.hand) := by
    rw [View.spawn, List.map_append]
    exact (List.perm_append_singleton _ _).symm
  exact (h.perm hp).setTasks _

/-- Where the event brings no edits that are decrypted nothing is recorded. -/
theorem record_nil : v.record [] = v := by
  rw [View.record, List.append_nil]

@[simp] theorem tasks_syncLoop {a : Ambient} {decrypted : List DecryptedMessage}
    {deletedIds : List MessageId} {toDecrypt : List (WireMessage Cipher)} :
    (v.syncLoop a decrypted es deletedIds toDecrypt).1.tasks = v.tasks := by
  induction toDecrypt with
  | nil => cases es <;> rfl
  | cons w toDecrypt ih =>
      unfold View.syncLoop
      split
      · exact ih
      · rfl

theorem Coherent.handleSyncMessages {a : Ambient} {event : SyncMessagesEvent Cipher}
    (h : Coherent decrypt v (v.tasks.map Task.hand))
    (ho : OrderlyEvent decrypt v a (.sync event)) :
    Coherent decrypt (v.handleSyncMessages decrypt a event)
      ((v.handleSyncMessages decrypt a event).tasks.map Task.hand) := by
  unfold View.handleSyncMessages
  cases hsuccess : event.success with
  | false => exact h
  | true =>
      obtain ⟨hedits, haccepted⟩ := ho hsuccess
      cases hrefused : event.refused a with
      | true =>
          have hnone : event.edits.filterMap (View.decryptEdit decrypt) = [] := by
            refine List.filterMap_eq_nil_iff.mpr fun e he => Option.eq_none_iff_forall_not_mem.mpr ?_
            intro u hu
            rw [(hedits e he u hu).1] at hrefused
            cases hrefused
          simpa [hrefused, hnone, record_nil] using h
      | false =>
          obtain ⟨hdistinct, hadmitted, hmerge⟩ := haccepted hrefused
          have hbegun := h.begin event.edits event.awaited hadmitted hdistinct fun e he u hu => (hedits e he u hu).2
          simp only [Bool.not_true, Bool.false_eq_true, if_false]
          refine Coherent.spawn ?_
          rw [tasks_syncLoop]
          exact Coherent.syncLoop [] hbegun hmerge

/-- A single message may come. -/
theorem Coherent.mayCome (h : Coherent decrypt v o) {x : MessageId × Nat}
    (hx : Admitted decrypt v o x) : Coherent decrypt v (⟨[x], []⟩ :: o) := by
  have hbegun := h.begin [] [x]
    (fun y hy => (List.mem_singleton.mp hy).symm ▸ hx) (List.nodup_singleton _) nofun
  rwa [List.filterMap_nil, record_nil] at hbegun

theorem Coherent.handleNewMessage {a : Ambient} {success : Bool} {w : WireMessage Cipher}
    (h : Coherent decrypt v (v.tasks.map Task.hand))
    (ho : OrderlyEvent decrypt v a (.newMessage success w)) :
    Coherent decrypt (v.handleNewMessage a success w)
      ((v.handleNewMessage a success w).tasks.map Task.hand) := by
  unfold View.handleNewMessage View.ingestInboundCiphertext
  cases success with
  | false => exact h
  | true =>
      rw [if_pos rfl]
      cases hverified : a.bothVerified with
      | false => exact h
      | true =>
          cases hkey : a.hasKey with
          | false => exact h
          | true =>
              cases hskip : a.shouldSkip w.messageId with
              | true => exact h
              | false => exact (h.mayCome (ho rfl hverified hkey hskip)).spawn

theorem Coherent.handleMessageEdited {a : Ambient} {success : Bool}
    (h : Coherent decrypt v (v.tasks.map Task.hand))
    (ho : OrderlyEvent decrypt v a (.edited success e)) :
    Coherent decrypt (v.handleMessageEdited decrypt a success e)
      ((v.handleMessageEdited decrypt a success e).tasks.map Task.hand) := by
  unfold View.handleMessageEdited
  cases success with
  | false => exact h
  | true =>
      simp only [Bool.not_true, Bool.false_eq_true, if_false]
      cases hkey : a.hasKey with
      | false =>
          have hnone : View.decryptEdit decrypt e = none := by
            refine Option.eq_none_iff_forall_not_mem.mpr fun u hu => ?_
            rw [(ho rfl u hu).1] at hkey
            cases hkey
          simpa [hnone, record_nil] using h
      | true =>
          have hbegun := h.begin [e] [] nofun List.nodup_nil fun e' he' u hu => by
            rw [List.mem_singleton.mp he'] at hu ⊢
            exact (ho rfl u hu).2
          have heq : [e].filterMap (View.decryptEdit decrypt)
              = (View.decryptEdit decrypt e).toList := by
            cases hd : View.decryptEdit decrypt e <;> simp [hd]
          rw [heq] at hbegun
          exact hbegun.spawn

theorem Coherent.sendMessage {a : Ambient} {messageId : MessageId} {text : String}
    (h : Coherent decrypt v o) (hdeleted : messageId ∉ v.deleted)
    (hhas : has v.messages messageId = false) (hfresh : ∀ u ∈ v.received, u.id ≠ messageId) :
    Coherent decrypt (v.sendMessage a messageId text) o := by
  have hadmitted : Admitted decrypt v o (messageId, 0) :=
    ⟨hdeleted, fun _ u hu hid => absurd hid (hfresh u hu)⟩
  have hmerged := (Coherent.mergeDecrypted [⟨messageId, text, a.now, .sending, none⟩]
    (h.mayCome hadmitted) fun d hd m hm hid => ?_).finish
  · have hlist : mergeMessagesSorted v.messages [⟨messageId, text, a.now, .sending, none⟩]
        = sortByTimestamp (v.messages ++ [⟨messageId, text, a.now, .sending, none⟩]) := by
      rw [← insertNew_eq, insertNew, if_neg (by rw [hhas]; exact Bool.false_ne_true)]
    rw [View.mergeDecrypted, hlist] at hmerged
    exact hmerged
  · rw [List.mem_singleton.mp hd] at hid
    rw [has_iff.mpr ⟨m, hm, hid⟩] at hhas
    cases hhas

theorem tasks_applyDecrypted {a : Ambient} : (v.applyDecrypted decrypt a e).tasks = v.tasks := by
  unfold View.applyDecrypted
  split <;> rfl

theorem tasks_resume {a : Ambient} {t : Task Cipher} :
    (v.resume decrypt a t).1.tasks = v.tasks := by
  cases t with
  | newMessage m =>
      unfold View.resume
      dsimp only
      split <;> rfl
  | syncMessage => exact tasks_syncLoop
  | syncEdit e edits deletedIds =>
      cases edits <;> exact tasks_applyDecrypted
  | edited _ => exact tasks_applyDecrypted
  | done => rfl

theorem step_coherent {a : Ambient} {event : Event Cipher} {v' : View Cipher}
    (h : Coherent decrypt v (v.tasks.map Task.hand)) (ho : OrderlyEvent decrypt v a event)
    (hs : step decrypt v a event = some v') : Coherent decrypt v' (v'.tasks.map Task.hand) := by
  cases event with
  | newMessage success w =>
      obtain rfl := Option.some.inj hs
      exact h.handleNewMessage ho
  | sync event =>
      obtain rfl := Option.some.inj hs
      exact h.handleSyncMessages ho
  | sent messageId delivered =>
      obtain rfl := Option.some.inj hs
      exact h.handleMessageSent messageId delivered
  | edited success e =>
      obtain rfl := Option.some.inj hs
      exact h.handleMessageEdited ho
  | deleted success messageId =>
      obtain rfl := Option.some.inj hs
      unfold View.handleMessageDeleted
      cases success with
      | false => exact h
      | true =>
          refine h.removeTombstones fun id hid => ?_
          rw [List.mem_singleton.mp hid]
          exact ho rfl
  | send messageId text =>
      obtain rfl := Option.some.inj hs
      exact h.sendMessage ho.1 ho.2.1 ho.2.2
  | decrypted i =>
      obtain ⟨t, ht, rfl⟩ := Option.map_eq_some_iff.mp hs
      obtain ⟨hi, hget⟩ := List.getElem?_eq_some_iff.mp ht
      have hp := (List.getElem_cons_eraseIdx_perm hi).symm.map Task.hand
      rw [List.map_cons, hget] at hp
      have hresumed := (h.perm hp).resume (ho t ht)
      refine (hresumed.setTasks _).perm ?_
      dsimp only
      rw [tasks_resume]
      exact ((List.set_perm_cons_eraseIdx hi _).map Task.hand).symm

/-! ## Every run -/

theorem coherent_empty : Coherent decrypt View.empty [] :=
  ⟨tidy_nil, nofun, nofun, nofun, nofun, nofun, nofun⟩

theorem coherent_preserved : (chat decrypt).Preserves (Orderly decrypt) fun c =>
    Coherent decrypt c.store (c.store.tasks.map Task.hand) :=
  ⟨fun _ p => p.elim, fun _ _ p => p.elim, fun _ _ _ hi hg he => step_coherent hi hg he⟩

def Task.isDone : Task Cipher → Bool
  | .done => true
  | _ => false

/-- All decryptions have completed. -/
def View.quiet (v : View Cipher) : Bool := v.tasks.all Task.isDone

/-- No id twice, in order, without the deleted messages, and when all decryptions have
completed each message shows its latest version. -/
structure Converged (v : View Cipher) : Prop where
  tidy : Tidy v.messages
  gone : ∀ m ∈ v.messages, m.id ∉ v.deleted
  latest : v.quiet = true → ∀ m ∈ v.messages, ShowsLatest v.received m

theorem Coherent.converged (h : Coherent decrypt v (v.tasks.map Task.hand)) : Converged v := by
  refine ⟨h.tidy, fun m hm hid => ?_, fun hquiet m hm => ⟨h.shown m hm, fun u hu hid => ?_⟩⟩
  · have hnot := h.gone m.id hid
    rw [has_iff.mpr ⟨m, hm, rfl⟩] at hnot
    cases hnot
  · refine (h.latest m hm u hu hid).resolve_right ?_
    rintro ⟨h', hh', hu'⟩
    obtain ⟨t, ht, rfl⟩ := List.mem_map.mp hh'
    have hdone := List.all_eq_true.mp hquiet t ht
    cases t with
    | done => cases hu'
    | _ => cases hdone

/-- In every run in which edits and deletions are handled after their messages have been
listed, and edits by age, the view converges. -/
theorem view_converges {c : Conf (View Cipher) Empty}
    (h : (chat decrypt).Run (Orderly decrypt) ⟨.empty, []⟩ c) : Converged c.store :=
  (h.invariant coherent_preserved coherent_empty).converged

/-! ## Particular runs -/

instance (decrypt : Cipher → Option String) (hands : List (Hand Cipher))
    (u : Version) : Decidable (Pending decrypt hands u) :=
  inferInstanceAs (Decidable (∃ h ∈ hands, u ∈ h.edits.filterMap (View.decryptEdit decrypt)))

instance (hands : List (Hand Cipher)) (id : MessageId) : Decidable (Awaits hands id) :=
  inferInstanceAs (Decidable (∃ h ∈ hands, ∃ x ∈ h.awaited, x.1 = id))

instance (decrypt : Cipher → Option String) (v : View Cipher) (hands : List (Hand Cipher))
    (x : MessageId × Nat) : Decidable (Admitted decrypt v hands x) :=
  inferInstanceAs (Decidable (x.1 ∉ v.deleted ∧ (has v.messages x.1 = false →
    ∀ u ∈ v.received, u.id = x.1 → u.age ≤ x.2 ∨ Pending decrypt hands u)))

instance (decrypt : Cipher → Option String) (v : View Cipher) (hands : List (Hand Cipher))
    (e : EditPayload Cipher) : Decidable (EditOrderly decrypt v hands e) :=
  inferInstanceAs (Decidable (∀ u ∈ View.decryptEdit decrypt e, ¬ Awaits hands u.id
    ∧ ∀ m ∈ v.messages, m.id = u.id → m.version.age ≤ u.age))

instance (hands : List (Hand Cipher)) (edits : List (EditPayload Cipher))
    (deletedIds : List MessageId) : Decidable (TombstonesOrderly hands edits deletedIds) :=
  inferInstanceAs (Decidable (edits = [] → ∀ id ∈ deletedIds, ¬ Awaits hands id))

instance (v : View Cipher) (hands : List (Hand Cipher)) (a : Ambient)
    (toDecrypt : List (WireMessage Cipher)) (decrypted : List DecryptedMessage)
    (edits : List (EditPayload Cipher)) (deletedIds : List MessageId) :
    Decidable (MergeOrderly v hands a toDecrypt decrypted edits deletedIds) :=
  inferInstanceAs (Decidable ((∀ w ∈ toDecrypt, a.shouldSkip w.messageId = true) →
    (∀ d ∈ decrypted, ∀ m ∈ v.messages, m.id = d.id → d.version.age ≤ m.version.age)
      ∧ TombstonesOrderly hands edits deletedIds))

instance (decrypt : Cipher → Option String) (v : View Cipher) (hands : List (Hand Cipher))
    (a : Ambient) : (t : Task Cipher) → Decidable (ResumeOrderly decrypt v hands a t)
  | .syncMessage m editedAt toDecrypt decrypted edits deletedIds =>
      inferInstanceAs (Decidable (MergeOrderly v hands a toDecrypt
        (decrypted ++ (View.decryptMessage decrypt m editedAt).toList) edits deletedIds))
  | .syncEdit e edits deletedIds => inferInstanceAs (Decidable
      (EditOrderly decrypt v hands e ∧ TombstonesOrderly hands edits deletedIds))
  | .edited e => inferInstanceAs (Decidable (EditOrderly decrypt v hands e))
  | .newMessage _ | .done => .isTrue trivial

instance (decrypt : Cipher → Option String) (v : View Cipher) (a : Ambient) :
    (event : Event Cipher) → Decidable (OrderlyEvent decrypt v a event)
  | .newMessage success w => inferInstanceAs (Decidable (success = true → a.bothVerified = true →
      a.hasKey = true → a.shouldSkip w.messageId = false →
        Admitted decrypt v (v.tasks.map Task.hand) (w.messageId, 0)))
  | .sync event => inferInstanceAs (Decidable (event.success = true →
      (∀ e ∈ event.edits, ∀ u ∈ View.decryptEdit decrypt e,
        event.refused a = false ∧ e.editedAt.isSome = true)
      ∧ (event.refused a = false → (event.awaited.map Prod.fst).Nodup
        ∧ (∀ x ∈ event.awaited, Admitted decrypt v (v.tasks.map Task.hand) x)
        ∧ MergeOrderly v (v.tasks.map Task.hand) a event.messages [] event.edits
          event.deletedIds)))
  | .sent _ _ => .isTrue trivial
  | .edited success e => inferInstanceAs (Decidable (success = true →
      ∀ u ∈ View.decryptEdit decrypt e, a.hasKey = true ∧ e.editedAt.isSome = true))
  | .deleted success messageId => inferInstanceAs (Decidable (success = true →
      ¬ Awaits (v.tasks.map Task.hand) messageId))
  | .send messageId _ => inferInstanceAs (Decidable (messageId ∉ v.deleted
      ∧ has v.messages messageId = false ∧ ∀ u ∈ v.received, u.id ≠ messageId))
  | .decrypted i => inferInstanceAs (Decidable (∀ t ∈ v.tasks[i]?,
      ResumeOrderly decrypt v ((v.tasks.eraseIdx i).map Task.hand) a t))

def isOrderly (decrypt : Cipher → Option String) (c : Conf (View Cipher) Empty) :
    Action Empty (Ambient × Event Cipher) → Bool
  | .env event => OrderlyEvent decrypt c.store event.1 event.2
  | _ => true

theorem orderly_of_isOrderly (c : Conf (View Cipher) Empty)
    {x : Action Empty (Ambient × Event Cipher)} (h : isOrderly decrypt c x = true) :
    Orderly decrypt c x := by
  cases x with
  | env event =>
      exact of_decide_eq_true (p := OrderlyEvent decrypt c.store event.1 event.2) h
  | _ => trivial

/-- Texts stand for their ciphertexts. -/
def wire (messageId text : String) (timestamp : Nat) : WireMessage String :=
  ⟨messageId, text, some timestamp, none, none⟩

def clear : Ambient := ⟨true, true, fun _ => false, 0⟩

def act (event : Event String) : Action Empty (Ambient × Event String) := .env (clear, event)

/-- A message is received, edited and edited again; a batch brings another one and the
deletion of the first. -/
def ordered : List (Action Empty (Ambient × Event String)) :=
  [act (.newMessage true (wire "m" "text" 0)), act (.decrypted 0),
    act (.edited true ⟨"m", "first", some 1⟩), act (.decrypted 1),
    act (.edited true ⟨"m", "second", some 2⟩), act (.decrypted 2),
    act (.sync ⟨true, [wire "n" "other" 1], [⟨"n", "third", some 3⟩], ["m"]⟩),
    act (.decrypted 3), act (.decrypted 3)]

theorem view_converges_ordered : ∃ c, (chat some).Run (Orderly some) ⟨.empty, []⟩ c
    ∧ c.store.messages = [⟨"n", "third", 1, .delivered, some 3⟩] ∧ Converged c.store := by
  obtain ⟨c, hrun, hq⟩ : ∃ c, (chat some).Run (Orderly some) ⟨.empty, []⟩ c
      ∧ decide (c.store.messages = [⟨"n", "third", 1, .delivered, some 3⟩]) = true :=
    (chat some).exists_run_of_execWhile (isOrderly some) ⟨.empty, []⟩ ordered _
      (fun c _ => orderly_of_isOrderly c) (by decide +kernel)
  exact ⟨c, hrun, of_decide_eq_true hq, view_converges hrun⟩

/-- A deletion is handled while the message is being decrypted; and two edits of a message
are decrypted in the wrong order. -/
theorem view_diverges :
    (¬ ∀ c, (chat some).Reach ⟨.empty, []⟩ c → ∀ m ∈ c.store.messages, m.id ∉ c.store.deleted)
    ∧ ¬ ∀ c, (chat some).Reach ⟨.empty, []⟩ c → c.store.quiet = true →
      ∀ m ∈ c.store.messages, ShowsLatest c.store.received m := by
  refine ⟨fun hall => ?_, fun hall => ?_⟩
  · obtain ⟨c, hrun, hq⟩ := (chat some).exists_reach_of_exec ⟨.empty, []⟩
      [act (.newMessage true (wire "m" "text" 0)), act (.deleted true "m"), act (.decrypted 0)]
      (fun c => decide (⟨"m", "text", 0, .delivered, none⟩ ∈ c.store.messages
        ∧ "m" ∈ c.store.deleted)) (by decide)
    obtain ⟨hm, hid⟩ := of_decide_eq_true hq
    exact hall c hrun _ hm hid
  · obtain ⟨c, hrun, hq⟩ := (chat some).exists_reach_of_exec ⟨.empty, []⟩
      [act (.newMessage true (wire "m" "text" 0)), act (.decrypted 0),
        act (.edited true ⟨"m", "first", some 1⟩), act (.edited true ⟨"m", "second", some 2⟩),
        act (.decrypted 2), act (.decrypted 1)]
      (fun c => c.store.quiet && decide (⟨"m", "first", 0, .delivered, some 1⟩ ∈ c.store.messages
        ∧ ⟨"m", "second", some 2⟩ ∈ c.store.received)) (by decide)
    obtain ⟨hquiet, hq⟩ := Bool.and_eq_true_iff.mp hq
    obtain ⟨hm, hu⟩ := of_decide_eq_true hq
    have hage := (hall c hrun hquiet _ hm).2 _ hu rfl
    revert hage
    decide

end DirectChat

end BurnedChats

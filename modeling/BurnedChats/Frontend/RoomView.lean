import BurnedChats.Frontend.DirectChat

/-!
# The messages of a room

The room's topic brings the server's broadcasts in their order; a sync result brings the
server's list as it was after some of them. A handler decrypts what it was given and
then updates the list: a new message is inserted, an edit is applied, a snapshot takes
the place of the whole list but for the own messages on their way. A deletion is applied
at once. Decryptions complete in any order.

So a snapshot undoes the broadcasts that were handled while it was decrypted, and what
overtakes the decryption of a new message is lost. `Orderly` runs are those in which
neither happens.
-/

namespace BurnedChats

open Interleave

namespace RoomView

open MessageList
open DirectChat (WireMessage EditPayload)

variable {Cipher : Type}

/-! ## What the server broadcasts -/

/-- The events of the room's topic that change its messages. -/
inductive Broadcast (Cipher : Type)
  | created (w : WireMessage Cipher)
  | edited (e : EditPayload Cipher)
  | deleted (messageId : MessageId)

def Broadcast.messageId : Broadcast Cipher → MessageId
  | .created w => w.messageId
  | .edited e => e.messageId
  | .deleted messageId => messageId

def Broadcast.creates (id : MessageId) : Broadcast Cipher → Bool
  | .created w => w.messageId == id
  | _ => false

def Broadcast.edits (id : MessageId) : Broadcast Cipher → Bool
  | .edited e => e.messageId == id
  | _ => false

/-- The server's list after one more broadcast. -/
def applyBroadcast (l : List (WireMessage Cipher)) : Broadcast Cipher → List (WireMessage Cipher)
  | .created w => l ++ [w]
  | .edited e => l.map fun w =>
      if w.messageId = e.messageId then { w with cipher := e.cipher, editedAt := e.editedAt } else w
  | .deleted messageId => l.filter fun w => w.messageId != messageId

/-- The server's list after the first `n` broadcasts. -/
def serverList (log : List (Broadcast Cipher)) (n : Nat) : List (WireMessage Cipher) :=
  (log.take n).foldl applyBroadcast []

/-- The number of broadcasts up to the creation of a message. -/
def createdAt (log : List (Broadcast Cipher)) (id : MessageId) : Nat :=
  log.findIdx (·.creates id) + 1

/-! ## The view -/

def UNDECRYPTABLE_MESSAGE_PLACEHOLDER : String := "[encrypted]"

/-- What a callback reads besides its event. -/
structure Ambient where
  hasKey : Bool
  shouldSkip : MessageId → Bool
  now : Nat

/-- A handler that awaits a decryption. The position of its broadcast, and the number of
broadcasts that a snapshot reflects, are kept for the record. -/
inductive Task (Cipher : Type)
  | newMessage (position : Nat) (w : WireMessage Cipher) (timestamp : Nat)
  | edited (position : Nat) (e : EditPayload Cipher) (editedAtMs : Nat)
  | syncMessage (upTo : Nat) (w : WireMessage Cipher) (timestamp : Nat)
      (rest : List (WireMessage Cipher)) (decrypted : List DecryptedMessage)
  | done

/-- For the record: the broadcasts received, those that the applied snapshots reflect, and
the own messages sent and acknowledged. -/
structure View (Cipher : Type) where
  messages : List DecryptedMessage
  tasks : List (Task Cipher)
  hidden : List MessageId
  received : Nat
  synced : Nat
  own : List MessageId
  acked : List MessageId

/-- An own message that the server has not accepted. -/
def inFlight (m : DecryptedMessage) : Bool := m.status == .sending || m.status == .failed

/-- A broadcast message is inserted. Where its id is listed and on its way, it has been
sent. -/
def insertBroadcast (prev : List DecryptedMessage) (m : DecryptedMessage) :
    List DecryptedMessage :=
  match prev.findIdx? (·.id == m.id) with
  | some i => prev.modify i fun existing =>
      if existing.status = .sending then { existing with status := .sent } else existing
  | none => sortByTimestamp (prev ++ [m])

namespace View

variable (decrypt : Cipher → Option String) (a : Ambient) (v : View Cipher)

def empty : View Cipher := ⟨[], [], [], 0, 0, [], []⟩

def setMessages (messages : List DecryptedMessage) : View Cipher := { v with messages }

def spawn (t : Task Cipher) : View Cipher := { v with tasks := v.tasks ++ [t] }

def hideMessages (ids : List MessageId) : View Cipher := { v with hidden := v.hidden ++ ids }

def handleNewMessage (position : Nat) (w : WireMessage Cipher) : View Cipher :=
  if !a.hasKey then v
  else if a.shouldSkip w.messageId then v.hideMessages [w.messageId]
  else v.spawn (.newMessage position w (toEpochMs w.clientTimestamp w.serverTimestamp a.now))

def applyRoomEditFromBroadcast (position : Nat) (e : EditPayload Cipher) : View Cipher :=
  if !a.hasKey then v else v.spawn (.edited position e (e.editedAt.getD a.now))

def removeMessage (messageId : MessageId) : View Cipher :=
  v.setMessages (removeIds v.messages [messageId])

/-- The room's topic, by the kind of event. -/
def handleBroadcast (position : Nat) : Broadcast Cipher → View Cipher
  | .created w => v.handleNewMessage a position w
  | .edited e => v.applyRoomEditFromBroadcast a position e
  | .deleted messageId => v.removeMessage messageId

def handleMessageSent (messageId : MessageId) (success : Bool) : View Cipher :=
  if success then
    { v with acked := v.acked ++ [messageId] }.setMessages
      (updateMessageStatus v.messages messageId .sent)
  else v.setMessages (updateMessageStatus v.messages messageId .failed)

/-- The decrypted snapshot takes the place of the list. -/
def applySnapshot (upTo : Nat) (decrypted : List DecryptedMessage) : View Cipher :=
  let localInFlight := v.messages.filter fun m => inFlight m && m.id ∉ decrypted.map (·.id)
  { v with synced := max v.synced upTo }.setMessages
    (sortByTimestamp (decrypted ++ localInFlight))

/-- A snapshot's messages, up to the next decryption. -/
def syncLoop (upTo : Nat) (decrypted : List DecryptedMessage) :
    List (WireMessage Cipher) → View Cipher → View Cipher × Task Cipher
  | [], v => (v.applySnapshot upTo decrypted, .done)
  | w :: rest, v =>
      if a.shouldSkip w.messageId then
        syncLoop upTo decrypted rest (v.hideMessages [w.messageId])
      else (v, .syncMessage upTo w (toEpochMs w.clientTimestamp w.serverTimestamp a.now) rest
        decrypted)

def handleSyncMessages (success : Bool) (upTo : Nat) (serverList : List (WireMessage Cipher)) :
    View Cipher :=
  if !success then v
  else if !serverList.isEmpty && !a.hasKey then v
  else if serverList.isEmpty then v.applySnapshot upTo []
  else
    let (v, t) := syncLoop a upTo [] serverList v
    v.spawn t

/-- An own message is listed when it is sent. -/
def sendMessage (messageId : MessageId) (text : String) : View Cipher :=
  let localMessage : DecryptedMessage := ⟨messageId, text, a.now, .sending, none⟩
  { v with own := v.own ++ [messageId] }.setMessages
    (sortByTimestamp (v.messages ++ [localMessage]))

def decryptSynced (w : WireMessage Cipher) (timestamp : Nat) : DecryptedMessage :=
  ⟨w.messageId, (decrypt w.cipher).getD UNDECRYPTABLE_MESSAGE_PLACEHOLDER, timestamp, .delivered,
    w.editedAt⟩

/-- A handler goes on when its decryption has completed. -/
def resume : Task Cipher → View Cipher × Task Cipher
  | .newMessage _ w timestamp =>
      match decrypt w.cipher with
      | some plaintext => (v.setMessages (insertBroadcast v.messages
          ⟨w.messageId, plaintext, timestamp, .delivered, none⟩), .done)
      | none => (v.setMessages (insertNew v.messages
          ⟨w.messageId, UNDECRYPTABLE_MESSAGE_PLACEHOLDER, timestamp, .delivered, none⟩), .done)
  | .edited _ e editedAtMs =>
      match decrypt e.cipher with
      | none => (v, .done)
      | some plaintext =>
          (v.setMessages (applyEdit v.messages e.messageId plaintext editedAtMs), .done)
  | .syncMessage upTo w timestamp rest decrypted =>
      syncLoop a upTo (decrypted ++ [decryptSynced decrypt w timestamp]) rest v
  | .done => (v, .done)

end View

/-! ## Steps -/

inductive Event
  | broadcast
  | sync (success : Bool) (upTo : Nat)
  | sent (messageId : MessageId) (success : Bool)
  | send (messageId : MessageId) (text : String)
  | hide (messageIds : List MessageId)
  | decrypted (i : Nat)

def step (decrypt : Cipher → Option String) (log : List (Broadcast Cipher)) (v : View Cipher)
    (a : Ambient) : Event → Option (View Cipher)
  | .broadcast => log[v.received]?.map fun b =>
      View.handleBroadcast a { v with received := v.received + 1 } v.received b
  | .sync success upTo => some (v.handleSyncMessages a success upTo (serverList log upTo))
  | .sent messageId success => some (v.handleMessageSent messageId success)
  | .send messageId text => some (v.sendMessage a messageId text)
  | .hide messageIds => some (v.hideMessages messageIds)
  | .decrypted i => v.tasks[i]?.map fun t =>
      let (v', t') := v.resume decrypt a t
      { v' with tasks := v'.tasks.set i t' }

/-- The view of one room: events, each with what its callback reads. -/
def room (decrypt : Cipher → Option String) (log : List (Broadcast Cipher)) :
    Server (View Cipher) Empty (Ambient × Event) where
  opens _ := false
  step p _ := p.elim
  env e v := step decrypt log v e.1 e.2

/-! ## Convergence -/

/-- What a listed message shows, and what the server's message is to show. -/
structure Entry where
  id : MessageId
  content : String
  timestamp : Nat
  editedAt : Option Nat
  deriving DecidableEq, Repr

def entry (m : DecryptedMessage) : Entry := ⟨m.id, m.content, m.timestamp, m.editedAt⟩

/-- The time of a message that carries one. -/
def stamp (w : WireMessage Cipher) : Nat := toEpochMs w.clientTimestamp w.serverTimestamp 0

def wireEntry (decrypt : Cipher → Option String) (w : WireMessage Cipher) : Entry :=
  entry (View.decryptSynced decrypt w (stamp w))

/-- The broadcasts that the view has been told about, as far as a message is concerned:
those received, those that a snapshot reflects, and those up to a message's creation when
its acknowledgement has come. -/
def View.told (v : View Cipher) (log : List (Broadcast Cipher)) (id : MessageId) : Nat :=
  max (max v.received v.synced) (if id ∈ v.acked then createdAt log id else 0)

/-- What is displayed: neither hidden nor past its timer. -/
def View.visible (v : View Cipher) (expired : MessageId → Bool) : List DecryptedMessage :=
  v.messages.filter fun m => m.id ∉ v.hidden && !expired m.id

def Task.isDone : Task Cipher → Bool
  | .done => true
  | _ => false

/-- All decryptions have completed and no own message is sending or failed. -/
def View.quiet (v : View Cipher) : Bool :=
  v.tasks.all Task.isDone && v.messages.all fun m => !inFlight m

/-- The displayed messages are those on the server's list that are neither hidden nor
past their timer, each once, sorted, and with its latest edit. -/
structure Converged (decrypt : Cipher → Option String) (log : List (Broadcast Cipher))
    (v : View Cipher) (expired : MessageId → Bool) : Prop where
  tidy : Tidy (v.visible expired)
  shows : ∀ x : Entry, (∃ m ∈ v.visible expired, entry m = x) ↔
    x.id ∉ v.hidden ∧ expired x.id = false
      ∧ ∃ w ∈ serverList log (v.told log x.id), wireEntry decrypt w = x

/-! ## Orderly runs -/

/-- The server's broadcasts: message ids are not used twice, messages carry a time, edits
carry theirs and can be decrypted, and an edit or a deletion is of an earlier message. -/
structure SoundLog (decrypt : Cipher → Option String) (log : List (Broadcast Cipher)) : Prop where
  distinct : ∀ {p q : Nat} {w w' : WireMessage Cipher}, log[p]? = some (.created w) →
    log[q]? = some (.created w') → w.messageId = w'.messageId → p = q
  created : ∀ {p : Nat} {w : WireMessage Cipher}, log[p]? = some (.created w) →
    w.editedAt = none ∧ (w.clientTimestamp.or w.serverTimestamp).isSome = true
  edited : ∀ {p : Nat} {e : EditPayload Cipher}, log[p]? = some (.edited e) →
    e.editedAt.isSome = true ∧ (decrypt e.cipher).isSome = true
  follows : ∀ {p : Nat} {b : Broadcast Cipher}, log[p]? = some b →
    ∃ q w, q ≤ p ∧ log[q]? = some (.created w) ∧ w.messageId = b.messageId

def Task.position : Task Cipher → Option Nat
  | .newMessage position _ _ => some position
  | .edited position _ _ => some position
  | _ => none

/-- The message that a task is to list. -/
def Task.brings : Task Cipher → Option MessageId
  | .newMessage _ w _ => some w.messageId
  | _ => none

/-- The broadcast of a position is being decrypted. -/
def Pending (v : View Cipher) (p : Nat) : Prop := ∃ t ∈ v.tasks, t.position = some p

def Arriving (v : View Cipher) (id : MessageId) : Prop := ∃ t ∈ v.tasks, t.brings = some id

section Conditions

variable (decrypt : Cipher → Option String) (log : List (Broadcast Cipher)) (v : View Cipher)
  (a : Ambient)

/-- A message is deleted when it is not being decrypted. -/
def BroadcastOrderly : Broadcast Cipher → Prop
  | .deleted id => ¬ Arriving v id
  | _ => a.hasKey = true

/-- What has been decrypted and is in an applied snapshot already is still listed. -/
def NewMessageOrderly (position : Nat) (w : WireMessage Cipher) : Prop :=
  w.messageId ∈ v.hidden ∨
    (position < v.synced → ∃ m ∈ v.messages, m.id = w.messageId ∧ inFlight m = false)

/-- The broadcasts about a message are applied in their order, and no applied snapshot
has a later edit. -/
def EditOrderly (position : Nat) (e : EditPayload Cipher) : Prop :=
  e.messageId ∈ v.hidden ∨
    ((∀ t ∈ v.tasks, ∀ q ∈ t.position, q < position →
        ∀ b ∈ log[q]?, b.messageId ≠ e.messageId)
      ∧ ∀ q < v.synced, position < q → ∀ b ∈ log[q]?, b.edits e.messageId = false)

/-- A snapshot is applied when what has been told beyond it is still being decrypted. -/
def SnapshotOrderly (upTo : Nat) : Prop :=
  v.synced ≤ upTo
    ∧ (∀ p < v.received, upTo ≤ p → ∀ b ∈ log[p]?, b.messageId ∈ v.hidden ∨ Pending v p)
    ∧ ∀ id ∈ v.acked, id ∈ v.hidden ∨ createdAt log id ≤ upTo ∨ Arriving v id

def ResumeOrderly : Task Cipher → Prop
  | .newMessage position w _ => NewMessageOrderly v position w
  | .edited position e _ => EditOrderly log v position e
  | .syncMessage upTo _ _ rest _ =>
      (∀ w ∈ rest, a.shouldSkip w.messageId = true) → SnapshotOrderly log v upTo
  | .done => True

/-- The server acknowledges what it has accepted, and an own message on its way is not
in an applied snapshot. -/
def SentOrderly (messageId : MessageId) : Bool → Prop
  | true => messageId ∈ v.own ∧ (∃ b ∈ log, b.creates messageId = true)
      ∧ (messageId ∈ v.hidden ∨ ((∃ m ∈ v.messages, m.id = messageId ∧ inFlight m = true) →
        v.synced < createdAt log messageId))
  | false => ∀ b ∈ log, b.creates messageId = false

/-- The server's message is what was sent. -/
def Relays (text : String) : Broadcast Cipher → Prop
  | .created w => decrypt w.cipher = some text ∧ stamp w = a.now
  | _ => True

/-- A message that is sent has a fresh id. -/
def SendOrderly (messageId : MessageId) (text : String) : Prop :=
  has v.messages messageId = false
    ∧ ∀ p < log.length, ∀ b ∈ log[p]?, b.creates messageId = true →
      max v.received v.synced ≤ p ∧ Relays decrypt a text b

/-- The callback is neither overtaken nor overtakes. -/
def OrderlyEvent : Event → Prop
  | .broadcast => ∀ b ∈ log[v.received]?, BroadcastOrderly v a b
  | .sync success upTo => success = true →
      (∀ w ∈ serverList log upTo, a.hasKey = true ∧ a.shouldSkip w.messageId = true) →
        SnapshotOrderly log v upTo
  | .sent messageId success => SentOrderly log v messageId success
  | .send messageId text => SendOrderly decrypt log v a messageId text
  | .hide _ => True
  | .decrypted i => ∀ t ∈ v.tasks[i]?, ResumeOrderly log v a t

end Conditions

def Orderly (decrypt : Cipher → Option String) (log : List (Broadcast Cipher))
    (c : Conf (View Cipher) Empty) : Action Empty (Ambient × Event) → Prop
  | .env e => OrderlyEvent decrypt log c.store e.1 e.2
  | _ => True

/-! ## The server's list -/

section ServerList

variable {decrypt : Cipher → Option String} {log : List (Broadcast Cipher)} {id : MessageId}
  {w : WireMessage Cipher} {b : Broadcast Cipher} {n p : Nat}

theorem serverList_succ (h : log[n]? = some b) :
    serverList log (n + 1) = applyBroadcast (serverList log n) b := by
  unfold serverList
  rw [List.take_add_one, h, List.foldl_append]
  rfl

theorem serverList_of_none (h : log[n]? = none) : serverList log (n + 1) = serverList log n := by
  unfold serverList
  rw [List.take_add_one, h, Option.toList_none, List.append_nil]

/-- A broadcast leaves the other messages alone. -/
theorem mem_applyBroadcast_of_ne {l : List (WireMessage Cipher)} (h : b.messageId ≠ id)
    (hid : w.messageId = id) : w ∈ applyBroadcast l b ↔ w ∈ l := by
  cases b with
  | created w' =>
      have hne : w ≠ w' := fun he => h (he ▸ hid)
      simp [applyBroadcast, hne]
  | edited e =>
      constructor
      · intro hw
        obtain ⟨w', hw', rfl⟩ := List.mem_map.mp hw
        by_cases he : w'.messageId = e.messageId
        · rw [if_pos he] at hid
          exact absurd (he.symm.trans hid) h
        · rw [if_neg he]
          exact hw'
      · intro hw
        refine List.mem_map.mpr ⟨w, hw, if_neg fun he => h ?_⟩
        exact he.symm.trans hid
  | deleted id' =>
      have hne : w.messageId ≠ id' := fun he => h (he.symm.trans hid)
      simp [applyBroadcast, hne]

/-- What is not about a message does not change it. -/
theorem serverList_stable {n' : Nat} (hle : n ≤ n') (hid : w.messageId = id)
    (hquiet : ∀ p b, n ≤ p → p < n' → log[p]? = some b → b.messageId ≠ id) :
    w ∈ serverList log n' ↔ w ∈ serverList log n := by
  induction n' with
  | zero =>
      obtain rfl := Nat.le_zero.mp hle
      rfl
  | succ n' ih =>
      rcases Nat.lt_or_eq_of_le hle with hlt | rfl
      · have hrest := ih (by omega) fun p b hp hlt' => hquiet p b hp (by omega)
        rw [← hrest]
        cases hget : log[n']? with
        | none => rw [serverList_of_none hget]
        | some b =>
            rw [serverList_succ hget]
            exact mem_applyBroadcast_of_ne (hquiet n' b (by omega) (by omega) hget) hid
      · rfl

/-- A listed message has been created, with its times. -/
theorem created_of_mem (h : w ∈ serverList log n) : ∃ p w₀, p < n
    ∧ log[p]? = some (.created w₀) ∧ w₀.messageId = w.messageId ∧ stamp w₀ = stamp w
    ∧ w₀.clientTimestamp.or w₀.serverTimestamp = w.clientTimestamp.or w.serverTimestamp := by
  induction n generalizing w with
  | zero => cases h
  | succ n ih =>
      have hold : ∀ {w : WireMessage Cipher}, w ∈ serverList log n → ∃ p w₀, p < n + 1
          ∧ log[p]? = some (.created w₀) ∧ w₀.messageId = w.messageId ∧ stamp w₀ = stamp w
          ∧ w₀.clientTimestamp.or w₀.serverTimestamp
            = w.clientTimestamp.or w.serverTimestamp := by
        intro w hw
        obtain ⟨p, w₀, hp, hrest⟩ := ih hw
        exact ⟨p, w₀, by omega, hrest⟩
      cases hget : log[n]? with
      | none => exact hold (serverList_of_none hget ▸ h)
      | some b =>
          rw [serverList_succ hget] at h
          cases b with
          | created w' =>
              rcases List.mem_append.mp h with hw | hw
              · exact hold hw
              · obtain rfl := List.mem_singleton.mp hw
                exact ⟨n, w, by omega, hget, rfl, rfl, rfl⟩
          | edited e =>
              obtain ⟨w', hw', rfl⟩ := List.mem_map.mp h
              obtain ⟨p, w₀, hp, hcreated, hid, hstamp, htimes⟩ := hold hw'
              refine ⟨p, w₀, hp, hcreated, ?_, ?_, ?_⟩
              · split <;> exact hid
              · split <;> exact hstamp
              · split <;> exact htimes
          | deleted id' => exact hold (List.mem_filter.mp h).1

variable (hlog : SoundLog decrypt log)
include hlog

/-- A broadcast about a message comes after its creation. -/
theorem SoundLog.created_le {w₀ : WireMessage Cipher} {q : Nat} (hb : log[q]? = some b)
    (hcreated : log[p]? = some (.created w₀)) (hid : b.messageId = w₀.messageId) : p ≤ q := by
  obtain ⟨p', w', hle, hcreated', hid'⟩ := hlog.follows hb
  rw [hlog.distinct hcreated hcreated' (hid.symm.trans hid'.symm)]
  exact hle

theorem serverList_at_creation (hcreated : log[p]? = some (.created w)) {w' : WireMessage Cipher}
    (hid : w'.messageId = w.messageId) : w' ∈ serverList log (p + 1) ↔ w' = w := by
  rw [serverList_succ hcreated]
  have hnone : w' ∉ serverList log p := by
    intro hmem
    obtain ⟨q, w₀, hq, hcreated₀, hid₀, -⟩ := created_of_mem hmem
    have hpq := hlog.distinct hcreated hcreated₀ (hid.symm.trans hid₀.symm)
    omega
  simp [applyBroadcast, hnone]

/-- A deleted message does not come back. -/
theorem not_mem_of_deleted (hdeleted : log[p]? = some (.deleted id)) (hlt : p < n)
    (hid : w.messageId = id) : w ∉ serverList log n := by
  induction n generalizing w with
  | zero => exact absurd hlt (Nat.not_lt_zero p)
  | succ n ih =>
      rcases Nat.lt_succ_iff_lt_or_eq.mp hlt with hlt' | rfl
      · cases hget : log[n]? with
        | none =>
            rw [serverList_of_none hget]
            exact ih hlt' hid
        | some b =>
            rw [serverList_succ hget]
            intro hw
            cases b with
            | created w' =>
                rcases List.mem_append.mp hw with hw | hw
                · exact ih hlt' hid hw
                · obtain rfl := List.mem_singleton.mp hw
                  have hle := hlog.created_le hdeleted hget hid.symm
                  omega
            | edited e =>
                obtain ⟨w', hw', rfl⟩ := List.mem_map.mp hw
                refine ih hlt' ?_ hw'
                rw [← hid]
                split <;> rfl
            | deleted id' => exact ih hlt' hid (List.mem_filter.mp hw).1
      · rw [serverList_succ hdeleted]
        intro hw
        have hne := (List.mem_filter.mp hw).2
        rw [hid] at hne
        simp at hne

/-- A listed message shows its last edit. -/
theorem shows_edit {e : EditPayload Cipher} (hedited : log[p]? = some (.edited e)) (hlt : p < n)
    (hlast : ∀ q < n, p < q → ∀ b ∈ log[q]?, b.edits e.messageId = false)
    (hmem : w ∈ serverList log n) (hid : w.messageId = e.messageId) :
    w.cipher = e.cipher ∧ w.editedAt = e.editedAt := by
  induction n generalizing w with
  | zero => cases hmem
  | succ n ih =>
      rcases Nat.lt_succ_iff_lt_or_eq.mp hlt with hlt' | rfl
      · have hold := fun {w : WireMessage Cipher} => @ih w hlt'
          fun q hq hpq => hlast q (by omega) hpq
        cases hget : log[n]? with
        | none => exact hold (serverList_of_none hget ▸ hmem) hid
        | some b =>
            rw [serverList_succ hget] at hmem
            cases b with
            | created w' =>
                rcases List.mem_append.mp hmem with hw | hw
                · exact hold hw hid
                · obtain rfl := List.mem_singleton.mp hw
                  have hle := hlog.created_le hedited hget hid.symm
                  omega
            | edited e' =>
                obtain ⟨w', hw', rfl⟩ := List.mem_map.mp hmem
                have hne : w'.messageId ≠ e'.messageId := by
                  intro he
                  rw [if_pos he] at hid
                  have hnot := hlast n (by omega) hlt' _ hget
                  have hedits : e'.messageId = e.messageId := he.symm.trans hid
                  simp [Broadcast.edits, hedits] at hnot
                rw [if_neg hne] at hid ⊢
                exact hold hw' hid
            | deleted id' => exact hold (List.mem_filter.mp hmem).1 hid
      · rw [serverList_succ hedited] at hmem
        obtain ⟨w', -, rfl⟩ := List.mem_map.mp hmem
        by_cases he : w'.messageId = e.messageId
        · rw [if_pos he]
          exact ⟨rfl, rfl⟩
        · rw [if_neg he] at hid
          exact absurd hid he

/-- A created message is listed unless it has been deleted. -/
theorem exists_deleted (hcreated : log[p]? = some (.created w)) (hlt : p < n)
    (hnone : ∀ w' ∈ serverList log n, w'.messageId ≠ w.messageId) :
    ∃ q < n, p < q ∧ log[q]? = some (.deleted w.messageId) := by
  induction n with
  | zero => exact absurd hlt (Nat.not_lt_zero p)
  | succ n ih =>
      rcases Nat.lt_succ_iff_lt_or_eq.mp hlt with hlt' | rfl
      · have hold : (∀ w' ∈ serverList log n, w'.messageId ≠ w.messageId) →
            ∃ q < n + 1, p < q ∧ log[q]? = some (.deleted w.messageId) := by
          intro hnone
          obtain ⟨q, hq, hrest⟩ := ih hlt' hnone
          exact ⟨q, by omega, hrest⟩
        cases hget : log[n]? with
        | none => exact hold (serverList_of_none hget ▸ hnone)
        | some b =>
            rw [serverList_succ hget] at hnone
            cases b with
            | created w' =>
                exact hold fun w'' hw'' => hnone w'' (List.mem_append.mpr (.inl hw''))
            | edited e =>
                refine hold fun w'' hw'' hid => ?_
                have hmapped := hnone _ (List.mem_map.mpr ⟨w'', hw'', rfl⟩)
                refine hmapped ?_
                split <;> exact hid
            | deleted id' =>
                by_cases hid' : id' = w.messageId
                · exact ⟨n, by omega, hlt', hid' ▸ hget⟩
                · refine hold fun w'' hw'' hid => ?_
                  refine hnone w'' (List.mem_filter.mpr ⟨hw'', ?_⟩) hid
                  rw [hid]
                  exact bne_iff_ne.mpr (Ne.symm hid')
      · have hlisted := (serverList_at_creation hlog hcreated rfl).mpr rfl
        exact absurd rfl (hnone w hlisted)

theorem serverList_nodup (n : Nat) : ((serverList log n).map (·.messageId)).Nodup := by
  induction n with
  | zero => exact List.nodup_nil
  | succ n ih =>
      cases hget : log[n]? with
      | none =>
          rw [serverList_of_none hget]
          exact ih
      | some b =>
          rw [serverList_succ hget]
          cases b with
          | created w =>
              rw [applyBroadcast, List.map_append]
              refine List.Nodup.append ih (List.nodup_singleton _) ?_
              intro id hid hid'
              obtain ⟨w', hw', rfl⟩ := List.mem_map.mp hid
              obtain ⟨q, w₀, hq, hcreated, hid₀, -⟩ := created_of_mem hw'
              have he := hlog.distinct hget hcreated
                (hid₀.trans (List.mem_singleton.mp hid')).symm
              omega
          | edited e =>
              have hids : (applyBroadcast (serverList log n) (.edited e)).map (·.messageId)
                  = (serverList log n).map (·.messageId) := by
                rw [applyBroadcast, List.map_map]
                refine List.map_congr_left fun w _ => ?_
                simp only [Function.comp]
                split <;> rfl
              rw [hids]
              exact ih
          | deleted id' => exact ih.sublist (List.filter_sublist.map _)

theorem createdAt_eq (hcreated : log[p]? = some (.created w)) :
    createdAt log w.messageId = p + 1 := by
  obtain ⟨hp, hget⟩ := List.getElem?_eq_some_iff.mp hcreated
  have hcreates : (log[p]).creates w.messageId = true := by
    rw [hget]
    exact beq_self_eq_true _
  have hle : log.findIdx (·.creates w.messageId) ≤ p := by
    by_contra hlt
    exact absurd hcreates (Bool.eq_false_iff.mp (List.not_of_lt_findIdx (Nat.lt_of_not_le hlt)))
  have hfound : (log[log.findIdx (·.creates w.messageId)]).creates w.messageId = true :=
    @List.findIdx_getElem _ _ log (Nat.lt_of_le_of_lt hle hp)
  have hsome := List.getElem?_eq_getElem (Nat.lt_of_le_of_lt hle hp)
  cases hb : log[log.findIdx (·.creates w.messageId)] with
  | created w' =>
      rw [hb] at hfound hsome
      have hid : w'.messageId = w.messageId := eq_of_beq hfound
      rw [createdAt, hlog.distinct hsome hcreated hid]
  | edited e =>
      rw [hb] at hfound
      cases hfound
  | deleted id =>
      rw [hb] at hfound
      cases hfound

end ServerList

/-! ## What a list shows -/

section Lists

variable {prev : List DecryptedMessage} {m : DecryptedMessage} {id id' : MessageId} {x : Entry}

def Shown (prev : List DecryptedMessage) (id : MessageId) (x : Entry) : Prop :=
  ∃ m ∈ prev, m.id = id ∧ entry m = x

theorem shown_map {f : DecryptedMessage → DecryptedMessage} (hf : ∀ m, entry (f m) = entry m) :
    Shown (prev.map f) id x ↔ Shown prev id x := by
  have hid : ∀ m, (f m).id = m.id := fun m => congrArg Entry.id (hf m)
  constructor
  · rintro ⟨m', hm', rfl, rfl⟩
    obtain ⟨m, hm, rfl⟩ := List.mem_map.mp hm'
    exact ⟨m, hm, (hid m).symm, (hf m).symm⟩
  · rintro ⟨m, hm, rfl, rfl⟩
    exact ⟨f m, List.mem_map_of_mem hm, hid m, hf m⟩

theorem shown_insert : Shown (sortByTimestamp (prev ++ [m])) id x ↔
    Shown prev id x ∨ (m.id = id ∧ entry m = x) := by
  constructor
  · rintro ⟨m', hm', hid, hx⟩
    rcases List.mem_append.mp (mem_sortByTimestamp.mp hm') with hm' | hm'
    · exact .inl ⟨m', hm', hid, hx⟩
    · obtain rfl := List.mem_singleton.mp hm'
      exact .inr ⟨hid, hx⟩
  · rintro (⟨m', hm', hid, hx⟩ | ⟨hid, hx⟩)
    · exact ⟨m', mem_sortByTimestamp.mpr (List.mem_append.mpr (.inl hm')), hid, hx⟩
    · exact ⟨m, mem_sortByTimestamp.mpr (List.mem_append.mpr (.inr List.mem_cons_self)), hid, hx⟩

theorem shown_removeIds : Shown (removeIds prev [id']) id x ↔ id ≠ id' ∧ Shown prev id x := by
  constructor
  · rintro ⟨m', hm', rfl, hx⟩
    obtain ⟨hm', hnot⟩ := mem_removeIds.mp hm'
    exact ⟨fun h => hnot (List.mem_singleton.mpr h), m', hm', rfl, hx⟩
  · rintro ⟨hne, m', hm', rfl, hx⟩
    exact ⟨m', mem_removeIds.mpr ⟨hm', fun h => hne (List.mem_singleton.mp h)⟩, rfl, hx⟩

/-- An entry with an edit applied. -/
def Entry.edit (x : Entry) (plaintext : String) (editedAtMs : Nat) : Entry :=
  { x with content := plaintext, editedAt := some editedAtMs }

theorem shown_applyEdit {plaintext : String} {editedAtMs : Nat} :
    Shown (applyEdit prev id' plaintext editedAtMs) id x ↔
      if id = id' then ∃ y, Shown prev id y ∧ x = y.edit plaintext editedAtMs
      else Shown prev id x := by
  by_cases hid : id = id'
  · rw [if_pos hid]
    constructor
    · rintro ⟨m', hm', hm'id, rfl⟩
      rcases mem_applyEdit hm' with ⟨-, hne⟩ | ⟨m₀, hm₀, hm₀id, rfl⟩
      · exact absurd (hm'id.trans hid) hne
      · exact ⟨entry m₀, ⟨m₀, hm₀, hm₀id.trans hid.symm, rfl⟩, rfl⟩
    · rintro ⟨y, ⟨m₀, hm₀, hm₀id, rfl⟩, rfl⟩
      refine ⟨_, List.mem_map.mpr ⟨m₀, hm₀, rfl⟩, ?_, ?_⟩
      · rw [if_pos (hm₀id.trans hid)]
        exact hm₀id
      · rw [if_pos (hm₀id.trans hid)]
        rfl
  · rw [if_neg hid]
    constructor
    · rintro ⟨m', hm', hm'id, rfl⟩
      rcases mem_applyEdit hm' with ⟨hm', -⟩ | ⟨m₀, hm₀, hm₀id, rfl⟩
      · exact ⟨m', hm', hm'id, rfl⟩
      · exact absurd (hm'id.symm.trans hm₀id) hid
    · rintro ⟨m', hm', hm'id, rfl⟩
      refine ⟨m', List.mem_map.mpr ⟨m', hm', if_neg fun h => hid ?_⟩, hm'id, rfl⟩
      exact hm'id.symm.trans h

/-- The step from sending to sent, for one id. -/
def confirm (id : MessageId) (m : DecryptedMessage) : DecryptedMessage :=
  if m.id = id ∧ m.status = .sending then { m with status := .sent } else m

theorem entry_confirm (id : MessageId) (m : DecryptedMessage) : entry (confirm id m) = entry m := by
  unfold confirm
  split <;> rfl

theorem insertBroadcast_of_has (h : Tidy prev) (hhas : has prev m.id = true) :
    insertBroadcast prev m = prev.map (confirm m.id) := by
  unfold insertBroadcast
  cases hfind : prev.findIdx? (·.id == m.id) with
  | none =>
      obtain ⟨m', hm', hid⟩ := has_iff.mp hhas
      have hnot := List.findIdx?_eq_none_iff.mp hfind m' hm'
      simp [hid] at hnot
  | some i =>
      obtain ⟨hi, hfound, -⟩ := List.findIdx?_eq_some_iff_getElem.mp hfind
      have hid : prev[i].id = m.id := eq_of_beq hfound
      dsimp only
      refine List.ext_getElem? fun j => ?_
      rw [List.getElem?_modify, List.getElem?_map]
      by_cases hj : i = j
      · subst hj
        rw [List.getElem?_eq_getElem hi]
        simp [confirm, hid]
      · cases hget : prev[j]? with
        | none => simp [hj]
        | some m' =>
            have hne : m'.id ≠ m.id := by
              intro he
              obtain ⟨hjlt, hjget⟩ := List.getElem?_eq_some_iff.mp hget
              have hilen : i < (prev.map (·.id)).length := by simpa using hi
              have hjlen : j < (prev.map (·.id)).length := by simpa using hjlt
              refine hj ((@List.Nodup.getElem_inj_iff _ _ h.ids i hilen j hjlen).mp ?_)
              rw [List.getElem_map, List.getElem_map, hid, hjget, he]
            simp [hj, confirm, hne]

theorem insertBroadcast_of_not_has (hhas : has prev m.id = false) :
    insertBroadcast prev m = sortByTimestamp (prev ++ [m]) := by
  unfold insertBroadcast
  have hfind : prev.findIdx? (·.id == m.id) = none := by
    refine List.findIdx?_eq_none_iff.mpr fun m' hm' => ?_
    by_contra hid
    have htrue : has prev m.id = true := has_iff.mpr ⟨m', hm', by simpa using hid⟩
    rw [hhas] at htrue
    cases htrue
  rw [hfind]

theorem not_shown_of_not_has (hhas : has prev id = false) : ¬ Shown prev id x := by
  rintro ⟨m', hm', hid, -⟩
  rw [has_iff.mpr ⟨m', hm', hid⟩] at hhas
  cases hhas

theorem tidy_insert (h : Tidy prev) (hhas : has prev m.id = false) :
    Tidy (sortByTimestamp (prev ++ [m])) := by
  refine tidy_sort ?_
  rw [List.map_append]
  refine List.Nodup.append h.ids (List.nodup_singleton _) ?_
  intro id hid hid'
  obtain ⟨m', hm', he⟩ := List.mem_map.mp hid
  have htrue := has_iff.mpr ⟨m', hm', he.trans (List.mem_singleton.mp hid')⟩
  rw [hhas] at htrue
  cases htrue

end Lists

end RoomView

end BurnedChats

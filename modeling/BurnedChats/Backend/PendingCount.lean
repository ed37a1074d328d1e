import BurnedChats.Lib.Table
import BurnedChats.Backend.OfflineQueue

/-!
# The counter of pending messages

Next to the offline queues, one list a recipient and session, `MessageRepository`
keeps one counter a recipient. Every operation that changes the length of a queue
adjusts the counter by an amount of its own. `drift` is what the counter is ahead
of the queues, and `step_drift` says what one operation adds to it: nothing, but
for two cases. A push that overflows the queue adds what `LTRIM` drops, and the
removal of a queue's only message adds one: `LREM` has then dropped the key, so
the `DEL` that should lead to the decrement deletes nothing.
-/

namespace BurnedChats

namespace PendingCount

/-- A queued message with the fields that say whose queue it goes to. -/
structure Message extends OfflineQueue.Message where
  sessionId : String
  recipientInternalId : Option String
  recipientId : Option Int
deriving DecidableEq

/-- The recipient's internal id, or else `String.valueOf` of the Telegram id. -/
def Message.recipient (m : Message) : String :=
  match m.recipientInternalId with
  | some r => r
  | none =>
      match m.recipientId with
      | some n => toString n
      | none => "null"

/-- The serializer of the queue entries; both directions may fail. -/
structure ObjectMapper (Json : Type) where
  writeValueAsString : Message → Option Json
  readValue : Json → Option Message

/-! ## The store -/

/-- The queues by recipient and session, and the counters by recipient. -/
structure Store (Json : Type) where
  lists : Table (String × String) (List Json)
  counts : String → Option Int

variable {Json : Type}

namespace Store

def empty : Store Json := ⟨∅, fun _ => none⟩

def range (s : Store Json) (key : String × String) : List Json := (s.lists.lookup key).getD []

/-- A list that becomes empty drops its key. -/
def put (s : Store Json) (key : String × String) (l : List Json) : Store Json :=
  { s with lists := if l.isEmpty then s.lists.erase key else s.lists.insert key l }

def rightPush (s : Store Json) (key : String × String) (json : Json) : Store Json :=
  s.put key (s.range key ++ [json])

/-- What `LTRIM key start -1` leaves; a negative `start` counts from the end. -/
def ltrim (start : Int) (l : List Json) : List Json :=
  if start < 0 then l.drop (l.length + start).toNat else l.drop start.toNat

def trim (s : Store Json) (key : String × String) (start : Int) : Store Json :=
  s.put key (ltrim start (s.range key))

/-- `DEL`, with the number of keys it deleted. -/
def delete (s : Store Json) (key : String × String) : Store Json × Nat :=
  ({ s with lists := s.lists.erase key }, if (s.lists.lookup key).isSome then 1 else 0)

/-- `INCRBY`; an absent counter counts as zero. -/
def increment (s : Store Json) (recipientId : String) (n : Int) : Store Json :=
  { s with counts := fun r =>
      if r = recipientId then some ((s.counts recipientId).getD 0 + n) else s.counts r }

def decrement (s : Store Json) (recipientId : String) (n : Int) : Store Json :=
  s.increment recipientId (-n)

def getPendingCount (s : Store Json) (recipientId : String) : Int :=
  (s.counts recipientId).getD 0

/-- The messages in the recipient's queues, over all sessions. -/
def pending (s : Store Json) (recipientId : String) : Int :=
  Table.sum (fun key l => if key.1 = recipientId then (l.length : Int) else 0) s.lists

/-- What the counter is ahead of the queues. -/
def drift (s : Store Json) (recipientId : String) : Int :=
  s.getPendingCount recipientId - s.pending recipientId

end Store

/-! ## The store's accounts -/

namespace Store

variable {s : Store Json} {r : String} {key : String × String}

@[simp] theorem range_put (s : Store Json) (key : String × String) (l : List Json) :
    (s.put key l).range key = l := by
  unfold put range
  cases l with
  | nil => simp [AList.lookup_erase]
  | cons json l => simp [AList.lookup_insert]

/-- What `key` contributes to the messages pending for `r`. -/
theorem at?_range (s : Store Json) (r : String) (key : String × String) :
    Table.at? (fun k l => if k.1 = r then (l.length : Int) else 0) key s.lists
      = if key.1 = r then ((s.range key).length : Int) else 0 := by
  unfold range
  cases h : s.lists.lookup key with
  | none => rw [Table.at?_none h]; simp
  | some l => rw [Table.at?_some h]; simp

theorem pending_erase (s : Store Json) (r : String) (key : String × String) :
    (Store.mk (s.lists.erase key) s.counts).pending r
      = s.pending r - if key.1 = r then ((s.range key).length : Int) else 0 := by
  have hsplit := Table.sum_split
    (fun k (l : List Json) => if k.1 = r then (l.length : Int) else 0) key s.lists
  rw [at?_range] at hsplit
  simp only [pending]
  omega

theorem pending_put (s : Store Json) (r : String) (key : String × String) (l : List Json) :
    (s.put key l).pending r
      = s.pending r + if key.1 = r then (l.length : Int) - (s.range key).length else 0 := by
  cases l with
  | nil =>
      have herase := pending_erase s r key
      simp only [put, List.isEmpty_nil, if_true, List.length_nil] at herase ⊢
      rw [herase]
      split <;> omega
  | cons json l =>
      have hins := Table.sum_insert_add
        (fun k (l : List Json) => if k.1 = r then (l.length : Int) else 0) key (json :: l) s.lists
      rw [at?_range] at hins
      simp only [put, List.isEmpty_cons, Bool.false_eq_true, if_false, pending]
      split at hins
      all_goals simp_all only [if_true, if_false]
      all_goals omega

theorem drift_put (s : Store Json) (r : String) (key : String × String) (l : List Json) :
    (s.put key l).drift r
      = s.drift r - if key.1 = r then (l.length : Int) - (s.range key).length else 0 := by
  have hcount : (s.put key l).getPendingCount r = s.getPendingCount r := rfl
  rw [drift, drift, pending_put, hcount]
  omega

theorem drift_delete (s : Store Json) (r : String) (key : String × String) :
    (s.delete key).1.drift r
      = s.drift r + if key.1 = r then ((s.range key).length : Int) else 0 := by
  have hcount : (s.delete key).1.getPendingCount r = s.getPendingCount r := rfl
  have hpending : (s.delete key).1.pending r = _ := pending_erase s r key
  rw [drift, drift, hpending, hcount]
  omega

theorem drift_increment (s : Store Json) (r recipientId : String) (n : Int) :
    (s.increment recipientId n).drift r = s.drift r + if recipientId = r then n else 0 := by
  have hpending : (s.increment recipientId n).pending r = s.pending r := rfl
  rw [drift, drift, hpending]
  by_cases hr : recipientId = r
  · subst hr
    simp only [getPendingCount, increment, if_true, Option.getD_some]
    omega
  · simp only [getPendingCount, increment, if_neg hr, if_neg (Ne.symm hr)]
    omega

theorem drift_decrement (s : Store Json) (r recipientId : String) (n : Int) :
    (s.decrement recipientId n).drift r = s.drift r - if recipientId = r then n else 0 := by
  rw [decrement, drift_increment]
  split <;> omega

/-- A list is there exactly if it is not empty, as far as a deletion can tell. -/
theorem range_of_delete_eq_zero (h : (s.delete key).2 = 0) : s.range key = [] := by
  unfold delete at h
  unfold range
  cases hl : s.lists.lookup key with
  | none => rfl
  | some l => rw [hl] at h; cases h

@[simp] theorem delete_put_nil (s : Store Json) (key : String × String) :
    ((s.put key []).delete key).2 = 0 := by
  simp [put, delete, AList.lookup_erase]

/-- What a trim drops, for a start that comes from the size limit. -/
theorem length_ltrim (maxList : Int) (l : List Json) (h : maxList < l.length) :
    ((ltrim (-maxList) l).length : Int) ≤ l.length ∧
      (((ltrim (-maxList) l).length : Int) = l.length ↔ maxList = 0 ∨ l = []) := by
  rw [← List.length_eq_zero_iff]
  unfold ltrim
  split <;> rw [List.length_drop] <;> omega

end Store

/-! ## Operations -/

section Operations

variable [DecidableEq Json] (mapper : ObjectMapper Json) (maxList : Int)

/-- `rightPush`, the trim of an overflow, and one more on the counter. -/
def queueMessage (message : Message) (s : Store Json) : Store Json × Bool :=
  match mapper.writeValueAsString message with
  | none => (s, false)
  | some json =>
      let key := (message.recipient, message.sessionId)
      let pushed := s.rightPush key json
      let trimmed :=
        if maxList < (pushed.range key).length then pushed.trim key (-maxList) else pushed
      (trimmed.increment message.recipient 1, true)

def deleteMessages (recipientId sessionId : String) (s : Store Json) : Store Json × Nat :=
  let count := (s.range (recipientId, sessionId)).length
  let (s', deleted) := s.delete (recipientId, sessionId)
  (if 0 < deleted && 0 < count then s'.decrement recipientId count else s', count)

def hasId (messageId : String) (json : Json) : Bool :=
  match mapper.readValue json with
  | some m => m.messageId == messageId
  | none => false

def updateCountAfterRemove (recipientId : String) (queueKey : String × String) (newSize : Int)
    (s : Store Json) : Store Json :=
  if newSize ≤ 0 then
    let (s', deleted) := s.delete queueKey
    if 0 < deleted then s'.decrement recipientId 1 else s'
  else s.decrement recipientId 1

def removeMessageFromQueue (recipientId sessionId messageId : String) (s : Store Json) :
    Store Json × Option Message :=
  let key := (recipientId, sessionId)
  let jsonList := s.range key
  match jsonList.find? (hasId mapper messageId) with
  | none => (s, none)
  | some json =>
      (updateCountAfterRemove recipientId key (jsonList.length - 1)
        (s.put key (jsonList.erase json)), mapper.readValue json)

/-- An entry a prune keeps: one that parses and is not expired. -/
def isLive (cutoff : Int) (json : Json) : Bool :=
  match mapper.readValue json with
  | some m => !OfflineQueue.isExpired m.toMessage cutoff
  | none => false

/-- Deletes the list and pushes back what is kept; a list with nothing to prune is
left alone. -/
def rewriteQueueKeepingLive (recipientId : Option String) (sessionId : String) (cutoff : Int)
    (s : Store Json) : Store Json :=
  if !Sessions.hasText recipientId then s else
    let key := (recipientId.getD "", sessionId)
    let jsonList := s.range key
    let kept := jsonList.filter (isLive mapper cutoff)
    if kept.length = jsonList.length then s else
      (kept.foldl (fun s json => s.rightPush key json) (s.delete key).1).decrement
        (recipientId.getD "") (jsonList.length - kept.length)

def pruneExpiredMessages (sessionId : String)
    (initiatorInternalId responderInternalId : Option String) (messageTtlSeconds now : Int)
    (s : Store Json) : Store Json :=
  if messageTtlSeconds ≤ 0 then s else
    let cutoff := now - messageTtlSeconds * 1000
    rewriteQueueKeepingLive mapper responderInternalId sessionId cutoff
      (rewriteQueueKeepingLive mapper initiatorInternalId sessionId cutoff s)

def updateMessageInQueue (recipientId sessionId messageId : String)
    (senderInternalId : Option String) (senderId : Option Int) (edit : OfflineQueue.Edit)
    (now : Nat) (s : Store Json) : Store Json × Bool :=
  let key := (recipientId, sessionId)
  let jsonList := s.range key
  match jsonList.findIdx? (hasId mapper messageId),
      (jsonList.find? (hasId mapper messageId)).bind mapper.readValue with
  | some index, some target =>
      if !OfflineQueue.isSenderForEdit target.toMessage senderInternalId senderId then (s, false)
      else if OfflineQueue.isOutsideEditWindow target.serverTimestamp now then (s, false)
      else
        match mapper.writeValueAsString
            { target with toMessage := target.toMessage.edited edit } with
        | none => (s, false)
        | some json => (s.put key (jsonList.set index json), true)
  | _, _ => (s, false)

/-- For each participant the queue's size, as the report of the drop, and the deletion. -/
def dropStaleOfflineQueuesForRekey (sessionId initiatorInternalId responderInternalId : String)
    (s : Store Json) : Store Json × Nat :=
  let (s', initiatorCount) := deleteMessages initiatorInternalId sessionId s
  let (s'', responderCount) := deleteMessages responderInternalId sessionId s'
  (s'', initiatorCount + responderCount)

def deleteAllForSession (sessionId : String) (participantIds : List String) (s : Store Json) :
    Store Json :=
  participantIds.foldl (fun s userId => (deleteMessages userId sessionId s).1) s

inductive Op where
  | queueMessage (message : Message)
  | deleteMessages (recipientId sessionId : String)
  | removeMessageFromQueue (recipientId sessionId messageId : String)
  | pruneExpiredMessages (sessionId : String)
      (initiatorInternalId responderInternalId : Option String) (messageTtlSeconds now : Int)
  | updateMessageInQueue (recipientId sessionId messageId : String)
      (senderInternalId : Option String) (senderId : Option Int) (edit : OfflineQueue.Edit)
      (now : Nat)
  | dropStaleOfflineQueuesForRekey (sessionId initiatorInternalId responderInternalId : String)
  | deleteAllForSession (sessionId : String) (participantIds : List String)

def step (s : Store Json) : Op → Store Json
  | .queueMessage message => (queueMessage mapper maxList message s).1
  | .deleteMessages recipientId sessionId => (deleteMessages recipientId sessionId s).1
  | .removeMessageFromQueue recipientId sessionId messageId =>
      (removeMessageFromQueue mapper recipientId sessionId messageId s).1
  | .pruneExpiredMessages sessionId initiatorInternalId responderInternalId ttl now =>
      pruneExpiredMessages mapper sessionId initiatorInternalId responderInternalId ttl now s
  | .updateMessageInQueue recipientId sessionId messageId senderInternalId senderId edit now =>
      (updateMessageInQueue mapper recipientId sessionId messageId senderInternalId senderId edit
        now s).1
  | .dropStaleOfflineQueuesForRekey sessionId initiatorInternalId responderInternalId =>
      (dropStaleOfflineQueuesForRekey sessionId initiatorInternalId responderInternalId s).1
  | .deleteAllForSession sessionId participantIds =>
      deleteAllForSession sessionId participantIds s

/-- The operations one after another. -/
def run (ops : List Op) : Store Json := ops.foldl (step mapper maxList) .empty

/-- The operation's push for `r` overflows no queue, and its removal for `r` does not
take the only message of one. -/
def Exact (r : String) (s : Store Json) : Op → Prop
  | .queueMessage message =>
      message.recipient = r → (mapper.writeValueAsString message).isSome → maxList = 0 ∨
        ((s.range (message.recipient, message.sessionId)).length : Int) < maxList
  | .removeMessageFromQueue recipientId sessionId messageId =>
      recipientId = r → ¬ ∃ json, s.range (recipientId, sessionId) = [json] ∧
        hasId mapper messageId json = true
  | _ => True

/-- Every operation is exact for `r` in the state it starts from. -/
def AllExact (r : String) : Store Json → List Op → Prop
  | _, [] => True
  | s, op :: ops => Exact mapper maxList r s op ∧ AllExact r (step mapper maxList s op) ops

/-! ## What one operation adds to the drift -/

variable {mapper : ObjectMapper Json} {maxList : Int} {s : Store Json} {r : String}

omit [DecidableEq Json] in
/-- A push never lowers the drift, and leaves it alone exactly if nothing is trimmed. -/
theorem queueMessage_drift (message : Message) :
    s.drift r ≤ (queueMessage mapper maxList message s).1.drift r ∧
      ((queueMessage mapper maxList message s).1.drift r = s.drift r ↔
        Exact mapper maxList r s (.queueMessage message)) := by
  unfold queueMessage Exact
  cases hw : mapper.writeValueAsString message with
  | none => simp [hw]
  | some json =>
      simp only [hw, Option.isSome_some, true_imp_iff]
      by_cases hover : maxList < ((s.rightPush (message.recipient, message.sessionId) json).range
          (message.recipient, message.sessionId)).length
      · have htrim := Store.length_ltrim maxList _ hover
        rw [if_pos hover]
        simp only [Store.rightPush, Store.range_put, List.length_append, List.length_singleton,
          List.append_eq_nil_iff, List.cons_ne_nil, and_false, or_false] at hover htrim
        simp only [Store.drift_increment, Store.trim, Store.drift_put, Store.rightPush,
          Store.range_put, List.length_append, List.length_singleton]
        by_cases hr : message.recipient = r
        · subst hr
          simp only [if_true, true_imp_iff]
          omega
        · simp only [hr, if_false, false_imp_iff, iff_true]
          omega
      · rw [if_neg hover]
        simp only [Store.rightPush, Store.range_put, List.length_append,
          List.length_singleton] at hover
        simp only [Store.drift_increment, Store.rightPush, Store.drift_put, List.length_append,
          List.length_singleton]
        split <;> omega

omit [DecidableEq Json] in
/-- A deletion takes the queue's length off the counter. -/
theorem deleteMessages_drift (recipientId sessionId : String) (s : Store Json) :
    (deleteMessages recipientId sessionId s).1.drift r = s.drift r := by
  unfold deleteMessages
  have hdrift := Store.drift_delete s r (recipientId, sessionId)
  dsimp only at hdrift ⊢
  split
  · rw [Store.drift_decrement, hdrift]
    omega
  · rename_i h
    have hzero : (s.range (recipientId, sessionId)).length = 0 := by
      by_contra hpos
      have hdel := @Store.range_of_delete_eq_zero _ s (recipientId, sessionId)
      simp only [Bool.and_eq_true, decide_eq_true_eq] at h
      rw [hdel (by omega)] at hpos
      exact hpos rfl
    rw [hdrift, hzero]
    split <;> simp

/-- A removal takes one off the counter, but for the only message of a queue: then the
counter stays and the drift grows by one. -/
theorem removeMessageFromQueue_drift (recipientId sessionId messageId : String) :
    s.drift r ≤ (removeMessageFromQueue mapper recipientId sessionId messageId s).1.drift r ∧
      ((removeMessageFromQueue mapper recipientId sessionId messageId s).1.drift r = s.drift r ↔
        Exact mapper maxList r s (.removeMessageFromQueue recipientId sessionId messageId)) := by
  unfold removeMessageFromQueue Exact
  cases hfind : (s.range (recipientId, sessionId)).find? (hasId mapper messageId) with
  | none =>
      have hnone := List.find?_eq_none.mp hfind
      dsimp only
      rw [hfind]
      refine ⟨le_refl _, iff_of_true rfl ?_⟩
      rintro - ⟨json, hl, hid⟩
      exact hnone json (by rw [hl]; exact List.mem_singleton_self _) hid
  | some json =>
      have hmem := List.mem_of_find?_eq_some hfind
      have hlen := List.length_erase_of_mem hmem
      have hpos := List.length_pos_of_mem hmem
      dsimp only
      rw [hfind]
      dsimp only [updateCountAfterRemove]
      by_cases hone : (s.range (recipientId, sessionId)).length = 1
      · have hnil : (s.range (recipientId, sessionId)).erase json = [] :=
          List.length_eq_zero_iff.mp (by omega)
        obtain ⟨only, hl⟩ := List.length_eq_one_iff.mp hone
        obtain rfl : json = only := List.mem_singleton.mp (hl ▸ hmem)
        have hid := List.find?_some hfind
        rw [if_pos (by omega), hnil, Store.delete_put_nil, if_neg (Nat.lt_irrefl 0),
          Store.drift_delete, Store.range_put, Store.drift_put, hl]
        by_cases hr : recipientId = r
        · simp only [if_pos hr, List.length_nil, List.length_singleton]
          refine ⟨by omega, iff_of_false (by omega) fun h => h hr ⟨json, rfl, hid⟩⟩
        · simp [hr]
      · rw [if_neg (by omega), Store.drift_decrement, Store.drift_put]
        have hsingle : ¬ ∃ json, s.range (recipientId, sessionId) = [json] ∧
            hasId mapper messageId json = true := by
          rintro ⟨only, hl, -⟩
          exact hone (by rw [hl]; rfl)
        refine ⟨?_, iff_of_true ?_ fun _ => hsingle⟩
        · split <;> omega
        · split <;> omega

omit [DecidableEq Json] in
theorem drift_foldl_rightPush (key : String × String) (kept : List Json) (s : Store Json) :
    (kept.foldl (fun s json => s.rightPush key json) s).drift r
      = s.drift r - if key.1 = r then (kept.length : Int) else 0 := by
  induction kept generalizing s with
  | nil => simp
  | cons json kept ih =>
      rw [List.foldl_cons, ih, Store.rightPush, Store.drift_put, List.length_append,
        List.length_singleton, List.length_cons]
      split <;> omega

omit [DecidableEq Json] in
/-- A prune takes off the counter what it leaves out of the list. -/
theorem rewriteQueueKeepingLive_drift (recipientId : Option String) (sessionId : String)
    (cutoff : Int) (s : Store Json) :
    (rewriteQueueKeepingLive mapper recipientId sessionId cutoff s).drift r = s.drift r := by
  unfold rewriteQueueKeepingLive
  split
  · rfl
  · dsimp only
    split
    · rfl
    · rw [Store.drift_decrement, drift_foldl_rightPush, Store.drift_delete]
      split <;> omega

omit [DecidableEq Json] in
theorem pruneExpiredMessages_drift (sessionId : String)
    (initiatorInternalId responderInternalId : Option String) (messageTtlSeconds now : Int) :
    (pruneExpiredMessages mapper sessionId initiatorInternalId responderInternalId
      messageTtlSeconds now s).drift r = s.drift r := by
  unfold pruneExpiredMessages
  split
  · rfl
  · rw [rewriteQueueKeepingLive_drift, rewriteQueueKeepingLive_drift]

omit [DecidableEq Json] in
/-- An edit keeps the length of the list. -/
theorem updateMessageInQueue_drift (recipientId sessionId messageId : String)
    (senderInternalId : Option String) (senderId : Option Int) (edit : OfflineQueue.Edit)
    (now : Nat) :
    (updateMessageInQueue mapper recipientId sessionId messageId senderInternalId senderId edit
      now s).1.drift r = s.drift r := by
  unfold updateMessageInQueue
  dsimp only
  split
  · split
    · rfl
    · split
      · rfl
      · split
        · rfl
        · rw [Store.drift_put, List.length_set]
          split <;> omega
  · rfl

omit [DecidableEq Json] in
theorem deleteAllForSession_drift (sessionId : String) (participantIds : List String)
    (s : Store Json) : (deleteAllForSession sessionId participantIds s).drift r = s.drift r := by
  unfold deleteAllForSession
  induction participantIds generalizing s with
  | nil => rfl
  | cons userId participantIds ih => rw [List.foldl_cons, ih, deleteMessages_drift]

/-- No operation lowers the drift, and it stays exactly if the operation is exact. -/
theorem step_drift (mapper : ObjectMapper Json) (maxList : Int) (s : Store Json) (r : String)
    (op : Op) :
    s.drift r ≤ (step mapper maxList s op).drift r ∧
      ((step mapper maxList s op).drift r = s.drift r ↔ Exact mapper maxList r s op) := by
  have same : ∀ {s' : Store Json}, s'.drift r = s.drift r →
      s.drift r ≤ s'.drift r ∧ (s'.drift r = s.drift r ↔ True) := fun h =>
    ⟨by omega, iff_of_true h trivial⟩
  cases op with
  | queueMessage message => exact queueMessage_drift message
  | deleteMessages recipientId sessionId => exact same (deleteMessages_drift ..)
  | removeMessageFromQueue recipientId sessionId messageId =>
      exact removeMessageFromQueue_drift recipientId sessionId messageId
  | pruneExpiredMessages sessionId initiatorInternalId responderInternalId ttl now =>
      exact same (pruneExpiredMessages_drift ..)
  | updateMessageInQueue recipientId sessionId messageId senderInternalId senderId edit now =>
      exact same (updateMessageInQueue_drift ..)
  | dropStaleOfflineQueuesForRekey sessionId initiatorInternalId responderInternalId =>
      refine same ?_
      simp only [step, dropStaleOfflineQueuesForRekey, deleteMessages_drift]
  | deleteAllForSession sessionId participantIds => exact same (deleteAllForSession_drift ..)

/-- The drift of a run, from the drift it starts with. -/
theorem drift_foldl (mapper : ObjectMapper Json) (maxList : Int) (r : String) (ops : List Op)
    (s : Store Json) :
    s.drift r ≤ (ops.foldl (step mapper maxList) s).drift r ∧
      ((ops.foldl (step mapper maxList) s).drift r = s.drift r ↔
        AllExact mapper maxList r s ops) := by
  induction ops generalizing s with
  | nil => exact ⟨le_refl _, iff_of_true rfl trivial⟩
  | cons op ops ih =>
      obtain ⟨hle, hiff⟩ := step_drift mapper maxList s r op
      obtain ⟨hle', hiff'⟩ := ih (step mapper maxList s op)
      rw [List.foldl_cons, AllExact]
      refine ⟨le_trans hle hle', fun h => ?_, fun ⟨h, h'⟩ => ?_⟩
      · have heq : (step mapper maxList s op).drift r = s.drift r := by omega
        exact ⟨hiff.mp heq, hiff'.mp (by omega)⟩
      · rw [hiff'.mpr h', hiff.mpr h]

/-- After any sequence of operations the counter is not negative, and it is the number of
pending messages exactly if every operation was exact. -/
theorem pendingCount_exact (mapper : ObjectMapper Json) (maxList : Int) (ops : List Op)
    (r : String) :
    0 ≤ (run mapper maxList ops).getPendingCount r ∧
      ((run mapper maxList ops).getPendingCount r = (run mapper maxList ops).pending r ↔
        AllExact mapper maxList r .empty ops) := by
  obtain ⟨hle, hiff⟩ := drift_foldl mapper maxList r ops Store.empty
  have hempty : (Store.empty : Store Json).drift r = 0 := rfl
  have hpending : 0 ≤ (run mapper maxList ops).pending r :=
    Table.sum_nonneg fun k l _ => by split <;> omega
  rw [hempty] at hle hiff
  rw [← hiff]
  simp only [Store.drift, run] at hle hpending ⊢
  omega

end Operations

/-! ## Two drifts -/

/-- Entries that are the messages themselves. -/
def plain : ObjectMapper Message := ⟨some, some⟩

def hello (messageId : String) : Message where
  messageId := messageId
  senderInternalId := some "alice"
  senderId := none
  encryptedContent := "c2VjcmV0"
  iv := "aXY="
  clientTimestamp := some 1
  serverTimestamp := some 1
  editedAt := none
  sessionId := "s"
  recipientInternalId := some "bob"
  recipientId := none

/-- A removal of the only message leaves the counter at one, and of two messages in a
queue of at most one the counter counts both. -/
theorem pendingCount_drifts :
    (run plain 100 [.queueMessage (hello "m1"), .removeMessageFromQueue "bob" "s" "m1"]).pending
        "bob" = 0 ∧
      (run plain 100 [.queueMessage (hello "m1"),
        .removeMessageFromQueue "bob" "s" "m1"]).getPendingCount "bob" = 1 ∧
      (run plain 1 [.queueMessage (hello "m1"), .queueMessage (hello "m2")]).pending "bob" = 1 ∧
      (run plain 1 [.queueMessage (hello "m1"),
        .queueMessage (hello "m2")]).getPendingCount "bob" = 2 := by
  decide +kernel

end PendingCount

end BurnedChats

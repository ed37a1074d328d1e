import BurnedChats.Backend.Handshake
import BurnedChats.Backend.LiveSessions
import BurnedChats.Backend.PendingCount
import BurnedChats.Lib.Program

/-!
# Direct messages, their edits and their deletions

The server keeps, for a session, a queue of messages, of edits and of deletions
for each recipient, and for each message id who sent it and when: `dm-editable`
decides on edits, the hash `message-senders` on deletions. A relay writes all of
them, one command after the other, under an id that the sender's client has
chosen.

The requests of `MessageHandler` are programs of single commands, which any
number of participants run at the same time; the rest of the server writes the
session, and keys vanish when they expire or are burned. Beside the store, a log
keeps who has sent what.
-/

namespace BurnedChats

namespace DirectMessages

open Program
open Interleave (Conf Server)
open Sessions (Session nonActiveCode)
open LiveSessions (ParticipantContext)
open Handshake (Parties)
open OfflineQueue (isOutsideEditWindow)
open PendingCount.Store (ltrim)

/-! ## What is stored -/

structure Attachment where
  fileId : Option String := none
  thumbnailFileId : Option String := none
  encryptedMeta : Option String := none
  fileSize : Option Int := none
deriving DecidableEq

structure Message where
  messageId : String
  senderId : Option Int
  senderInternalId : Option String
  recipientId : Option Int
  recipientInternalId : String
  encryptedContent : String
  iv : String
  clientTimestamp : Int
  serverTimestamp : Option Nat
  type : String
  file : Attachment
  replyToMessageId : Option String
  editedAt : Option Int := none
deriving DecidableEq

structure MessageEdit where
  messageId : String
  senderId : Option Int
  encryptedContent : String
  iv : String
  editedAt : Int
deriving DecidableEq

structure MessageDeletion where
  messageId : String
  deletedByTgId : Option Int
  deletedAt : Nat
deriving DecidableEq

structure DmMessageEditableMeta where
  senderInternalId : Option String := none
  senderId : Option Int := none
  serverTimestamp : Option Nat := none
  fileId : Option String := none
  thumbnailFileId : Option String := none
deriving DecidableEq

structure MessageSenderIndexEntry where
  senderInternalId : Option String
  senderId : Option Int
deriving DecidableEq

inductive Event where
  | newMessage (message : Message)
  | messageSent (messageId : String) (serverTimestamp : Nat) (delivered : Bool)
  | sendError (messageId code : String)
  | messageEdited (messageId encryptedContent iv : String) (editedAt : Int)
  | editError (messageId code : String)
  | messageDeleted (messageId : String) (deletedByTgId : Option Int) (deletedAt : Nat)
  | deleteError (messageId code : String)
  | syncMessages (messages : List Message) (deletedIds : List String) (edits : List MessageEdit)
  | syncError (code : String)

/-- The keys of one session, those of a recipient by its internal id; `live` is the
registry of connected users, `burnt` the files that were burned. -/
structure Store where
  now : Nat
  session : Option Session
  live : String → Bool
  messages : String → List Message
  edits : String → List MessageEdit
  deletions : String → List MessageDeletion
  editable : String → Option DmMessageEditableMeta
  senders : String → Option MessageSenderIndexEntry
  burnt : List String
  outbox : List (String × Event)

/-- The commands on one list. -/
inductive ListOp (α : Type) where
  | rightPush (x : α)
  | trim (maxList : Int)
  | set (index : Nat) (x : α)
  | remove (x : α)
  | delete

/-- An index out of range is an error of the command, which changes nothing. -/
def ListOp.apply {α : Type} [DecidableEq α] (l : List α) : ListOp α → List α
  | .rightPush x => l ++ [x]
  | .trim maxList => ltrim (-maxList) l
  | .set index x => l.set index x
  | .remove x => l.erase x
  | .delete => []

inductive Command where
  | save (session : Session)
  | messages (recipientId : String) (op : ListOp Message)
  | edits (recipientId : String) (op : ListOp MessageEdit)
  | deletions (recipientId : String) (op : ListOp MessageDeletion)
  | setEditable (messageId : String) (entry : DmMessageEditableMeta)
  | deleteEditable (messageId : String)
  | putSender (messageId : String) (entry : MessageSenderIndexEntry)
  | removeSender (messageId : String)
  | burnFiles (fileId thumbnailFileId : Option String)
  | send (user : String) (event : Event)

/-- `burnFiles` leaves out blank ids, and a thumbnail that is the file itself. -/
def fileIds (fileId thumbnailFileId : Option String) : List String :=
  ([fileId, thumbnailFileId].reduceOption.filter (!isBlank ·)).dedup

def Store.exec (c : Command) (s : Store) : Store :=
  match c with
  | .save session => { s with session := some session }
  | .messages r op => { s with messages := Function.update s.messages r (op.apply (s.messages r)) }
  | .edits r op => { s with edits := Function.update s.edits r (op.apply (s.edits r)) }
  | .deletions r op =>
      { s with deletions := Function.update s.deletions r (op.apply (s.deletions r)) }
  | .setEditable id entry => { s with editable := Function.update s.editable id (some entry) }
  | .deleteEditable id => { s with editable := Function.update s.editable id none }
  | .putSender id entry => { s with senders := Function.update s.senders id (some entry) }
  | .removeSender id => { s with senders := Function.update s.senders id none }
  | .burnFiles fileId thumbnailFileId =>
      { s with burnt := s.burnt ++ fileIds fileId thumbnailFileId }
  | .send user event => { s with outbox := s.outbox ++ [(user, event)] }

abbrev Prog := Program Store Command

/-! ## The repository -/

/-- The longest that the lists of messages, edits and deletions may get. -/
structure MessagesProperties where
  offlineQueue : Int
  messageEdits : Int
  messageDeletions : Int

def isFileMessage (type : Option String) : Bool := type.any (· ≠ "text")

/-- The sender that is stored with a message is the user: by the internal id, or by
the Telegram id where there is no internal one. -/
def owns (senderInternalId : Option String) (senderId : Option Int) (user : ParticipantContext) :
    Bool :=
  match senderInternalId with
  | some sender => user.internalId.val = sender
  | none => senderId.isSome && user.telegramId ≠ some 0 && user.telegramId = senderId

def isSenderForEdit (target : Message) (editor : ParticipantContext) : Bool :=
  owns target.senderInternalId target.senderId editor

/-- The server's time stamp, or else the client's. -/
def isExpired (cutoff : Int) (m : Message) : Bool :=
  match m.serverTimestamp with
  | some t => (t : Int) < cutoff
  | none => m.clientTimestamp < cutoff

def hasId (messageId : String) (m : Message) : Bool := m.messageId = messageId

namespace MessageRepository

section Lists

variable {α : Type} (list : Store → List α) (command : ListOp α → Command)

/-- `RPUSH`, and `LTRIM` where the list has become too long. -/
def push (maxList : Int) (x : α) : Prog Unit := do
  let size ← call (command (.rightPush x)) fun s => ((list s).length + 1 : Int)
  if maxList < size then write (command (.trim maxList)) else return ()

/-- `DEL`, and what is kept pushed back one by one. -/
def writeBack (kept : List α) : Prog Unit := do
  write (command .delete)
  forEach kept fun x => write (command (.rightPush x))

def rewriteTombstoneList (dropIf : α → Bool) : Prog Unit := do
  let jsonList ← ask list
  let kept := jsonList.filter (!dropIf ·)
  if kept.length = jsonList.length then return () else writeBack command kept

end Lists

variable (props : MessagesProperties)

def queueMessage (m : Message) : Prog Unit :=
  push (·.messages m.recipientInternalId) (.messages m.recipientInternalId) props.offlineQueue m

def queueEdit (recipientId : String) (edit : MessageEdit) : Prog Unit :=
  push (·.edits recipientId) (.edits recipientId) props.messageEdits edit

def queueDeletion (recipientId : String) (deletion : MessageDeletion) : Prog Unit :=
  push (·.deletions recipientId) (.deletions recipientId) props.messageDeletions deletion

def putDmMessageEditableMeta (messageId : String) (sender : ParticipantContext)
    (serverTimestamp : Nat) (fileId thumbnailFileId : Option String) : Prog Unit :=
  write (.setEditable messageId
    { senderInternalId := some sender.internalId.val
      senderId := sender.telegramId
      serverTimestamp := some serverTimestamp
      fileId := fileId.filter (!isBlank ·)
      thumbnailFileId := thumbnailFileId.filter (!isBlank ·) })

def putMessageSenderIndex (messageId : String) (sender : ParticipantContext) : Prog Unit :=
  write (.putSender messageId ⟨some sender.internalId.val, sender.telegramId.filter (· ≠ 0)⟩)

/-- Whether the message was found in the queue and changed there. -/
def updateMessageInQueue (recipientId messageId : String) (editor : ParticipantContext)
    (newEncryptedContent newIv : String) (editedAt : Int) : Prog Bool := do
  let jsonList ← ask (·.messages recipientId)
  match jsonList.zipIdx.find? (hasId messageId ·.1) with
  | none => return false
  | some (target, index) =>
      if !isSenderForEdit target editor then return false
      else
        let now ← ask (·.now)
        if isOutsideEditWindow target.serverTimestamp now then return false
        else
          write (.messages recipientId (.set index
            { target with
              encryptedContent := newEncryptedContent
              iv := newIv
              editedAt := some editedAt }))
          return true

/-- `LREM`, and `DEL` of a list that should be empty now. -/
def removeMessageFromQueue (recipientId messageId : String) : Prog (Option Message) := do
  let jsonList ← ask (·.messages recipientId)
  match jsonList.find? (hasId messageId) with
  | none => return none
  | some m =>
      write (.messages recipientId (.remove m))
      if jsonList.length = 1 then write (.messages recipientId .delete) else .done ()
      return some m

/-- The ids of the messages that are gone. -/
def rewriteQueueKeepingLive (recipientId : Option String) (cutoff : Int) : Prog (List String) :=
  match recipientId.filter (!isBlank ·) with
  | none => return []
  | some recipient => do
      let jsonList ← ask (·.messages recipient)
      if jsonList.any (isExpired cutoff) then
        writeBack (.messages recipient) (jsonList.filter (!isExpired cutoff ·))
        return (jsonList.filter (isExpired cutoff)).map (·.messageId)
      else return []

def removeTombstonesForIds (recipientId : Option String) (prunedIds : List String) : Prog Unit :=
  match recipientId.filter (!isBlank ·) with
  | none => return ()
  | some recipient => do
      rewriteTombstoneList (·.edits recipient) (.edits recipient)
        fun e => prunedIds.contains e.messageId
      rewriteTombstoneList (·.deletions recipient) (.deletions recipient)
        fun d => prunedIds.contains d.messageId

def pruneExpiredMessages (session : Session) (cutoff : Int) : Prog Unit := do
  let prunedA ← rewriteQueueKeepingLive session.initiatorInternalId cutoff
  let prunedB ← rewriteQueueKeepingLive session.responderInternalId cutoff
  if (prunedA ++ prunedB).isEmpty then return ()
  else
    removeTombstonesForIds session.initiatorInternalId (prunedA ++ prunedB)
    removeTombstonesForIds session.responderInternalId (prunedA ++ prunedB)

end MessageRepository

/-! ## The handler -/

structure SendMessageRequest where
  messageId : String
  encryptedContent : String
  iv : String
  timestamp : Int
  type : Option String := none
  file : Attachment := {}
  replyToMessageId : Option String := none
deriving DecidableEq

structure EditMessageRequest where
  messageId : String
  encryptedContent : String
  iv : String
  editedAt : Int
  originalClientTimestamp : Int
deriving DecidableEq

def isMessageSender (message : Message) (participant : ParticipantContext) : Bool :=
  match message.senderInternalId with
  | some sender => sender = participant.internalId.val
  | none => participant.telegramId.isSome && message.senderId = participant.telegramId

def ownsIndexedMessage (entry : MessageSenderIndexEntry) (deleter : ParticipantContext) : Bool :=
  owns entry.senderInternalId entry.senderId deleter

def ownsDeliveredMessage (entry : DmMessageEditableMeta) (editor : ParticipantContext) : Bool :=
  owns entry.senderInternalId entry.senderId editor

/-- More than five minutes ahead of the server, or more than one before the original. -/
def isClientEditTimestampAbusive (originalClient editedAt : Int) (now : Nat) : Bool :=
  (now : Int) + 300000 < editedAt || editedAt < originalClient - 60000

/-- Fields of attachments go with files only. -/
def SendMessageRequest.attachment (request : SendMessageRequest) : Attachment :=
  if isFileMessage request.type then request.file else {}

namespace MessageHandler

open MessageRepository

variable (props : MessagesProperties)

def sendError (sender : ParticipantContext) (messageId errorCode : String) : Prog Unit :=
  write (.send sender.internalId.val (.sendError messageId errorCode))

def sendMessageEditError (editor : ParticipantContext) (messageId errorCode : String) : Prog Unit :=
  write (.send editor.internalId.val (.editError messageId errorCode))

def sendMessageDeletedError (deleter : ParticipantContext) (messageId errorCode : String) :
    Prog Unit :=
  write (.send deleter.internalId.val (.deleteError messageId errorCode))

def sendSyncError (participant : ParticipantContext) (errorCode : String) : Prog Unit :=
  write (.send participant.internalId.val (.syncError errorCode))

def hasLiveStompSession (internalId : String) : Prog Bool := ask (·.live internalId)

/-- `now` is the time at which the chain of the request is put together. -/
def pruneSessionQueues (session : Session) (now : Nat) : Prog Unit :=
  if session.messageTtl ≤ 0 then return ()
  else pruneExpiredMessages session ((now : Int) - session.messageTtl * 1000)

/-! ### Sending -/

/-- The message of a relay, as it is queued; it goes out as an event without a
blank reply. -/
def buildQueuedMessage (sender : ParticipantContext) (recipientInternalId : String)
    (recipientTelegramId : Option Int) (request : SendMessageRequest) (serverTimestamp : Nat) :
    Message where
  messageId := request.messageId
  senderId := sender.telegramId
  senderInternalId := some sender.internalId.val
  recipientId := recipientTelegramId
  recipientInternalId := recipientInternalId
  encryptedContent := request.encryptedContent
  iv := request.iv
  clientTimestamp := request.timestamp
  serverTimestamp := some serverTimestamp
  type := request.type.getD "text"
  file := request.attachment
  replyToMessageId := request.replyToMessageId

def deliverMessageImmediately (sender : ParticipantContext) (recipientInternalId : String)
    (recipientTelegramId : Option Int) (request : SendMessageRequest) (serverTimestamp : Nat) :
    Prog Unit := do
  let message := buildQueuedMessage sender recipientInternalId recipientTelegramId request
    serverTimestamp
  putDmMessageEditableMeta request.messageId sender serverTimestamp
    request.attachment.fileId request.attachment.thumbnailFileId
  putMessageSenderIndex request.messageId sender
  write (.send recipientInternalId (.newMessage
    { message with replyToMessageId := message.replyToMessageId.filter (!isBlank ·) }))
  write (.send sender.internalId.val (.messageSent request.messageId serverTimestamp true))

/-- The message itself is stamped again. -/
def queueMessageForOfflineDelivery (sender : ParticipantContext) (recipientInternalId : String)
    (recipientTelegramId : Option Int) (request : SendMessageRequest) (serverTimestamp : Nat) :
    Prog Unit := do
  let now ← ask (·.now)
  queueMessage props
    (buildQueuedMessage sender recipientInternalId recipientTelegramId request now)
  putDmMessageEditableMeta request.messageId sender serverTimestamp
    request.attachment.fileId request.attachment.thumbnailFileId
  putMessageSenderIndex request.messageId sender
  write (.send sender.internalId.val (.messageSent request.messageId serverTimestamp false))

/-- The answers to a participant of an active session with a peer; `refuse` takes
the error code of any other user. -/
def withPeer (session : Session) (user : ParticipantContext) (refuse : String → Prog Unit)
    (next : String → Prog Unit) : Prog Unit :=
  if !session.isParticipant user.internalId.val then refuse "NOT_PARTICIPANT"
  else if session.status ≠ .active then refuse (nonActiveCode session.status)
  else
    match (session.getPeerInternalId user.internalId.val).filter (!isBlank ·) with
    | none => refuse "INTERNAL_ERROR"
    | some peer => next peer

/-- `fileError` is what is wrong with an attached file. -/
def validateAndRelayMessage (session : Session) (sender : ParticipantContext)
    (request : SendMessageRequest) (fileError : Option String) : Prog Unit :=
  withPeer session sender (sendError sender request.messageId) fun recipientInternalId => do
    let now ← ask (·.now)
    match fileError.filter fun _ => isFileMessage request.type with
    | some errorCode => sendError sender request.messageId errorCode
    | none =>
        let recipientTelegramId :=
          if session.isInitiator sender.internalId.val then session.responderTelegramId
          else session.initiatorTelegramId
        write (.save { session with lastActivityAt := now })
        let serverTimestamp ← ask (·.now)
        if ← hasLiveStompSession recipientInternalId then
          deliverMessageImmediately sender recipientInternalId recipientTelegramId request
            serverTimestamp
        else
          queueMessageForOfflineDelivery props sender recipientInternalId recipientTelegramId
            request serverTimestamp
        pruneSessionQueues session now

def relayMessage (request : SendMessageRequest) (sender : ParticipantContext)
    (fileError : Option String) : Prog Unit := do
  match ← ask (·.session) with
  | none => sendError sender request.messageId "SESSION_NOT_FOUND"
  | some session => validateAndRelayMessage props session sender request fileError

/-! ### Editing -/

def buildMessageEditSuccess (request : EditMessageRequest) : Event :=
  .messageEdited request.messageId request.encryptedContent request.iv request.editedAt

def sendEditSuccessBoth (editor : ParticipantContext) (recipientInternalId : String)
    (request : EditMessageRequest) (recipientOnline : Bool) : Prog Unit := do
  write (.send editor.internalId.val (buildMessageEditSuccess request))
  if recipientOnline then write (.send recipientInternalId (buildMessageEditSuccess request))
  else return ()

/-- What follows where the queue does not have the message. -/
def editDelivered (editor : ParticipantContext) (recipientInternalId : String)
    (request : EditMessageRequest) (recipientLive : Bool) : Prog Unit := do
  match ← ask (·.editable request.messageId) with
  | none => sendMessageEditError editor request.messageId "NOT_EDITABLE"
  | some entry =>
      if !ownsDeliveredMessage entry editor then
        sendMessageEditError editor request.messageId "NOT_OWNER"
      else
        let now ← ask (·.now)
        if isOutsideEditWindow entry.serverTimestamp now then
          sendMessageEditError editor request.messageId "WINDOW_EXPIRED"
        else if recipientLive then sendEditSuccessBoth editor recipientInternalId request true
        else
          queueEdit props recipientInternalId
            ⟨request.messageId, editor.telegramId, request.encryptedContent, request.iv,
              request.editedAt⟩
          write (.send editor.internalId.val (buildMessageEditSuccess request))

def applyDmEdit (session : Session) (editor : ParticipantContext) (request : EditMessageRequest) :
    Prog Unit :=
  withPeer session editor (sendMessageEditError editor request.messageId)
    fun recipientInternalId => do
      let now ← ask (·.now)
      if isClientEditTimestampAbusive request.originalClientTimestamp request.editedAt now then
        sendMessageEditError editor request.messageId "WINDOW_EXPIRED"
      else
        let recipientLive ← hasLiveStompSession recipientInternalId
        let updated ← updateMessageInQueue recipientInternalId request.messageId editor
          request.encryptedContent request.iv request.editedAt
        if updated then sendEditSuccessBoth editor recipientInternalId request recipientLive
        else editDelivered props editor recipientInternalId request recipientLive

def editMessage (request : EditMessageRequest) (editor : ParticipantContext) : Prog Unit := do
  match ← ask (·.session) with
  | none => sendMessageEditError editor request.messageId "NOT_EDITABLE"
  | some session => applyDmEdit props session editor request

/-! ### Deleting -/

inductive OwnershipCode where
  | ok | notAllowed | notFound
deriving DecidableEq

def assertDeleterOwnsMessage (messageId : String) (deleter : ParticipantContext) :
    Prog OwnershipCode := do
  match ← ask (·.senders messageId) with
  | some entry => return if ownsIndexedMessage entry deleter then .ok else .notAllowed
  | none =>
      match ← ask (·.editable messageId) with
      | some entry => return if ownsDeliveredMessage entry deleter then .ok else .notAllowed
      | none => return .notFound

/-- The events go out before anything is removed: they are sent while the chain is
put together. -/
def finalizeDmDelete (deleter : ParticipantContext) (peerInternalId messageId : String) :
    Prog Unit := do
  let deletedAt ← ask (·.now)
  let event := Event.messageDeleted messageId deleter.telegramId deletedAt
  write (.send deleter.internalId.val event)
  let live ← hasLiveStompSession peerInternalId
  if live then write (.send peerInternalId event) else .done ()
  write (.removeSender messageId)
  write (.deleteEditable messageId)
  if live then return ()
  else queueDeletion props peerInternalId ⟨messageId, deleter.telegramId, deletedAt⟩

def finalizeDmDeleteFromQueue (deleter : ParticipantContext) (peerInternalId messageId : String)
    (fromQueue : Message) : Prog Unit := do
  if isFileMessage (some fromQueue.type) then
    write (.burnFiles fromQueue.file.fileId fromQueue.file.thumbnailFileId)
  else .done ()
  finalizeDmDelete props deleter peerInternalId messageId

def finalizeDmDeleteDelivered (deleter : ParticipantContext) (peerInternalId messageId : String)
    (entry : DmMessageEditableMeta) : Prog Unit := do
  if entry.fileId.isSome then write (.burnFiles entry.fileId entry.thumbnailFileId) else .done ()
  finalizeDmDelete props deleter peerInternalId messageId

/-- The queue gives up its message before anybody asks whose it is. -/
def runDmDelete (session : Session) (deleter : ParticipantContext) (messageId : String) :
    Prog Unit :=
  withPeer session deleter (sendMessageDeletedError deleter messageId) fun peerInternalId => do
    match ← removeMessageFromQueue peerInternalId messageId with
    | some removed =>
        if !isMessageSender removed deleter then
          sendMessageDeletedError deleter messageId "NOT_ALLOWED"
        else finalizeDmDeleteFromQueue props deleter peerInternalId messageId removed
    | none =>
        match ← assertDeleterOwnsMessage messageId deleter with
        | .notAllowed => sendMessageDeletedError deleter messageId "NOT_ALLOWED"
        | .notFound => sendMessageDeletedError deleter messageId "NOT_FOUND"
        | .ok =>
            let entry ← ask (·.editable messageId)
            finalizeDmDeleteDelivered props deleter peerInternalId messageId (entry.getD {})

def deleteMessage (messageId : String) (deleter : ParticipantContext) : Prog Unit := do
  match ← ask (·.session) with
  | none => sendMessageDeletedError deleter messageId "NOT_FOUND"
  | some session => runDmDelete props session deleter messageId

/-! ### Handing out -/

/-- The event with what is stored for a recipient; edits of deleted messages are
left out. -/
def syncEvent (messages : List Message) (edits : List MessageEdit)
    (deletions : List MessageDeletion) : Option Event :=
  let deletedIds := deletions.map (·.messageId)
  let syncedEdits := edits.filter fun e => !deletedIds.contains e.messageId
  if messages.isEmpty && syncedEdits.isEmpty && deletedIds.isEmpty then none
  else some (.syncMessages messages deletedIds syncedEdits)

def drain (recipientId : String) : Prog Unit := do
  let messages ← ask (·.messages recipientId)
  let pendingEdits ← ask (·.edits recipientId)
  let deletions ← ask (·.deletions recipientId)
  match syncEvent messages pendingEdits deletions with
  | none => return ()
  | some event =>
      write (.send recipientId event)
      if messages.isEmpty then .done () else write (.messages recipientId .delete)
      if pendingEdits.isEmpty then .done () else write (.edits recipientId .delete)
      if deletions.isEmpty then .done () else write (.deletions recipientId .delete)

def syncMessages (participant : ParticipantContext) : Prog Unit := do
  match ← ask (·.session) with
  | none => sendSyncError participant "SESSION_NOT_FOUND"
  | some session =>
      if !session.isParticipant participant.internalId.val then
        sendSyncError participant "NOT_PARTICIPANT"
      else
        let now ← ask (·.now)
        pruneSessionQueues session now
        drain participant.internalId.val

end MessageHandler

/-- `WebSocketEventListener.pushPendingMessagesForSession`: on connecting, without
draining. -/
def pushPendingMessagesForSession (internalId : String) : Prog Unit := do
  let messages ← ask (·.messages internalId)
  let pendingEdits ← ask (·.edits internalId)
  let deletions ← ask (·.deletions internalId)
  match MessageHandler.syncEvent messages pendingEdits deletions with
  | none => return ()
  | some event => write (.send internalId event)

/-- `SessionHandler.applySessionMessageTtl`, once the session has the new limit. -/
def applySessionMessageTtl (caller : ParticipantContext) (ttl : Int) : Prog Unit := do
  match ← ask (·.session) with
  | none => return ()
  | some session =>
      if !session.isParticipant caller.internalId.val || session.status ≠ .active then return ()
      else
        let now ← ask (·.now)
        MessageHandler.pruneSessionQueues { session with messageTtl := ttl } now

/-! ## Runs -/

inductive Op where
  | relayMessage (request : SendMessageRequest) (sender : ParticipantContext)
      (fileError : Option String)
  | editMessage (request : EditMessageRequest) (editor : ParticipantContext)
  | deleteMessage (messageId : String) (deleter : ParticipantContext)
  | syncMessages (participant : ParticipantContext)
  | pushPendingMessagesForSession (internalId : String)
  | applySessionMessageTtl (caller : ParticipantContext) (ttl : Int)

def Op.program (props : MessagesProperties) : Op → Prog Unit
  | .relayMessage request sender fileError =>
      MessageHandler.relayMessage props request sender fileError
  | .editMessage request editor => MessageHandler.editMessage props request editor
  | .deleteMessage messageId deleter => MessageHandler.deleteMessage props messageId deleter
  | .syncMessages participant => MessageHandler.syncMessages participant
  | .pushPendingMessagesForSession id => DirectMessages.pushPendingMessagesForSession id
  | .applySessionMessageTtl caller ttl => DirectMessages.applySessionMessageTtl caller ttl

def Op.user : Op → String
  | .relayMessage _ sender _ => sender.internalId.val
  | .editMessage _ editor => editor.internalId.val
  | .deleteMessage _ deleter => deleter.internalId.val
  | .syncMessages participant => participant.internalId.val
  | .pushPendingMessagesForSession id => id
  | .applySessionMessageTtl caller _ => caller.internalId.val

/-- An edit or a deletion. -/
def Op.alters : Op → Bool
  | .editMessage .. => true
  | .deleteMessage .. => true
  | _ => false

inductive Key where
  | messages (recipientId : String)
  | edits (recipientId : String)
  | deletions (recipientId : String)
  | editable (messageId : String)
  | senders

def Store.expire (key : Key) (s : Store) : Store :=
  match key with
  | .messages r => { s with messages := Function.update s.messages r [] }
  | .edits r => { s with edits := Function.update s.edits r [] }
  | .deletions r => { s with deletions := Function.update s.deletions r [] }
  | .editable id => { s with editable := Function.update s.editable id none }
  | .senders => { s with senders := fun _ => none }

/-- The record names no other participants. -/
def ofParties (parties : Parties) (session : Session) : Bool :=
  session.initiatorInternalId.all (· = parties.initiator)
    && session.responderInternalId.all (· = parties.responder)

/-- The rest of the server: other handlers write the session, and keys go when they
expire, with a burn, or with a new key of the session. -/
inductive Move where
  | tick (ms : Nat)
  | registry (user : String) (connected : Bool)
  | session (session : Option Session)
  | expire (key : Key)

def move (parties : Parties) (m : Move) (s : Store) : Option Store :=
  match m with
  | .tick ms => some { s with now := s.now + ms }
  | .registry user connected => some { s with live := Function.update s.live user connected }
  | .session session =>
      if session.all (ofParties parties) then some { s with session := session } else none
  | .expire key => some (s.expire key)

/-- What a user has sent under an id, with the files that went along. -/
structure Sent where
  sender : String
  messageId : String
  files : List String

def Attachment.files (a : Attachment) : List String := fileIds a.fileId a.thumbnailFileId

def Command.stores (messageId : String) : Command → Bool
  | .messages _ (.rightPush m) => m.messageId = messageId
  | .setEditable id _ => id = messageId
  | .putSender id _ => id = messageId
  | _ => false

abbrev DmCall := Call Op Store Command Unit

/-- A message counts as sent with the first command that stores any of it. -/
def note (op : Op) (command : Command) (sent : List Sent) : List Sent :=
  match op with
  | .relayMessage request sender _ =>
      if command.stores request.messageId then
        ⟨sender.internalId.val, request.messageId, request.attachment.files⟩ :: sent
      else sent
  | _ => sent

def record (p : DmCall) (_ : Store) (sent : List Sent) : List Sent :=
  match p.command? with
  | some (op, command) => note op command sent
  | none => sent

def server (props : MessagesProperties) (parties : Parties) :
    Server (Store × List Sent) DmCall Move :=
  (Call.server Store.exec (Op.program props) (move parties)).recording record

abbrev State := Conf (Store × List Sent) DmCall

def Store.empty : Store where
  now := 0
  session := none
  live _ := false
  messages _ := []
  edits _ := []
  deletions _ := []
  editable _ := none
  senders _ := none
  burnt := []
  outbox := []

def start : State := ⟨(.empty, []), []⟩

/-! ## Pruning and handing out -/

/-- A condition on commands that admits pruning: of the keys that it deletes, and of
what it has read and pushes back. -/
structure Prunes (I : Store → Prop) (φ : Command → Prop) : Prop where
  deleteMessages : ∀ r, φ (.messages r .delete)
  deleteEdits : ∀ r, φ (.edits r .delete)
  deleteDeletions : ∀ r, φ (.deletions r .delete)
  pushMessage : ∀ s, I s → ∀ r, ∀ m ∈ s.messages r, φ (.messages r (.rightPush m))
  pushEdit : ∀ s, I s → ∀ r, ∀ e ∈ s.edits r, φ (.edits r (.rightPush e))
  pushDeletion : ∀ s, I s → ∀ r, ∀ d ∈ s.deletions r, φ (.deletions r (.rightPush d))

section Lists

variable {I : Store → Prop} {φ : Command → Prop} {α : Type} {list : Store → List α}
  {command : ListOp α → Command}

theorem push_ensures {maxList : Int} {x : α} (hpush : φ (command (.rightPush x)))
    (htrim : φ (command (.trim maxList))) :
    (MessageRepository.push list command maxList x).Ensures I φ fun _ => True := by
  simp only [MessageRepository.push, ensures_bind, ensures_call, ensures_ite, ensures_write,
    pure_eq, ensures_done]
  exact ⟨hpush, fun s _ => ⟨fun _ => ⟨htrim, fun _ _ => trivial⟩, fun _ => trivial⟩⟩

theorem writeBack_ensures {kept : List α} (hdelete : φ (command .delete))
    (hpush : ∀ x ∈ kept, φ (command (.rightPush x))) :
    (MessageRepository.writeBack command kept).Ensures I φ fun _ => True := by
  simp only [MessageRepository.writeBack, ensures_bind, ensures_write]
  exact ⟨hdelete, fun _ _ =>
    ensures_forEach (fun x hx => ⟨hpush x hx, fun _ _ => trivial⟩) trivial⟩

theorem rewriteTombstoneList_ensures {dropIf : α → Bool} (hdelete : φ (command .delete))
    (hpush : ∀ s, I s → ∀ x ∈ list s, φ (command (.rightPush x))) :
    (MessageRepository.rewriteTombstoneList list command dropIf).Ensures I φ fun _ => True := by
  simp only [MessageRepository.rewriteTombstoneList, ensures_bind, ensures_ask, ensures_ite,
    pure_eq, ensures_done]
  exact fun s hs => ⟨fun _ => trivial, fun _ => writeBack_ensures hdelete fun x hx =>
    hpush s hs x (List.mem_filter.mp hx).1⟩

end Lists

section Prunes

variable {I : Store → Prop} {φ : Command → Prop}

theorem rewriteQueueKeepingLive_ensures (h : Prunes I φ) (recipientId : Option String)
    (cutoff : Int) :
    (MessageRepository.rewriteQueueKeepingLive recipientId cutoff).Ensures I φ
      fun _ => True := by
  unfold MessageRepository.rewriteQueueKeepingLive
  split
  · trivial
  · intro s hs
    refine (ensures_ite ..).mpr ⟨fun _ => ?_, fun _ => trivial⟩
    refine Ensures.bind (R := fun _ => True) ?_ fun _ _ => trivial
    exact writeBack_ensures (h.deleteMessages _) fun m hm =>
      h.pushMessage s hs _ m (List.mem_filter.mp hm).1

theorem removeTombstonesForIds_ensures (h : Prunes I φ) (recipientId : Option String)
    (prunedIds : List String) :
    (MessageRepository.removeTombstonesForIds recipientId prunedIds).Ensures I φ
      fun _ => True := by
  unfold MessageRepository.removeTombstonesForIds
  split
  · trivial
  · refine Ensures.bind (R := fun _ => True) ?_ fun _ _ => ?_
    · exact rewriteTombstoneList_ensures (h.deleteEdits _) fun s hs => h.pushEdit s hs _
    · exact rewriteTombstoneList_ensures (h.deleteDeletions _) fun s hs => h.pushDeletion s hs _

theorem pruneSessionQueues_ensures (h : Prunes I φ) (session : Session) (now : Nat) :
    (MessageHandler.pruneSessionQueues session now).Ensures I φ fun _ => True := by
  unfold MessageHandler.pruneSessionQueues MessageRepository.pruneExpiredMessages
  refine (ensures_ite ..).mpr ⟨fun _ => trivial, fun _ => ?_⟩
  refine (rewriteQueueKeepingLive_ensures h _ _).bind fun _ _ => ?_
  refine (rewriteQueueKeepingLive_ensures h _ _).bind fun _ _ => ?_
  refine (ensures_ite ..).mpr ⟨fun _ => trivial, fun _ => ?_⟩
  exact (removeTombstonesForIds_ensures h _ _).bind fun _ _ =>
    removeTombstonesForIds_ensures h _ _

theorem drain_ensures (h : Prunes I φ) {recipient : String}
    (hsend : ∀ s₁ s₂ s₃, I s₁ → I s₂ → I s₃ → ∀ event ∈ MessageHandler.syncEvent
      (s₁.messages recipient) (s₂.edits recipient) (s₃.deletions recipient),
      φ (.send recipient event)) :
    (MessageHandler.drain recipient).Ensures I φ fun _ => True := by
  simp only [MessageHandler.drain, ensures_bind, ensures_ask]
  intro s₁ h₁ s₂ h₂ s₃ h₃
  split
  · trivial
  rename_i event hevent
  simp only [ensures_bind, ensures_write, ensures_ite, ensures_done]
  refine ⟨hsend s₁ s₂ s₃ h₁ h₂ h₃ event hevent, fun _ _ => ?_⟩
  simp [h.deleteMessages, h.deleteEdits, h.deleteDeletions]

theorem withPeer_ensures {session : Session} {user : ParticipantContext}
    {refuse : String → Prog Unit} {next : String → Prog Unit} {Q : Unit → Prop}
    (hrefuse : ∀ code, (refuse code).Ensures I φ Q) (hnext : ∀ peer, (next peer).Ensures I φ Q) :
    (MessageHandler.withPeer session user refuse next).Ensures I φ Q := by
  unfold MessageHandler.withPeer
  repeat' split
  · exact hrefuse _
  · exact hrefuse _
  · exact hrefuse _
  · exact hnext _

end Prunes

end DirectMessages

end BurnedChats

import BurnedChats.Backend.WalletProof

/-!
# Sessions in Redis and the handlers that write them

A session is one hash, `session:{id}`. Every handler starts by reading it,
decides on what it read, and then issues commands of its own: single fields by
`HSET`, the whole record by `save`, a deletion. `HSET` and `save` create a
missing hash.

A request is what is left of a handler: the commands it has already decided
on (`todo`) and, after them, the next read of the session (`next`). `found` is
the text of the handlers, one read at a time: what is decided on the session
just read. Between any two commands other requests may run. Commands on other
keys (files, offline queues, chat requests, users) are `elsewhere`; events to
the participants go to the `outbox`.
-/

namespace BurnedChats

open Interleave

namespace Sessions

/-! ## The record and the hash -/

inductive SessionStatus where
  | pending | handshake | active | burned | expired
deriving DecidableEq

inductive Role where
  | initiator | responder
deriving DecidableEq

def Role.peer : Role → Role
  | .initiator => .responder
  | .responder => .initiator

structure Session where
  id : Option String
  initiatorInternalId : Option String
  initiatorTelegramId : Option Int
  responderInternalId : Option String
  responderTelegramId : Option Int
  status : SessionStatus
  createdAt : Nat
  lastActivityAt : Nat
  handshakeCompletedAt : Option Nat
  initiatorVerified : Bool
  responderVerified : Bool
  secretQuestion : Option String
  secretAnswerHash : Option String
  initiatorPublicKey : Option String
  responderPublicKey : Option String
  messageTtl : Int

/-- The fields of the hash; an absent one is `none`. -/
structure SessionHash where
  id : Option String := none
  initiatorInternalId : Option String := none
  initiatorTelegramId : Option Int := none
  initiatorId : Option Int := none
  responderInternalId : Option String := none
  responderTelegramId : Option Int := none
  responderId : Option Int := none
  status : Option SessionStatus := none
  createdAt : Option Nat := none
  lastActivityAt : Option Nat := none
  handshakeCompletedAt : Option Nat := none
  initiatorVerified : Option Bool := none
  responderVerified : Option Bool := none
  secretQuestion : Option String := none
  secretAnswerHash : Option String := none
  initiatorPublicKey : Option String := none
  responderPublicKey : Option String := none
  messageTtl : Option Int := none
deriving DecidableEq

/-- `HSET`: the given fields replace the stored ones. -/
def SessionHash.merge (fields old : SessionHash) : SessionHash where
  id := fields.id <|> old.id
  initiatorInternalId := fields.initiatorInternalId <|> old.initiatorInternalId
  initiatorTelegramId := fields.initiatorTelegramId <|> old.initiatorTelegramId
  initiatorId := fields.initiatorId <|> old.initiatorId
  responderInternalId := fields.responderInternalId <|> old.responderInternalId
  responderTelegramId := fields.responderTelegramId <|> old.responderTelegramId
  responderId := fields.responderId <|> old.responderId
  status := fields.status <|> old.status
  createdAt := fields.createdAt <|> old.createdAt
  lastActivityAt := fields.lastActivityAt <|> old.lastActivityAt
  handshakeCompletedAt := fields.handshakeCompletedAt <|> old.handshakeCompletedAt
  initiatorVerified := fields.initiatorVerified <|> old.initiatorVerified
  responderVerified := fields.responderVerified <|> old.responderVerified
  secretQuestion := fields.secretQuestion <|> old.secretQuestion
  secretAnswerHash := fields.secretAnswerHash <|> old.secretAnswerHash
  initiatorPublicKey := fields.initiatorPublicKey <|> old.initiatorPublicKey
  responderPublicKey := fields.responderPublicKey <|> old.responderPublicKey
  messageTtl := fields.messageTtl <|> old.messageTtl

/-- `sessionToMap`. -/
def Session.toMap (s : Session) : SessionHash where
  id := s.id
  initiatorInternalId := s.initiatorInternalId
  initiatorTelegramId := s.initiatorTelegramId
  initiatorId := s.initiatorTelegramId
  responderInternalId := s.responderInternalId
  responderTelegramId := s.responderTelegramId
  responderId := s.responderTelegramId
  status := some s.status
  createdAt := some s.createdAt
  lastActivityAt := some s.lastActivityAt
  handshakeCompletedAt := s.handshakeCompletedAt
  initiatorVerified := some s.initiatorVerified
  responderVerified := some s.responderVerified
  secretQuestion := s.secretQuestion
  secretAnswerHash := s.secretAnswerHash
  initiatorPublicKey := s.initiatorPublicKey
  responderPublicKey := s.responderPublicKey
  messageTtl := some s.messageTtl

/-- `pendingTtl` in milliseconds; `forTelegramId` is the name-based identifier
of a Telegram user. -/
structure Config where
  pendingTtl : Nat
  forTelegramId : Int → String

/-- `StringUtils.hasText`. -/
def hasText (s : Option String) : Bool := s.any fun s => !isBlank s

/-- The internal identifier of a participant, from the Telegram one where it is
missing or blank. -/
def Config.internalId (cfg : Config) (internalId : Option String) (telegramId : Option Int) :
    Option String :=
  if hasText internalId then internalId
  else match telegramId with
    | some t => some (cfg.forTelegramId t)
    | none => internalId

/-- `mapToSession`. -/
def Config.mapToSession (cfg : Config) (now : Nat) (h : SessionHash) : Session where
  id := h.id
  initiatorInternalId :=
    cfg.internalId h.initiatorInternalId (h.initiatorTelegramId <|> h.initiatorId)
  initiatorTelegramId := h.initiatorTelegramId <|> h.initiatorId
  responderInternalId :=
    cfg.internalId h.responderInternalId (h.responderTelegramId <|> h.responderId)
  responderTelegramId := h.responderTelegramId <|> h.responderId
  status := h.status.getD .pending
  createdAt := h.createdAt.getD now
  lastActivityAt := h.lastActivityAt.getD now
  handshakeCompletedAt := h.handshakeCompletedAt
  initiatorVerified := h.initiatorVerified.getD false
  responderVerified := h.responderVerified.getD false
  secretQuestion := h.secretQuestion
  secretAnswerHash := h.secretAnswerHash
  initiatorPublicKey := h.initiatorPublicKey
  responderPublicKey := h.responderPublicKey
  messageTtl := h.messageTtl.getD 0

namespace Session

def isInitiator (s : Session) (user : String) : Bool := s.initiatorInternalId == some user

def isResponder (s : Session) (user : String) : Bool := s.responderInternalId == some user

def isParticipant (s : Session) (user : String) : Bool := s.isInitiator user || s.isResponder user

def getPeerInternalId (s : Session) (user : String) : Option String :=
  if s.isInitiator user then s.responderInternalId
  else if s.isResponder user then s.initiatorInternalId
  else none

def getPublicKeyForUser (s : Session) (user : String) : Option String :=
  if s.isInitiator user then s.initiatorPublicKey
  else if s.isResponder user then s.responderPublicKey
  else none

def areBothKeysReady (s : Session) : Bool :=
  s.initiatorPublicKey.isSome && s.responderPublicKey.isSome

def verified (s : Session) : Role → Bool
  | .initiator => s.initiatorVerified
  | .responder => s.responderVerified

/-- `isExpired(pendingTtl)`; other sessions live for an hour. -/
def isExpired (s : Session) (pendingTtl now : Nat) : Bool :=
  let ttl := if s.status = .pending then pendingTtl else 3600000
  s.createdAt + ttl < now

end Session

/-! ## Commands -/

/-- Events to a participant; a verification event may leave fields out. -/
inductive Event where
  | peerPublicKey (key : String)
  | keyRefresh
  | verification (verified peerVerified bothVerified : Option Bool)
  | mismatch
  | error (code : String)
  | notice

/-- `elsewhere` stands for a command on another key; `delete burn` tells the
deletion of a burn from that of a clean-up. -/
inductive Command where
  | save (session : Session)
  | setStatus (status : SessionStatus)
  | setLastActivity (at_ : Nat)
  | setPublicKey (role : Role) (key : String)
  | setHandshakeCompleted (at_ : Nat)
  | setVerified (role : Role) (verified : Bool)
  | setMessageTtl (seconds : Int)
  | clearPublicKeys
  | expire
  | delete (burn : Bool)
  | send (recipient : String) (event : Event)
  | elsewhere

/-- The fields a command writes; such a command creates a missing hash. -/
def Command.fields : Command → Option SessionHash
  | .save session => some session.toMap
  | .setStatus status => some { status := some status }
  | .setLastActivity at_ => some { lastActivityAt := some at_ }
  | .setPublicKey .initiator key => some { initiatorPublicKey := some key }
  | .setPublicKey .responder key => some { responderPublicKey := some key }
  | .setHandshakeCompleted at_ => some { handshakeCompletedAt := some at_ }
  | .setVerified .initiator verified => some { initiatorVerified := some verified }
  | .setVerified .responder verified => some { responderVerified := some verified }
  | .setMessageTtl seconds => some { messageTtl := some seconds }
  | .clearPublicKeys => none
  | .expire => none
  | .delete _ => none
  | .send _ _ => none
  | .elsewhere => none

/-- `burned` remembers that a burn has deleted the key. -/
structure Store where
  now : Nat
  hash : Option SessionHash
  outbox : List (String × Event)
  burned : Bool

/-- `HDEL` of both keys; a hash that loses its last field is gone. -/
def SessionHash.clearPublicKeys (h : SessionHash) : Option SessionHash :=
  let h' := { h with initiatorPublicKey := none, responderPublicKey := none }
  if h' = {} then none else some h'

def Store.exec (s : Store) (c : Command) : Store :=
  match c.fields with
  | some fields => { s with hash := some (fields.merge (s.hash.getD {})) }
  | none =>
      match c with
      | .clearPublicKeys => { s with hash := s.hash.bind SessionHash.clearPublicKeys }
      | .delete burn => { s with hash := none, burned := s.burned || burn }
      | .send recipient event => { s with outbox := s.outbox ++ [(recipient, event)] }
      | _ => s

/-! ## Handlers -/

/-- What a handler does with the session it is about to read. `setPublicKey` and
`afterPublicKey` are the two reads of `setPublicKeyAtomic`, `updateVerification`
and `emitConfirmation` those of a confirmation. For `accept`, `request` is what
is stored of the chat request (whether it asks a question) and `answerHash` the
digest of the answer given; for `sendMessage`, `fileError` is what is wrong with
an attached file. -/
inductive Handler where
  | accept (responder : String) (request : Option Bool) (answerHash : Option String)
  | reject (responder : String)
  | relayKey (sender key : String)
  | setPublicKey (sender key : String) (status : SessionStatus) (peer : Option String)
  | afterPublicKey (sender : String) (status : SessionStatus) (peer : Option String)
  | confirm (user : String)
  | updateVerification (user : String) (peerVerifiedBefore : Bool)
  | emitConfirmation (user : String) (peerVerifiedBefore : Bool)
  | mismatch (reporter : String)
  | sendMessage (sender : String) (fileError : Option String)
  | resume (user : String)
  | listSessions (user : String)
  | setMessageTtl (user : String) (seconds : Int)
  | burn (user : String)
  | burnAll (user : String)

/-- Places where a request may start. -/
def Handler.opens : Handler → Bool
  | .setPublicKey .. => false
  | .afterPublicKey .. => false
  | .updateVerification .. => false
  | .emitConfirmation .. => false
  | _ => true

def sendTo (recipient : Option String) (event : Event) : List Command :=
  if hasText recipient then [.send (recipient.getD "") event] else []

def fail (user code : String) : List Command × Option Handler := ([.send user (.error code)], none)

/-- `acceptSession`, from the look-up of the chat request on. -/
def acceptRefused (s : Session) (request : Option Bool) (answerHash : Option String) :
    Option String :=
  match request with
  | none => some "REQUEST_EXPIRED"
  | some false => none
  | some true =>
      match answerHash with
      | none => some "ANSWER_REQUIRED"
      | some given =>
          match s.secretAnswerHash with
          | none => some "INTERNAL_ERROR"
          | some expected =>
              if isBlank expected then some "INTERNAL_ERROR"
              else if given = expected then none else some "WRONG_ANSWER"

/-- `errorCodeForNonActiveMessageSession`. -/
def nonActiveCode : SessionStatus → String
  | .pending => "SESSION_PENDING"
  | .handshake => "SESSION_HANDSHAKE"
  | .burned => "SESSION_BURNED"
  | .expired => "SESSION_EXPIRED"
  | .active => "INVALID_STATUS"

/-- `doBurnSession` and `burnSingleSession`. -/
def burnCommands (s : Session) (now : Nat) : List Command :=
  ([.setStatus .burned, .setLastActivity now, .elsewhere, .elsewhere, .delete true] : List Command)
    ++ sendTo s.initiatorInternalId .notice ++ sendTo s.responderInternalId .notice

/-- `afterPublicKeyAtomic`, on the session re-read after the key was stored. -/
def afterPublicKeyAtomic (s : Session) (now : Nat) (status : SessionStatus)
    (peer : Option String) : List Command :=
  match s.initiatorPublicKey, s.responderPublicKey with
  | some initiatorKey, some responderKey =>
      sendTo s.initiatorInternalId (.peerPublicKey responderKey)
        ++ sendTo s.responderInternalId (.peerPublicKey initiatorKey)
        ++ (if status = .active then [.elsewhere] else [])
        ++ [.clearPublicKeys, .setStatus .active, .setHandshakeCompleted now,
          .setLastActivity now]
  | _, _ => if status = .active then sendTo peer .keyRefresh else []

def Config.found (cfg : Config) (now : Nat) :
    Handler → Option Session → List Command × Option Handler
  | .accept responder request answerHash, some s =>
      if !s.isResponder responder then fail responder "NOT_RESPONDER"
      else if s.status ≠ .pending then
        fail responder
          (if s.status = .handshake ∨ s.status = .active then "ALREADY_ACCEPTED"
            else "SESSION_EXPIRED")
      else
        match acceptRefused s request answerHash with
        | some code => ([.elsewhere, .send responder (.error code)], none)
        | none =>
            ([.elsewhere, .save { s with status := .handshake, lastActivityAt := now }, .expire,
              .elsewhere, .elsewhere] ++ sendTo s.initiatorInternalId .notice
              ++ [.send responder .notice], none)
  | .accept responder _ _, none => fail responder "SESSION_NOT_FOUND"
  | .reject responder, some s =>
      if !s.isResponder responder || s.status ≠ .pending then ([], none)
      else ([.setStatus .expired, .setLastActivity now, .elsewhere]
        ++ sendTo s.initiatorInternalId .notice, none)
  | .reject _, none => ([], none)
  | .relayKey sender key, some s =>
      if !s.isParticipant sender then fail sender "NOT_PARTICIPANT"
      else if s.status ≠ .handshake ∧ s.status ≠ .active then
        fail sender
          (if s.status = .pending then "SESSION_NOT_ACCEPTED"
            else if s.status = .burned then "SESSION_BURNED" else "INVALID_STATUS")
      else if (s.getPublicKeyForUser sender).isSome && s.areBothKeysReady then ([], none)
      else ([], some (.setPublicKey sender key s.status (s.getPeerInternalId sender)))
  | .relayKey sender _, none => fail sender "SESSION_NOT_FOUND"
  | .setPublicKey sender key status peer, some s =>
      if s.isInitiator sender then
        ([.setPublicKey .initiator key, .setLastActivity now],
          some (.afterPublicKey sender status peer))
      else if s.isResponder sender then
        ([.setPublicKey .responder key, .setLastActivity now],
          some (.afterPublicKey sender status peer))
      else ([], none)
  | .setPublicKey .., none => ([], none)
  | .afterPublicKey _ status peer, some s => (afterPublicKeyAtomic s now status peer, none)
  | .afterPublicKey .., none => ([], none)
  | .confirm user, some s =>
      if !s.isParticipant user then fail user "NOT_PARTICIPANT"
      else if s.status ≠ .active ∧ s.status ≠ .handshake then
        fail user
          (if s.status = .burned then "SESSION_BURNED"
            else if s.status = .pending then "SESSION_NOT_READY" else "SESSION_NOT_ACTIVE")
      else ([], some (.updateVerification user
        (if s.isInitiator user then s.responderVerified else s.initiatorVerified)))
  | .confirm user, none => fail user "SESSION_NOT_FOUND"
  | .updateVerification user before, some s =>
      let role := if s.isInitiator user then Role.initiator else .responder
      ([.setVerified role true, .setLastActivity now, .expire],
        some (.emitConfirmation user before))
  | .updateVerification user _, none => fail user "INTERNAL_ERROR"
  | .emitConfirmation user before, some s =>
      let bothVerified := s.initiatorVerified && s.responderVerified
      (.send user (.verification (some true) (some before) (some before))
        :: sendTo (s.getPeerInternalId user)
          (.verification none (some true) (some bothVerified)), none)
  | .emitConfirmation .., none => ([], none)
  | .mismatch reporter, some s =>
      if s.isParticipant reporter then
        (.send reporter .mismatch :: sendTo (s.getPeerInternalId reporter) .mismatch, none)
      else ([], none)
  | .mismatch _, none => ([], none)
  | .sendMessage sender fileError, some s =>
      if !s.isParticipant sender then fail sender "NOT_PARTICIPANT"
      else if s.status ≠ .active then fail sender (nonActiveCode s.status)
      else if !hasText (s.getPeerInternalId sender) then fail sender "INTERNAL_ERROR"
      else
        match fileError with
        | some code => ([.elsewhere, .send sender (.error code)], none)
        | none => ([.elsewhere, .save { s with lastActivityAt := now }, .expire, .elsewhere,
            .elsewhere], none)
  | .sendMessage sender _, none => fail sender "SESSION_NOT_FOUND"
  | .resume user, some s =>
      if !s.isParticipant user then fail user "NOT_PARTICIPANT"
      else if s.status = .burned then fail user "SESSION_BURNED"
      else if s.status = .expired || s.isExpired cfg.pendingTtl now then
        ([.setStatus .expired, .setLastActivity now]
          ++ (if s.status = .pending then [.delete false] else [])
          ++ [.send user .notice], none)
      else ([.setLastActivity now, .expire, .elsewhere, .send user .notice], none)
  | .resume user, none => fail user "SESSION_NOT_FOUND"
  | .listSessions user, some s =>
      if s.isParticipant user && s.status ≠ .burned && s.status ≠ .expired
          && s.isExpired cfg.pendingTtl now then
        ([.setStatus .expired, .setLastActivity now, .delete false], none)
      else ([], none)
  | .listSessions _, none => ([], none)
  | .setMessageTtl user seconds, some s =>
      if !s.isParticipant user then fail user "NOT_PARTICIPANT"
      else if s.status ≠ .active then fail user "SESSION_NOT_ACTIVE"
      else ([.setMessageTtl seconds, .elsewhere] ++ sendTo s.initiatorInternalId .notice
        ++ sendTo s.responderInternalId .notice, none)
  | .setMessageTtl user _, none => fail user "SESSION_NOT_FOUND"
  | .burn user, some s =>
      if !s.isParticipant user then fail user "NOT_PARTICIPANT"
      else if s.status = .burned then fail user "ALREADY_BURNED"
      else (burnCommands s now, none)
  | .burn user, none => fail user "SESSION_NOT_FOUND"
  | .burnAll user, some s =>
      if s.isParticipant user && s.status ≠ .burned && s.status ≠ .expired then
        (burnCommands s now, none)
      else ([], none)
  | .burnAll _, none => ([], none)

/-! ## Requests -/

/-- The rest of a request. -/
structure Call where
  todo : List Command
  next : Option Handler

def Call.arriving (handler : Handler) : Call := ⟨[], some handler⟩

def Call.isFinished (p : Call) : Bool := p.todo.isEmpty && p.next.isNone

/-- The session a read of the key gives. -/
def Config.findById (cfg : Config) (s : Store) : Option Session :=
  s.hash.map (cfg.mapToSession s.now)

def Config.step (cfg : Config) : Call → Store → Option (Store × Call)
  | ⟨command :: todo, next⟩, s => some (s.exec command, ⟨todo, next⟩)
  | ⟨[], some handler⟩, s =>
      let r := cfg.found s.now handler (cfg.findById s)
      some (s, ⟨r.1, r.2⟩)
  | ⟨[], none⟩, _ => none

/-- Time passes, and the key may run out of its time to live. -/
inductive Move where
  | tick (ms : Nat)
  | lapse

def Config.server (cfg : Config) : Server Store Call Move where
  opens p := p.todo.isEmpty && p.next.any Handler.opens
  step := cfg.step
  env m s :=
    match m with
    | .tick ms => some { s with now := s.now + ms }
    | .lapse => some { s with hash := none }

/-! ## What a command leaves alone -/

def Command.creates (c : Command) : Bool := c.fields.isSome

/-- A command that writes no field does not bring a missing hash back. -/
theorem Store.exec_hash_none {s : Store} {c : Command} (h : s.hash = none)
    (hc : c.creates = false) : (s.exec c).hash = none := by
  have hf : c.fields = none := by simpa [Command.creates] using hc
  simp only [Store.exec, hf]
  split
  · simp [h]
  · rfl
  · exact h
  · exact h

theorem Store.exec_burned (s : Store) (c : Command) :
    (s.exec c).burned = (s.burned || (match c with | .delete burn => burn | _ => false)) := by
  cases c with
  | setPublicKey role key => cases role <;> simp [Store.exec, Command.fields]
  | setVerified role verified => cases role <;> simp [Store.exec, Command.fields]
  | save | setStatus | setLastActivity | setHandshakeCompleted | setMessageTtl | clearPublicKeys
  | expire | delete | send | elsewhere => simp [Store.exec, Command.fields]

/-- What is decided without a session writes nothing. -/
theorem Config.found_none (cfg : Config) (now : Nat) (handler : Handler) :
    (cfg.found now handler none).1.any Command.creates = false := by
  cases handler <;> rfl

/-! ## A session to look at -/

/-- An active session of `ann` and `bob`. -/
def sampleSession : SessionHash where
  id := some "s1"
  initiatorInternalId := some "ann"
  responderInternalId := some "bob"
  status := some .active
  createdAt := some 0
  lastActivityAt := some 0
  initiatorVerified := some false
  responderVerified := some false
  messageTtl := some 0

def sampleStore : Store := ⟨0, some sampleSession, [], false⟩

def sampleConfig : Config := ⟨300000, fun _ => "tg"⟩

end Sessions

end BurnedChats

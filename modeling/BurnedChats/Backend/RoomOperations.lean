import BurnedChats.Backend.RoomStore

/-!
# Operations on rooms

The repositories, services and handlers that work on rooms, as programs of Redis
commands. A method of a repository is a definition in a namespace with the
repository's name; `RoomService`, `RoomJoinService`, `UserBurnService` and
`RoomHandler` are built from these as in the source. Publishers that `Mono.when`
and `flatMap` subscribe to together are listed in the order of subscription.
`Op` collects the requests.
-/

namespace BurnedChats

namespace Rooms

open RoomInvite (JoinMode InviteHash InviteToken)
open Program

abbrev Prog := Program Store Command

def hasText (s : String) : Bool := !isBlank s

def clock : Prog Nat := ask fun s => s.now

/-! ## Repositories -/

namespace RoomRepository

/-- Thirty days. -/
def DEFAULT_TTL : Nat := 30 * 24 * 3600 * 1000

def findById (roomId : String) : Prog (Option Room) :=
  ask fun s => (s.room roomId).hash.bind RoomHash.parse

def effectiveTtl (room : Room) (requested now : Nat) : Nat :=
  match room.autoBurnAt with
  | none => requested
  | some autoBurnAt => min (autoBurnAt - now) requested

def applyTtl (roomId : String) (ttl : Nat) : Prog Unit :=
  if ttl = 0 then pure () else write (.expire roomId ttl)

def refreshTtl (roomId : String) : Prog Unit := do
  match ← findById roomId with
  | some room =>
      let now ← clock
      applyTtl roomId (effectiveTtl room DEFAULT_TTL now)
  | none => applyTtl roomId DEFAULT_TTL

/-- A room is saved without an auto-burn instant. -/
def save (roomId : String) (fields : List Field) : Prog Unit := do
  write (.hset roomId fields)
  applyTtl roomId DEFAULT_TTL

def delete (roomId : String) : Prog Unit := write (.del roomId [.room])

def extendTtl (roomId : String) (ttl : Nat) : Prog Unit := do
  match ← findById roomId with
  | some room =>
      let now ← clock
      applyTtl roomId (effectiveTtl room ttl now)
  | none => applyTtl roomId ttl

def scheduleAutoBurnTrigger (roomId : String) (ttl : Nat) : Prog Unit :=
  if ttl = 0 then pure () else write (.setTrigger roomId ttl)

def updateAutoBurnAt (roomId : String) (autoBurnAt : Int) : Prog Unit := do
  let now ← clock
  let remainingMs := autoBurnAt - now
  demand (0 < remainingMs) "AUTO_BURN_IN_PAST"
  write (.hset roomId [.autoBurnAt autoBurnAt.toNat])
  scheduleAutoBurnTrigger roomId remainingMs.toNat
  applyTtl roomId remainingMs.toNat

def cancelAutoBurnTrigger (roomId : String) : Prog Unit := write (.del roomId [.autoBurn])

def updateEncryptedName (roomId nameEncrypted nameIv : String) : Prog Unit := do
  write (.hset roomId [.nameEncrypted nameEncrypted])
  write (.hset roomId [.nameIv nameIv])
  refreshTtl roomId

def updateMessageTtl (roomId : String) (seconds : Int) : Prog Unit := do
  demand (0 ≤ seconds) "INVALID_MESSAGE_TTL"
  write (.hset roomId [.messageTtl seconds.toNat])
  refreshTtl roomId

def updateReadOnly (roomId : String) (readOnly : Bool) : Prog Unit := do
  write (.hset roomId [.readOnly readOnly])
  refreshTtl roomId

def updateOwnerInternalId (roomId newOwnerInternalId : String) : Prog Unit := do
  write (.hset roomId [.ownerInternalId newOwnerInternalId])
  refreshTtl roomId

end RoomRepository

namespace RoomMembersRepository

def TTL : Nat := RoomRepository.DEFAULT_TTL

def add (roomId internalId : String) : Prog Unit := do
  write (.sadd roomId .members internalId)
  write (.addRoom internalId roomId)
  write (.expireMembers roomId TTL)

def remove (roomId internalId : String) : Prog Unit := do
  let removed ← call (.srem roomId .members internalId) fun s =>
    s.sismember roomId .members internalId
  write (.removeRoom internalId roomId)
  if removed then write (.expireMembers roomId TTL)

def getMembers (roomId : String) : Prog (List String) := ask fun s => s.smembers roomId .members

def getRoomsForMember (internalId : String) : Prog (List String) :=
  ask fun s => s.memberRooms internalId

def isMember (roomId internalId : String) : Prog Bool :=
  ask fun s => s.sismember roomId .members internalId

def cleanupOrphanReverseEntry (roomId internalId : String) : Prog Unit := do
  if ← isMember roomId internalId then pure ()
  else write (.removeRoom internalId roomId)

def deleteAll (roomId : String) : Prog Unit := do
  let members ← getMembers roomId
  forEach members fun internalId => write (.removeRoom internalId roomId)
  write (.del roomId [.set .members])

end RoomMembersRepository

namespace RoomBansRepository

def add (roomId internalId : String) : Prog Unit := write (.sadd roomId .bans internalId)

def remove (roomId internalId : String) : Prog Unit := write (.srem roomId .bans internalId)

def isBanned (roomId internalId : String) : Prog Bool :=
  ask fun s => s.sismember roomId .bans internalId

def deleteAll (roomId : String) : Prog Unit := write (.del roomId [.set .bans])

end RoomBansRepository

namespace RoomMutedRepository

def add (roomId internalId : String) : Prog Unit := write (.sadd roomId .muted internalId)

def remove (roomId internalId : String) : Prog Unit := write (.srem roomId .muted internalId)

def deleteAll (roomId : String) : Prog Unit := write (.del roomId [.set .muted])

end RoomMutedRepository

namespace RoomRolesRepository

def setRole (roomId internalId role : String) : Prog Unit :=
  write (.hput roomId .roles internalId role)

def getStoredRole (roomId internalId : String) : Prog (Option String) :=
  ask fun s => (s.hget roomId .roles internalId).filter hasText

def remove (roomId internalId : String) : Prog Unit := write (.hdel roomId .roles internalId)

def deleteAll (roomId : String) : Prog Unit := write (.del roomId [.hash .roles])

end RoomRolesRepository

namespace RoomMemberPublicKeyRepository

def put (roomId internalId : String) (publicKey : Option String) : Prog Unit :=
  match publicKey with
  | none => pure ()
  | some key => if hasText key then write (.hput roomId .publicKeys internalId key) else pure ()

def get (roomId internalId : String) : Prog (Option String) :=
  ask fun s => (s.hget roomId .publicKeys internalId).filter hasText

def getAll (roomId : String) : Prog (List (String × String)) :=
  ask fun s => ((s.room roomId).hashes .publicKeys).entries.map fun e => (e.1, e.2)

def remove (roomId internalId : String) : Prog Unit :=
  write (.hdel roomId .publicKeys internalId)

def deleteRoom (roomId : String) : Prog Unit := write (.del roomId [.hash .publicKeys])

end RoomMemberPublicKeyRepository

namespace RoomJoinRequestRepository

def save (roomId sender : String) (request : RoomJoinRequest) : Prog Unit := do
  write (.putJoinRequest roomId sender request)
  write (.sadd roomId .joinRequests sender)

def findByRoomAndSender (roomId sender : String) : Prog (Option RoomJoinRequest) :=
  ask fun s => (s.room roomId).joinRequests.lookup sender

def exists' (roomId sender : String) : Prog Bool :=
  ask fun s => ((s.room roomId).joinRequests.lookup sender).isSome

def remove (roomId sender : String) : Prog Unit := do
  write (.del roomId [.joinRequest sender])
  write (.srem roomId .joinRequests sender)

end RoomJoinRequestRepository

namespace RoomKeysRepository

/-- The largest `int`. -/
def MAX_VALUE : Int := 2147483647

/-- Epochs 0 to `last`; none when `last + 1` overflows or is not positive. -/
def epochs (last : Int) : List Int :=
  if last < MAX_VALUE then (List.range (last + 1).toNat).map fun (e : Nat) => (e : Int) else []

def putEncryptedKey (roomId : String) (epoch : Int) (recipient : String)
    (bundle : EncryptedKeyBundle) : Prog Unit :=
  write (.putBundle roomId epoch recipient bundle)

def getEncryptedKey (roomId : String) (epoch : Int) (recipient : String) :
    Prog (Option EncryptedKeyBundle) :=
  ask fun s => ((s.room roomId).bundles epoch).lookup recipient

def deleteEpoch (roomId : String) (epoch : Int) : Prog Unit :=
  write (.del roomId [.bundles epoch])

def getCurrentEpoch (roomId : String) : Prog (Option Int) := ask fun s => (s.room roomId).epoch

def setCurrentEpoch (roomId : String) (epoch : Int) : Prog Unit := write (.setEpoch roomId epoch)

def removeRecipientAllEpochs (roomId recipient : String) : Prog Unit := do
  let currentEpoch := (← getCurrentEpoch roomId).getD 0
  forEach (epochs currentEpoch) fun epoch => write (.removeBundle roomId epoch recipient)

/-- An array of `currentEpoch + 2` keys; nothing is deleted where that is no
length or leaves no place for the counter. -/
def deleteRoom (roomId : String) : Prog Unit := do
  let currentEpoch := (← getCurrentEpoch roomId).getD 0
  if -1 ≤ currentEpoch ∧ currentEpoch + 2 ≤ MAX_VALUE then
    write (.del roomId ((epochs currentEpoch).map Key.bundles ++ [.epoch]))

end RoomKeysRepository

namespace RoomKeyRequestInboxRepository

def MAX_FIELDS : Nat := 100

def record (owner roomId requester : String) (requestedAt : Nat) : Prog Unit :=
  if hasText owner && hasText roomId && hasText requester then do
    let known ← ask fun s => ((s.keyRequestInbox owner).lookup (roomId, requester)).isSome
    let size ← ask fun s => (s.keyRequestInbox owner).entries.length
    if !known && MAX_FIELDS ≤ size then
      -- the oldest request makes room
      let entries ← ask fun s => (s.keyRequestInbox owner).entries
      match entries.minOn? fun e => e.2 with
      | some oldest => write (.dropKeyRequest owner oldest.1.1 oldest.1.2)
      | none => pure ()
    write (.recordKeyRequest owner roomId requester requestedAt)
  else pure ()

def drain (owner : String) : Prog (List (String × String)) := do
  if hasText owner then
    let entries ← ask fun s => (s.keyRequestInbox owner).entries.map fun e => e.1
    write (.drainKeyRequests owner)
    pure entries
  else pure []

end RoomKeyRequestInboxRepository

namespace RoomPresenceRepository

def roundToMinute (epochMs : Nat) : Nat := epochMs / 60000 * 60000

def upsertLastSeen (roomId internalId : String) : Prog Unit := do
  let now ← clock
  write (.hput roomId .presence internalId (toString (roundToMinute now)))

def deleteAll (roomId : String) : Prog Unit := write (.del roomId [.hash .presence])

end RoomPresenceRepository

namespace InviteTokenRepository

def save (token roomId : String) (createdAt expiresAt : Nat) (maxUses : Option Int) :
    Prog Unit := do
  write (.putInvite token
    ⟨some token, some roomId, some createdAt, some expiresAt, maxUses, some 0⟩)
  write (.sadd roomId .invites token)

def findByToken (token : String) : Prog (Option InviteToken) :=
  ask fun s => (s.invites.lookup token).bind InviteHash.parse

def incrementUseCount (token : String) : Prog Int :=
  call (.incrementUseCount token) fun s =>
    (RoomInvite.bump (s.invites.lookup token)).usedCount.getD 0

def deleteTokenAndIndex (token roomId : String) : Prog Unit := do
  write (.delInvites [token])
  write (.srem roomId .invites token)

def deleteAllForRoom (roomId : String) : Prog Unit := do
  let tokens ← ask fun s => s.smembers roomId .invites
  if tokens.isEmpty then write (.del roomId [.set .invites])
  else
    write (.delInvites tokens)
    write (.del roomId [.set .invites])

end InviteTokenRepository

namespace FileMetadataRepository

def save (fileId contextId : String) : Prog Unit := do
  write (.putFile fileId contextId)
  write (.sadd contextId .files fileId)

def delete (fileId : String) : Prog Unit := do
  match ← ask fun s => s.fileMeta.lookup fileId with
  | some contextId =>
      write (.srem contextId .files fileId)
      write (.delFile fileId)
  | none => pure ()

end FileMetadataRepository

/-! ## Services -/

namespace FileBurnService

def deleteFilesForContext (contextId : String) : Prog Unit := do
  let fileIds ← ask fun s => s.smembers contextId .files
  forEach fileIds FileMetadataRepository.delete
  write (.del contextId [.set .files])

end FileBurnService

inductive RoomRole where
  | owner | admin | member
deriving DecidableEq

namespace RoomRole

def apiValue : RoomRole → String
  | owner => "owner"
  | admin => "admin"
  | member => "member"

def fromStoredValue (value : String) : RoomRole :=
  if value = admin.apiValue then admin else member

end RoomRole

/-- `proposedRoomId` is the id the client asks for, `passwordProofHash` the hash
of its proof. -/
structure CreateRoomRequest where
  proposedRoomId : Option String
  passwordProofHash : Option String
  joinMode : JoinMode
  nameEncrypted : String
  nameIv : String
  ownerPublicKey : Option String

namespace RoomService

def isOwner (room : Room) (internalId : String) : Bool :=
  hasText room.ownerInternalId && room.ownerInternalId == internalId

/-- `randomUUID` is the id of a room for which none was proposed. -/
def roomIdOf (request : CreateRoomRequest) (randomUUID : String) : String :=
  (request.proposedRoomId.filter hasText).getD randomUUID

def createRoom (owner : String) (request : CreateRoomRequest) (randomUUID : String) :
    Prog Unit := do
  let roomId := roomIdOf request randomUUID
  if (request.proposedRoomId.filter hasText).isSome then
    let existing ← RoomRepository.findById roomId
    demand existing.isNone "ROOM_ID_COLLISION"
  RoomRepository.save roomId
    [.saved ⟨request.joinMode, request.passwordProofHash⟩, .ownerInternalId owner,
      .nameEncrypted request.nameEncrypted, .nameIv request.nameIv, .readOnly false]
  RoomMembersRepository.add roomId owner

def roleOf (roomId : String) (room : Room) (internalId : String) : Prog RoomRole :=
  if isOwner room internalId then pure .owner
  else do
    let stored ← RoomRolesRepository.getStoredRole roomId internalId
    pure (stored.elim .member RoomRole.fromStoredValue)

def requireOwner (roomId internalId : String) : Prog Room := do
  let room ← found (← RoomRepository.findById roomId) "ROOM_NOT_FOUND"
  demand (isOwner room internalId) "NOT_OWNER"
  pure room

def requireAdminOrOwner (roomId internalId : String) : Prog Room := do
  let room ← found (← RoomRepository.findById roomId) "ROOM_NOT_FOUND"
  let role ← roleOf roomId room internalId
  demand (role = .owner || role = .admin) "NOT_OWNER"
  pure room

def validateModerationTarget (roomId : String) (room : Room) (actor target : String) :
    Prog Unit := do
  demand (actor ≠ target) "CANNOT_KICK_SELF"
  demand (!isOwner room target) "CANNOT_KICK_OWNER"
  let actorRole ← roleOf roomId room actor
  let targetRole ← roleOf roomId room target
  demand (!(actorRole = .admin && targetRole = .admin)) "CANNOT_KICK_ADMIN"
  let isMember ← RoomMembersRepository.isMember roomId target
  demand isMember "NOT_MEMBER"

def parseAssignableRole (roleValue : String) : Option RoomRole :=
  if roleValue = RoomRole.admin.apiValue then some .admin
  else if roleValue = RoomRole.member.apiValue then some .member
  else none

def setRole (roomId owner target roleValue : String) : Prog Unit := do
  let requestedRole ← found (parseAssignableRole roleValue) "INVALID_ROLE"
  let room ← requireOwner roomId owner
  demand (!isOwner room target) "CANNOT_SET_ROLE_ON_OWNER"
  let isMember ← RoomMembersRepository.isMember roomId target
  demand isMember "NOT_MEMBER"
  if requestedRole = .admin then
    RoomRolesRepository.setRole roomId target RoomRole.admin.apiValue
  else RoomRolesRepository.remove roomId target

def transferOwnership (roomId currentOwner newOwner : String) : Prog Unit := do
  demand (currentOwner ≠ newOwner) "CANNOT_TRANSFER_TO_SELF"
  let room ← requireOwner roomId currentOwner
  let isMember ← RoomMembersRepository.isMember roomId newOwner
  demand isMember "NOT_MEMBER"
  RoomRepository.updateOwnerInternalId roomId newOwner
  RoomRolesRepository.setRole roomId room.ownerInternalId RoomRole.admin.apiValue
  RoomRolesRepository.remove roomId newOwner

/-- The members as the cascade has found them. -/
def burnRoomCascade (roomId : String) : Prog (List String) := do
  let members ← RoomMembersRepository.getMembers roomId
  FileBurnService.deleteFilesForContext roomId
  RoomRepository.cancelAutoBurnTrigger roomId
  RoomRepository.delete roomId
  RoomMembersRepository.deleteAll roomId
  InviteTokenRepository.deleteAllForRoom roomId
  RoomKeysRepository.deleteRoom roomId
  RoomMemberPublicKeyRepository.deleteRoom roomId
  write (.del roomId [.messages])
  RoomBansRepository.deleteAll roomId
  RoomMutedRepository.deleteAll roomId
  RoomRolesRepository.deleteAll roomId
  pure members

def burnRoomAsOwner (roomId owner : String) : Prog (List String) := do
  let _ ← requireOwner roomId owner
  burnRoomCascade roomId

def notifyRoomBurned (roomId : String) (members : List String) : Prog Unit := do
  let burnedAt ← clock
  forEach (members.filter hasText) fun member => write (.recordBurn member roomId burnedAt)

def executeAutoBurnAndNotify (roomId : String) : Prog Unit := do
  match ← RoomRepository.findById roomId with
  | none => pure ()
  | some room =>
      let now ← clock
      match room.autoBurnAt with
      | none => pure ()
      | some autoBurnAt =>
          if now < autoBurnAt then pure ()
          else
            let members ← burnRoomCascade roomId
            notifyRoomBurned roomId members

def executeHashExpiryCascade (roomId : String) : Prog Unit := do
  let members ← RoomMembersRepository.getMembers roomId
  if members.isEmpty then InviteTokenRepository.deleteAllForRoom roomId
  else
    let ids ← burnRoomCascade roomId
    notifyRoomBurned roomId ids

def resolveAutoBurnAt (ttlSeconds autoBurnAtEpoch : Option Int) (now : Nat) :
    Except String Int :=
  match autoBurnAtEpoch with
  | some autoBurnAt => .ok autoBurnAt
  | none =>
      match ttlSeconds with
      | some seconds => if seconds ≤ 0 then .error "INVALID_TTL" else .ok (now + seconds * 1000)
      | none => .error "TTL_OR_AUTOBURN_REQUIRED"

def setRoomTtl (roomId owner : String) (ttlSeconds autoBurnAt : Option Int) : Prog Unit := do
  let _ ← requireOwner roomId owner
  let now ← clock
  match resolveAutoBurnAt ttlSeconds autoBurnAt now with
  | .error e => .fail e
  | .ok resolvedAutoBurnAt => RoomRepository.updateAutoBurnAt roomId resolvedAutoBurnAt

end RoomService

namespace InviteTokenService

def validateInviteToken (token : InviteToken) : Prog Unit := do
  let now ← clock
  if token.expiresAt < now then
    InviteTokenRepository.deleteTokenAndIndex (DmInvite.shown token.token)
      (DmInvite.shown token.roomId)
    .fail "INVITE_EXPIRED"
  else if RoomInvite.isExhausted token then
    InviteTokenRepository.deleteTokenAndIndex (DmInvite.shown token.token)
      (DmInvite.shown token.roomId)
    .fail "INVITE_EXHAUSTED"
  else pure ()

def consumeInviteUse (inviteToken : String) : Prog Unit := do
  match ← InviteTokenRepository.findByToken inviteToken with
  | none => pure ()
  | some token =>
      if RoomInvite.isUnlimited token.maxUses then pure ()
      else
        let newCount ← InviteTokenRepository.incrementUseCount inviteToken
        if 0 ≤ newCount ∧ token.maxUses.getD 0 ≤ newCount then
          InviteTokenRepository.deleteTokenAndIndex inviteToken (DmInvite.shown token.roomId)

/-- `token` is the random value of the new invite. -/
def generateInviteLink (roomId requester token : String) (expiresAt : Nat)
    (maxUses : Option Int) : Prog Unit := do
  let _ ← RoomService.requireAdminOrOwner roomId requester
  let now ← clock
  InviteTokenRepository.save token roomId now expiresAt (RoomInvite.normalizeMaxUses maxUses)

def revokeInvite (roomId token requester : String) : Prog Unit := do
  let _ ← RoomService.requireAdminOrOwner roomId requester
  let stored ← found (← InviteTokenRepository.findByToken token) "INVALID_TOKEN"
  demand (stored.roomId = some roomId) "INVALID_TOKEN"
  InviteTokenRepository.deleteTokenAndIndex token roomId

end InviteTokenService

/-- `passwordAccepted` is what the budget of wrong passwords and the comparison
of the proof come to, where the room has a password. -/
structure JoinAttempt where
  senderInternalId : String
  inviteToken : String
  passwordAccepted : Bool
  senderPublicKey : Option String

inductive JoinResult where
  | approved (roomId ownerInternalId : String)
  | pending (roomId : String)

def JoinResult.roomId : JoinResult → String
  | approved roomId _ => roomId
  | pending roomId => roomId

namespace RoomJoinService

def ensureNotBanned (roomId internalId : String) : Prog Unit := do
  let banned ← RoomBansRepository.isBanned roomId internalId
  demand (!banned) "USER_BANNED"

def loadRoomAsOwner (owner roomId : String) : Prog Room := do
  let room ← found (← RoomRepository.findById roomId) "ROOM_NOT_FOUND"
  demand (RoomService.isOwner room owner) "NOT_OWNER"
  pure room

def joinByPassword (roomId : String) (room : Room) (a : JoinAttempt) : Prog JoinResult := do
  RoomMembersRepository.add roomId a.senderInternalId
  RoomMemberPublicKeyRepository.put roomId a.senderInternalId a.senderPublicKey
  RoomRepository.extendTtl roomId RoomRepository.DEFAULT_TTL
  pure (.approved roomId room.ownerInternalId)

def joinByRequest (roomId : String) (a : JoinAttempt) : Prog JoinResult := do
  let alreadyRequested ← RoomJoinRequestRepository.exists' roomId a.senderInternalId
  demand (!alreadyRequested) "REQUEST_PENDING"
  let now ← clock
  RoomJoinRequestRepository.save roomId a.senderInternalId ⟨now, a.senderPublicKey⟩
  pure (.pending roomId)

def continueJoinAfterPassword (roomId : String) (room : Room) (a : JoinAttempt) :
    Prog JoinResult := do
  let alreadyMember ← RoomMembersRepository.isMember roomId a.senderInternalId
  demand (!alreadyMember) "ALREADY_MEMBER"
  ensureNotBanned roomId a.senderInternalId
  let result ←
    if room.joinMode = .byPassword then joinByPassword roomId room a else joinByRequest roomId a
  InviteTokenService.consumeInviteUse a.inviteToken
  pure result

def validatePasswordAndJoin (roomId : String) (room : Room) (a : JoinAttempt) :
    Prog JoinResult := do
  let roomHasPassword := room.passwordProofHash.any fun hash => !isBlank hash
  demand (!roomHasPassword || a.passwordAccepted) "WRONG_PASSWORD"
  continueJoinAfterPassword roomId room a

def requestJoin (a : JoinAttempt) : Prog JoinResult := do
  let token ← found (← InviteTokenRepository.findByToken a.inviteToken) "INVALID_TOKEN"
  InviteTokenService.validateInviteToken token
  let roomId := DmInvite.shown token.roomId
  let room ← found (← RoomRepository.findById roomId) "INVALID_TOKEN"
  validatePasswordAndJoin roomId room a

def acceptJoin (owner roomId sender : String) : Prog Unit := do
  let _ ← loadRoomAsOwner owner roomId
  ensureNotBanned roomId sender
  let joinRequest ←
    found (← RoomJoinRequestRepository.findByRoomAndSender roomId sender) "REQUEST_NOT_FOUND"
  RoomMembersRepository.add roomId sender
  RoomMemberPublicKeyRepository.put roomId sender joinRequest.publicKey
  RoomJoinRequestRepository.remove roomId sender
  RoomRepository.extendTtl roomId RoomRepository.DEFAULT_TTL

def rejectJoin (owner roomId sender : String) : Prog Unit := do
  let _ ← loadRoomAsOwner owner roomId
  let pending ← RoomJoinRequestRepository.exists' roomId sender
  demand pending "REQUEST_NOT_FOUND"
  RoomJoinRequestRepository.remove roomId sender

end RoomJoinService

namespace UserBurnService

def burnOwnedRoom (roomId owner : String) : Prog Unit := do
  let members ← RoomService.burnRoomAsOwner roomId owner
  RoomPresenceRepository.deleteAll roomId
  RoomService.notifyRoomBurned roomId members

def burnOwnedRooms (internalId : String) : Prog Unit := do
  let rooms ← RoomMembersRepository.getRoomsForMember internalId
  forEach rooms fun roomId => do
    match ← RoomRepository.findById roomId with
    | none => pure ()
    | some room =>
        if RoomService.isOwner room internalId then (burnOwnedRoom roomId internalId).attempt
        else pure ()

def leaveMemberRoom (roomId internalId : String) : Prog Unit := do
  if ← RoomMembersRepository.isMember roomId internalId then
    RoomMembersRepository.remove roomId internalId
    RoomMemberPublicKeyRepository.remove roomId internalId
    RoomJoinRequestRepository.remove roomId internalId
    RoomKeysRepository.removeRecipientAllEpochs roomId internalId
    RoomRolesRepository.remove roomId internalId
    let remainingMembers ← RoomMembersRepository.getMembers roomId
    forEach (remainingMembers.filter hasText) fun member =>
      write (.send member (.memberLeft roomId internalId))

def leaveMemberRooms (internalId : String) : Prog Unit := do
  let rooms ← RoomMembersRepository.getRoomsForMember internalId
  forEach rooms fun roomId => do
    match ← RoomRepository.findById roomId with
    | none => pure ()
    | some room =>
        if RoomService.isOwner room internalId then pure ()
        else (leaveMemberRoom roomId internalId).attempt

/-- The part of a user's burn that concerns rooms. -/
def burnAllForUser (internalId : String) (wipeIdentity : Bool) : Prog Unit := do
  burnOwnedRooms internalId
  leaveMemberRooms internalId
  if wipeIdentity then write (.delRooms internalId)

end UserBurnService

/-! ## Handlers -/

/-- An item of a rekey request: the recipient and the wrapped key. -/
structure BundleItem where
  recipientInternalId : String
  bundle : EncryptedKeyBundle

namespace RoomHandler

/-- The event to every member, as the set was read last. -/
def sendToMembers (members : List String) (event : Event) : Prog Unit :=
  forEach (members.filter hasText) fun member => write (.send member event)

def createRoom (owner : String) (request : CreateRoomRequest) (randomUUID token : String)
    (inviteExpiresAt : Nat) : Prog Unit := do
  RoomService.createRoom owner request randomUUID
  let roomId := RoomService.roomIdOf request randomUUID
  (InviteTokenService.generateInviteLink roomId owner token inviteExpiresAt none).attempt
  RoomMemberPublicKeyRepository.put roomId owner request.ownerPublicKey

def requestJoinRoom (a : JoinAttempt) : Prog Unit := do
  match ← RoomJoinService.requestJoin a with
  | .approved roomId owner =>
      write (.send a.senderInternalId (.joinApproved roomId))
      match a.senderPublicKey with
      | some key => write (.send owner (.autoApproved roomId a.senderInternalId key))
      | none => pure ()
  | .pending _ => pure ()

def acceptRoomJoin (owner roomId sender : String) : Prog Unit := do
  RoomJoinService.acceptJoin owner roomId sender
  write (.send sender (.joinApproved roomId))

def sendKeyBundle (owner roomId recipient : String) (epoch : Int)
    (bundle : EncryptedKeyBundle) : Prog Unit := do
  let _ ← RoomService.requireOwner roomId owner
  RoomKeysRepository.putEncryptedKey roomId epoch recipient bundle
  write (.send recipient (.keyBundle roomId epoch bundle))

def serveCurrentEpochBundle (roomId caller : String) :
    Prog (Option (Int × EncryptedKeyBundle)) := do
  let epoch := (← RoomKeysRepository.getCurrentEpoch roomId).getD 0
  let bundle ← RoomKeysRepository.getEncryptedKey roomId epoch caller
  pure (bundle.map fun bundle => (epoch, bundle))

def notifyOwnerForKeyBundle (roomId caller publicKey : String) (room : Room) : Prog Unit := do
  RoomMemberPublicKeyRepository.put roomId caller (some publicKey)
  let now ← clock
  RoomKeyRequestInboxRepository.record room.ownerInternalId roomId caller now
  write (.send room.ownerInternalId (.autoApproved roomId caller publicKey))

def requestKeyBundle (caller roomId publicKey : String) : Prog Unit := do
  let room ← found (← RoomRepository.findById roomId) "ROOM_NOT_FOUND"
  demand (!RoomService.isOwner room caller) "OWNER_SHOULD_REKEY"
  let isMember ← RoomMembersRepository.isMember roomId caller
  demand isMember "NOT_MEMBER"
  let stored ← RoomMemberPublicKeyRepository.get roomId caller
  if stored = some publicKey then
    match ← serveCurrentEpochBundle roomId caller with
    | some (epoch, bundle) => write (.send caller (.keyBundle roomId epoch bundle))
    | none => notifyOwnerForKeyBundle roomId caller publicKey room
  else notifyOwnerForKeyBundle roomId caller publicKey room

/-- `newEpoch - 1` as an `int`. -/
def previousEpoch (newEpoch : Int) : Int :=
  if newEpoch = -RoomKeysRepository.MAX_VALUE - 1 then RoomKeysRepository.MAX_VALUE
  else newEpoch - 1

def rekey (owner roomId : String) (newEpoch : Int) (bundles : List BundleItem)
    (name : Option (String × String)) : Prog Unit := do
  let _ ← RoomService.requireOwner roomId owner
  forEach bundles fun item =>
    RoomKeysRepository.putEncryptedKey roomId newEpoch item.recipientInternalId item.bundle
  match name with
  | some (nameEncrypted, nameIv) =>
      RoomRepository.updateEncryptedName roomId nameEncrypted nameIv
  | none => pure ()
  RoomKeysRepository.setCurrentEpoch roomId newEpoch
  RoomKeysRepository.deleteEpoch roomId (previousEpoch newEpoch)
  forEach (bundles.filter fun item => hasText item.recipientInternalId) fun item => do
    write (.send item.recipientInternalId (.keyBundle roomId newEpoch item.bundle))
    write (.send item.recipientInternalId (.roomRekey roomId newEpoch))

def getMemberPubkeys (owner roomId : String) : Prog Unit := do
  let _ ← RoomService.requireOwner roomId owner
  let publicKeys ← RoomMemberPublicKeyRepository.getAll roomId
  let epoch := (← RoomKeysRepository.getCurrentEpoch roomId).getD 0
  write (.send owner
    (.memberPubkeys roomId (publicKeys.filter fun e => e.1 ≠ owner) epoch))

def setRoomName (owner roomId nameEncrypted nameIv : String) : Prog Unit := do
  let _ ← RoomService.requireOwner roomId owner
  RoomRepository.updateEncryptedName roomId nameEncrypted nameIv

def burnRoom (owner roomId : String) : Prog Unit := do
  let members ← RoomService.burnRoomAsOwner roomId owner
  RoomPresenceRepository.deleteAll roomId
  RoomService.notifyRoomBurned roomId members

/-- `messages` is what the prune leaves of the list. -/
def setMessageTtl (owner roomId : String) (seconds : Int) (messages : List RoomMessage) :
    Prog Unit := do
  let _ ← RoomService.requireOwner roomId owner
  RoomRepository.updateMessageTtl roomId seconds
  write (.setMessages roomId messages)

def performKickCleanup (roomId target : String) : Prog Unit := do
  RoomMembersRepository.remove roomId target
  RoomMemberPublicKeyRepository.remove roomId target
  RoomJoinRequestRepository.remove roomId target
  RoomKeysRepository.removeRecipientAllEpochs roomId target
  RoomRolesRepository.remove roomId target

def kickMember (caller roomId target : String) : Prog Unit := do
  let room ← RoomService.requireAdminOrOwner roomId caller
  RoomService.validateModerationTarget roomId room caller target
  performKickCleanup roomId target
  let remainingMembers ← RoomMembersRepository.getMembers roomId
  sendToMembers remainingMembers (.memberRemoved roomId target)

def banMember (owner roomId target : String) : Prog Unit := do
  let room ← RoomService.requireOwner roomId owner
  demand (owner ≠ target) "CANNOT_KICK_SELF"
  demand (!RoomService.isOwner room target) "CANNOT_KICK_OWNER"
  let isMember ← RoomMembersRepository.isMember roomId target
  demand isMember "NOT_MEMBER"
  performKickCleanup roomId target
  RoomBansRepository.add roomId target
  let remainingMembers ← RoomMembersRepository.getMembers roomId
  sendToMembers remainingMembers (.memberRemoved roomId target)

def unbanMember (owner roomId target : String) : Prog Unit := do
  let _ ← RoomService.requireOwner roomId owner
  RoomBansRepository.remove roomId target

def muteMember (caller roomId target : String) : Prog Unit := do
  let room ← RoomService.requireAdminOrOwner roomId caller
  RoomService.validateModerationTarget roomId room caller target
  RoomMutedRepository.add roomId target

def unmuteMember (caller roomId target : String) : Prog Unit := do
  let _ ← RoomService.requireAdminOrOwner roomId caller
  RoomMutedRepository.remove roomId target

def setReadOnly (caller roomId : String) (readOnly : Bool) : Prog Unit := do
  let _ ← RoomService.requireAdminOrOwner roomId caller
  RoomRepository.updateReadOnly roomId readOnly

def transferOwnership (owner roomId newOwner : String) : Prog Unit := do
  RoomService.transferOwnership roomId owner newOwner

def leaveRoom (caller roomId : String) : Prog Unit := do
  let room ← found (← RoomRepository.findById roomId) "ROOM_NOT_FOUND"
  demand (!RoomService.isOwner room caller) "OWNER_CANNOT_LEAVE"
  let isMember ← RoomMembersRepository.isMember roomId caller
  demand isMember "NOT_MEMBER"
  RoomMembersRepository.remove roomId caller
  RoomMemberPublicKeyRepository.remove roomId caller
  let remainingMembers ← RoomMembersRepository.getMembers roomId
  sendToMembers remainingMembers (.memberLeft roomId caller)

end RoomHandler

/-- A room message is sent, edited or deleted; `messages` is what the list holds
then. -/
def roomMessage (caller roomId : String) (messages : List RoomMessage) : Prog Unit := do
  let isMember ← RoomMembersRepository.isMember roomId caller
  demand isMember "NOT_MEMBER"
  write (.setMessages roomId messages)
  RoomRepository.extendTtl roomId RoomRepository.DEFAULT_TTL

def uploadFile (uploader roomId fileId : String) : Prog Unit := do
  let isMember ← RoomMembersRepository.isMember roomId uploader
  demand isMember "NOT_MEMBER"
  FileMetadataRepository.save fileId roomId

/-- A user connects or disconnects. -/
def markInMemberRooms (internalId : String) : Prog Unit := do
  let rooms ← RoomMembersRepository.getRoomsForMember internalId
  forEach rooms fun roomId => do
    if ← RoomMembersRepository.isMember roomId internalId then
      RoomPresenceRepository.upsertLastSeen roomId internalId

/-- The keyspace listener takes up an event. -/
def onExpired (roomId : String) (event : Expired) : Prog Unit := do
  write (.takeExpired roomId event)
  match event with
  | .trigger => RoomService.executeAutoBurnAndNotify roomId
  | .hash => RoomService.executeHashExpiryCascade roomId

/-! ## Requests -/

inductive Op where
  | createRoom (owner : String) (request : CreateRoomRequest) (randomUUID token : String)
      (inviteExpiresAt : Nat)
  | generateInviteLink (requester roomId token : String) (expiresAt : Nat) (maxUses : Option Int)
  | revokeInvite (requester roomId token : String)
  | requestJoin (a : JoinAttempt)
  | acceptJoin (owner roomId sender : String)
  | rejectJoin (owner roomId sender : String)
  | sendKeyBundle (owner roomId recipient : String) (epoch : Int) (bundle : EncryptedKeyBundle)
  | requestKeyBundle (caller roomId publicKey : String)
  | rekey (owner roomId : String) (newEpoch : Int) (bundles : List BundleItem)
      (name : Option (String × String))
  | getMemberPubkeys (owner roomId : String)
  | setName (owner roomId nameEncrypted nameIv : String)
  | burn (owner roomId : String)
  | setTtl (owner roomId : String) (ttlSeconds autoBurnAt : Option Int)
  | setMessageTtl (owner roomId : String) (seconds : Int) (messages : List RoomMessage)
  | kick (caller roomId target : String)
  | ban (owner roomId target : String)
  | unban (owner roomId target : String)
  | mute (caller roomId target : String)
  | unmute (caller roomId target : String)
  | setReadOnly (caller roomId : String) (readOnly : Bool)
  | setRole (owner roomId target role : String)
  | transferOwnership (owner roomId newOwner : String)
  | leave (caller roomId : String)
  | burnAll (internalId : String) (wipeIdentity : Bool)
  | message (caller roomId : String) (messages : List RoomMessage)
  | upload (uploader roomId fileId : String)
  | presence (internalId : String)
  | expired (roomId : String) (event : Expired)

def Op.program : Op → Prog Unit
  | .createRoom owner request randomUUID token inviteExpiresAt =>
      RoomHandler.createRoom owner request randomUUID token inviteExpiresAt
  | .generateInviteLink requester roomId token expiresAt maxUses =>
      InviteTokenService.generateInviteLink roomId requester token expiresAt maxUses
  | .revokeInvite requester roomId token =>
      InviteTokenService.revokeInvite roomId token requester
  | .requestJoin a => RoomHandler.requestJoinRoom a
  | .acceptJoin owner roomId sender => RoomHandler.acceptRoomJoin owner roomId sender
  | .rejectJoin owner roomId sender => RoomJoinService.rejectJoin owner roomId sender
  | .sendKeyBundle owner roomId recipient epoch bundle =>
      RoomHandler.sendKeyBundle owner roomId recipient epoch bundle
  | .requestKeyBundle caller roomId publicKey =>
      RoomHandler.requestKeyBundle caller roomId publicKey
  | .rekey owner roomId newEpoch bundles name =>
      RoomHandler.rekey owner roomId newEpoch bundles name
  | .getMemberPubkeys owner roomId => RoomHandler.getMemberPubkeys owner roomId
  | .setName owner roomId nameEncrypted nameIv =>
      RoomHandler.setRoomName owner roomId nameEncrypted nameIv
  | .burn owner roomId => RoomHandler.burnRoom owner roomId
  | .setTtl owner roomId ttlSeconds autoBurnAt =>
      RoomService.setRoomTtl roomId owner ttlSeconds autoBurnAt
  | .setMessageTtl owner roomId seconds messages =>
      RoomHandler.setMessageTtl owner roomId seconds messages
  | .kick caller roomId target => RoomHandler.kickMember caller roomId target
  | .ban owner roomId target => RoomHandler.banMember owner roomId target
  | .unban owner roomId target => RoomHandler.unbanMember owner roomId target
  | .mute caller roomId target => RoomHandler.muteMember caller roomId target
  | .unmute caller roomId target => RoomHandler.unmuteMember caller roomId target
  | .setReadOnly caller roomId readOnly => RoomHandler.setReadOnly caller roomId readOnly
  | .setRole owner roomId target role => RoomService.setRole roomId owner target role
  | .transferOwnership owner roomId newOwner =>
      RoomHandler.transferOwnership owner roomId newOwner
  | .leave caller roomId => RoomHandler.leaveRoom caller roomId
  | .burnAll internalId wipeIdentity =>
      UserBurnService.burnAllForUser internalId wipeIdentity
  | .message caller roomId messages => roomMessage caller roomId messages
  | .upload uploader roomId fileId => uploadFile uploader roomId fileId
  | .presence internalId => markInMemberRooms internalId
  | .expired roomId event => onExpired roomId event

/-- A request, and a store with any number of them under way. -/
abbrev RoomCall := Call Op Store Command Unit

/-- The clock ticks, or a client takes an event that was sent to it. -/
inductive Move where
  | tick
  | receive (i : Nat)

def server : Interleave.Server Store RoomCall Move :=
  Call.server Store.exec Op.program fun move s =>
    match move with
    | .tick => some s.tick
    | .receive i => some { s with sent := s.sent.eraseIdx i }

/-- A room without a password, its owner, a member and an invite. -/
def sampleStore : Store :=
  List.foldl (fun s c => Store.exec c s) .empty
    [.hset "r" [.saved ⟨.byPassword, none⟩, .ownerInternalId "o"], .sadd "r" .members "o",
      .addRoom "o" "r", .sadd "r" .members "u", .addRoom "u" "r",
      .putInvite "t" ⟨some "t", some "r", some 0, some 100, none, some 0⟩]

theorem sampleStore_room_of_ne {r : String} (h : r ≠ "r") : sampleStore.room r = .empty := by
  simp [sampleStore, Store.exec, Store.atRoom, Store.empty, h]

end Rooms

end BurnedChats

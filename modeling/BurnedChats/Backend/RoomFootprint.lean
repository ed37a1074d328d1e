import BurnedChats.Backend.RoomOperations

/-!
# The commands of each request

`May op` are the commands that a request can come to, whatever the store does in
the meantime, and `program_may` says that there are no others. What holds of the
commands of a family of requests is then proved by cases on `May`, without a look
at their programs.
-/

namespace BurnedChats

namespace Rooms

open RoomInvite (InviteHash InviteToken)
open Program

/-! ## What the functions execute -/

section All

variable {φ : Command → Prop} {r u : String}

theorem applyTtl_all {ttl : Nat} (h : ∀ ttl, φ (.expire r ttl)) :
    (RoomRepository.applyTtl r ttl).All φ := by
  simp [RoomRepository.applyTtl, h]

theorem extendTtl_all {ttl : Nat} (h : ∀ ttl, φ (.expire r ttl)) :
    (RoomRepository.extendTtl r ttl).All φ := by
  simp only [RoomRepository.extendTtl, RoomRepository.findById, All, ensures_bind, ensures_ask]
  intro s _
  split
  · exact (ensures_bind ..).mpr fun _ _ => applyTtl_all h
  · exact applyTtl_all h

theorem refreshTtl_all (h : ∀ ttl, φ (.expire r ttl)) :
    (RoomRepository.refreshTtl r).All φ := by
  simp only [RoomRepository.refreshTtl, RoomRepository.findById, All, ensures_bind, ensures_ask]
  intro s _
  split
  · exact (ensures_bind ..).mpr fun _ _ => applyTtl_all h
  · exact applyTtl_all h

theorem putPublicKey_all {key : Option String} (h : ∀ key, φ (.hput r .publicKeys u key)) :
    (RoomMemberPublicKeyRepository.put r u key).All φ := by
  unfold RoomMemberPublicKeyRepository.put
  split
  · trivial
  · simp [h]

theorem removeRecipientAllEpochs_all (h : ∀ epoch, φ (.removeBundle r epoch u)) :
    (RoomKeysRepository.removeRecipientAllEpochs r u).All φ :=
  (ensures_bind ..).mpr fun _ _ => ensures_forEach
    (fun epoch _ => (ensures_write _).mpr ⟨h epoch, fun _ _ => trivial⟩) trivial

theorem sendToMembers_all {members : List String} {event : Event}
    (h : ∀ member, φ (.send member event)) : (RoomHandler.sendToMembers members event).All φ :=
  ensures_forEach (fun member _ => (ensures_write _).mpr ⟨h member, fun _ _ => trivial⟩) trivial

/-- The commands that take a user out of a room. -/
inductive Cleanup (r u : String) : Command → Prop
  | member : Cleanup r u (.srem r .members u)
  | reverse : Cleanup r u (.removeRoom u r)
  | ttl (ttl : Nat) : Cleanup r u (.expireMembers r ttl)
  | publicKey : Cleanup r u (.hdel r .publicKeys u)
  | joinRequest : Cleanup r u (.del r [.joinRequest u])
  | requestIndex : Cleanup r u (.srem r .joinRequests u)
  | bundle (epoch : Int) : Cleanup r u (.removeBundle r epoch u)
  | role : Cleanup r u (.hdel r .roles u)

theorem remove_all (h : ∀ c, Cleanup r u c → φ c) : (RoomMembersRepository.remove r u).All φ := by
  simp [RoomMembersRepository.remove, h _ .member, h _ .reverse, h _ (.ttl _)]

theorem performKickCleanup_all (h : ∀ c, Cleanup r u c → φ c) :
    (RoomHandler.performKickCleanup r u).All φ := by
  refine (ensures_bind ..).mpr ((remove_all h).mono (fun _ h => h) (fun _ h => h) fun _ _ => ?_)
  simp only [RoomMemberPublicKeyRepository.remove, RoomJoinRequestRepository.remove,
    RoomRolesRepository.remove, ensures_bind, ensures_write]
  refine ⟨h _ .publicKey, fun _ _ => ⟨h _ .joinRequest, fun _ _ => ⟨h _ .requestIndex,
    fun _ _ => ?_⟩⟩⟩
  exact (removeRecipientAllEpochs_all fun epoch => h _ (.bundle epoch)).mono (fun _ h => h)
    (fun _ h => h) fun _ _ => ⟨h _ .role, fun _ _ => trivial⟩

theorem roleOf_all {room : Room} : (RoomService.roleOf r room u).All φ := by
  simp [RoomService.roleOf, RoomRolesRepository.getStoredRole]

theorem requireOwner_all : (RoomService.requireOwner r u).All φ := by
  simp [RoomService.requireOwner, RoomRepository.findById]

theorem requireAdminOrOwner_all : (RoomService.requireAdminOrOwner r u).All φ := by
  simp [RoomService.requireAdminOrOwner, RoomRepository.findById, RoomService.roleOf,
    RoomRolesRepository.getStoredRole]

theorem validateModerationTarget_all {room : Room} {actor : String} :
    (RoomService.validateModerationTarget r room actor u).All φ := by
  simp only [RoomService.validateModerationTarget, RoomMembersRepository.isMember, All,
    ensures_bind, ensures_demand, ensures_ask, implies_true]
  exact fun _ _ => Ensures.of_all roleOf_all fun _ => Ensures.of_all roleOf_all fun _ => by simp

theorem kickMember_all {caller : String} (h : ∀ c, Cleanup r u c → φ c)
    (hsend : ∀ member, φ (.send member (.memberRemoved r u))) :
    (RoomHandler.kickMember caller r u).All φ := by
  simp only [RoomHandler.kickMember, RoomMembersRepository.getMembers, All, ensures_bind,
    ensures_ask]
  refine Ensures.of_all requireAdminOrOwner_all fun room => ?_
  refine Ensures.of_all validateModerationTarget_all fun _ => ?_
  exact Ensures.of_all (performKickCleanup_all h) fun _ _ _ =>
    sendToMembers_all hsend

theorem banMember_all {owner : String} (h : ∀ c, Cleanup r u c → φ c)
    (hban : φ (.sadd r .bans u)) (hsend : ∀ member, φ (.send member (.memberRemoved r u))) :
    (RoomHandler.banMember owner r u).All φ := by
  simp only [RoomHandler.banMember, RoomMembersRepository.isMember, RoomBansRepository.add,
    RoomMembersRepository.getMembers, All, ensures_bind, ensures_ask, ensures_demand,
    ensures_write]
  refine Ensures.of_all requireOwner_all fun room _ _ s _ _ => ?_
  exact Ensures.of_all (performKickCleanup_all h) fun _ =>
    ⟨hban, fun _ _ _ _ => sendToMembers_all hsend⟩

theorem leaveRoom_all (h : ∀ c, Cleanup r u c → φ c)
    (hsend : ∀ member, φ (.send member (.memberLeft r u))) :
    (RoomHandler.leaveRoom u r).All φ := by
  simp only [RoomHandler.leaveRoom, RoomRepository.findById, RoomMembersRepository.isMember,
    RoomMemberPublicKeyRepository.remove, RoomMembersRepository.getMembers, All, ensures_bind,
    ensures_ask, ensures_found, ensures_demand, ensures_write]
  intro s _ room _ _ s' _ _
  refine Ensures.of_all (remove_all h) fun _ => ?_
  exact ⟨h _ .publicKey, fun _ _ _ _ => sendToMembers_all hsend⟩

theorem transferOwnership_all {owner : String} (hset : φ (.hset r [.ownerInternalId u]))
    (hexpire : ∀ ttl, φ (.expire r ttl)) (hput : ∀ v, φ (.hput r .roles v RoomRole.admin.apiValue))
    (hdel : φ (.hdel r .roles u)) : (RoomHandler.transferOwnership owner r u).All φ := by
  simp only [RoomHandler.transferOwnership, RoomService.transferOwnership,
    RoomMembersRepository.isMember, RoomRepository.updateOwnerInternalId,
    RoomRolesRepository.setRole, RoomRolesRepository.remove, All, ensures_bind, ensures_ask,
    ensures_demand, ensures_write]
  intro _
  refine Ensures.of_all requireOwner_all fun room s _ _ => ?_
  exact ⟨hset, fun _ _ => Ensures.of_all (refreshTtl_all hexpire) fun _ =>
    ⟨hput _, fun _ _ => ⟨hdel, fun _ _ => trivial⟩⟩⟩

/-- What a burn deletes: what other keys point to, and plain keys. -/
inductive Part where
  | files | members | invites | epochs
  | plain (key : Key)
deriving DecidableEq

def plainKeys : List Key :=
  [.autoBurn, .room, .hash .publicKeys, .messages, .set .bans, .set .muted, .hash .roles,
    .hash .presence]

/-- The commands of a burn, part by part. -/
inductive Cascade (r : String) : Part → Command → Prop
  | file (contextId fileId : String) : Cascade r .files (.srem contextId .files fileId)
  | fileMeta (fileId : String) : Cascade r .files (.delFile fileId)
  | fileIndex : Cascade r .files (.del r [.set .files])
  | reverse (u : String) : Cascade r .members (.removeRoom u r)
  | members : Cascade r .members (.del r [.set .members])
  | invites (tokens : List String) : Cascade r .invites (.delInvites tokens)
  | inviteIndex : Cascade r .invites (.del r [.set .invites])
  | epochs (last : Int) : Cascade r .epochs
      (.del r ((RoomKeysRepository.epochs last).map Key.bundles ++ [.epoch]))
  | plain (key : Key) (h : key ∈ plainKeys) : Cascade r (.plain key) (.del r [key])

theorem deleteFile_all {fileId : String} (h : ∀ c, Cascade r .files c → φ c) :
    (FileMetadataRepository.delete fileId).All φ := by
  simp only [FileMetadataRepository.delete, All, ensures_bind, ensures_ask]
  intro s _
  split
  · simp [h _ (.file _ _), h _ (.fileMeta _)]
  · trivial

theorem deleteFilesForContext_all (h : ∀ c, Cascade r .files c → φ c) :
    (FileBurnService.deleteFilesForContext r).All φ := by
  simp only [FileBurnService.deleteFilesForContext, All, ensures_bind, ensures_ask, ensures_write]
  exact fun s _ => ensures_forEach (fun _ _ => deleteFile_all h) ⟨h _ .fileIndex, fun _ _ => trivial⟩

theorem deleteMembers_all (h : ∀ c, Cascade r .members c → φ c) :
    (RoomMembersRepository.deleteAll r).All φ := by
  simp only [RoomMembersRepository.deleteAll, RoomMembersRepository.getMembers, All,
    ensures_bind, ensures_ask, ensures_write]
  exact fun s _ => ensures_forEach
    (fun u _ => (ensures_write _).mpr ⟨h _ (.reverse u), fun _ _ => trivial⟩)
    ⟨h _ .members, fun _ _ => trivial⟩

theorem deleteInvites_all (h : ∀ c, Cascade r .invites c → φ c) :
    (InviteTokenRepository.deleteAllForRoom r).All φ := by
  simp [InviteTokenRepository.deleteAllForRoom, h _ .inviteIndex, h _ (.invites _)]

theorem deleteKeys_all (h : ∀ c, Cascade r .epochs c → φ c) :
    (RoomKeysRepository.deleteRoom r).All φ := by
  simp only [RoomKeysRepository.deleteRoom, RoomKeysRepository.getCurrentEpoch, All,
    ensures_bind, ensures_ask, ensures_ite, ensures_write]
  exact fun s _ => ⟨fun _ => ⟨h _ (.epochs _), fun _ _ => trivial⟩, fun _ => trivial⟩

theorem burnRoomCascade_all (h : ∀ part c, Cascade r part c → φ c) :
    (RoomService.burnRoomCascade r).All φ := by
  have hdel : ∀ {key : Key} {Q : Unit → Prop}, key ∈ plainKeys → Q () →
      (write (.del r [key]) : Prog Unit).Ensures (fun _ => True) φ Q :=
    fun hk hQ => (ensures_write _).mpr ⟨h _ _ (.plain _ hk), fun _ _ => hQ⟩
  simp only [RoomService.burnRoomCascade, RoomMembersRepository.getMembers, All, ensures_bind,
    ensures_ask]
  intro s _
  refine Ensures.of_all (deleteFilesForContext_all (h _)) fun _ =>
    hdel (by decide) (hdel (by decide) ?_)
  refine Ensures.of_all (deleteMembers_all (h _)) fun _ => ?_
  refine Ensures.of_all (deleteInvites_all (h _)) fun _ => ?_
  refine Ensures.of_all (deleteKeys_all (h _)) fun _ => ?_
  exact hdel (by decide) (hdel (by decide) (hdel (by decide) (hdel (by decide)
    (hdel (by decide) trivial))))

theorem notifyRoomBurned_all {members : List String}
    (h : ∀ u burnedAt, φ (.recordBurn u r burnedAt)) :
    (RoomService.notifyRoomBurned r members).All φ := by
  simp only [RoomService.notifyRoomBurned, clock, All, ensures_bind, ensures_ask]
  exact fun s _ => ensures_forEach
    (fun u _ => (ensures_write _).mpr ⟨h u _, fun _ _ => trivial⟩) trivial

/-- The commands of a manual burn, or of an owner's. -/
theorem burnOwnedRoom_all (h : ∀ part c, Cascade r part c → φ c)
    (hnotify : ∀ u burnedAt, φ (.recordBurn u r burnedAt)) :
    (UserBurnService.burnOwnedRoom r u).All φ := by
  simp only [UserBurnService.burnOwnedRoom, RoomService.burnRoomAsOwner,
    RoomService.requireOwner, RoomRepository.findById, RoomPresenceRepository.deleteAll, All,
    ensures_bind, ensures_ask, ensures_found, ensures_demand, ensures_write, ensures_done,
    pure_eq]
  intro s _ room _ _
  exact Ensures.of_all (burnRoomCascade_all h) fun _ =>
    ⟨h _ _ (.plain _ (by decide)), fun _ _ => notifyRoomBurned_all hnotify⟩

theorem leaveMemberRoom_all (h : ∀ c, Cleanup r u c → φ c)
    (hsend : ∀ member, φ (.send member (.memberLeft r u))) :
    (UserBurnService.leaveMemberRoom r u).All φ := by
  simp only [UserBurnService.leaveMemberRoom, RoomMembersRepository.isMember,
    RoomMemberPublicKeyRepository.remove, RoomJoinRequestRepository.remove,
    RoomRolesRepository.remove, RoomMembersRepository.getMembers, All, ensures_bind, ensures_ask,
    ensures_ite, ensures_write, pure_eq, ensures_done]
  refine fun s _ => ⟨fun _ => ?_, fun _ => trivial⟩
  refine Ensures.of_all (remove_all h) fun _ => ?_
  refine ⟨h _ .publicKey, fun _ _ => ⟨h _ .joinRequest, fun _ _ => ⟨h _ .requestIndex,
    fun _ _ => ?_⟩⟩⟩
  refine Ensures.of_all (removeRecipientAllEpochs_all fun epoch => h _ (.bundle epoch)) fun _ => ?_
  exact ⟨h _ .role, fun _ _ _ _ => ensures_forEach
    (fun member _ => (ensures_write _).mpr ⟨hsend member, fun _ _ => trivial⟩) trivial⟩

theorem burnOwnedRooms_all (hcascade : ∀ r part c, Cascade r part c → φ c)
    (hnotify : ∀ u r burnedAt, φ (.recordBurn u r burnedAt)) :
    (UserBurnService.burnOwnedRooms u).All φ := by
  simp only [UserBurnService.burnOwnedRooms, RoomMembersRepository.getRoomsForMember,
    RoomRepository.findById, All, ensures_bind, ensures_ask]
  refine fun s _ => ensures_forEach (fun r _ => ?_) trivial
  rw [ensures_bind, ensures_ask]
  intro s' _
  split
  · trivial
  · rw [ensures_ite]
    exact ⟨fun _ => ensures_attempt (burnOwnedRoom_all (hcascade r) (hnotify · r)) trivial,
      fun _ => trivial⟩

theorem leaveMemberRooms_all (hcleanup : ∀ r c, Cleanup r u c → φ c)
    (hsend : ∀ r member, φ (.send member (.memberLeft r u))) :
    (UserBurnService.leaveMemberRooms u).All φ := by
  simp only [UserBurnService.leaveMemberRooms, RoomMembersRepository.getRoomsForMember,
    RoomRepository.findById, All, ensures_bind, ensures_ask]
  refine fun s _ => ensures_forEach (fun r _ => ?_) trivial
  rw [ensures_bind, ensures_ask]
  intro s' _
  split
  · trivial
  · rw [ensures_ite]
    exact ⟨fun _ => trivial,
      fun _ => ensures_attempt (leaveMemberRoom_all (hcleanup r) (hsend r)) trivial⟩

theorem burnAllForUser_all {wipeIdentity : Bool} (hcascade : ∀ r part c, Cascade r part c → φ c)
    (hnotify : ∀ u r burnedAt, φ (.recordBurn u r burnedAt))
    (hcleanup : ∀ r c, Cleanup r u c → φ c)
    (hsend : ∀ r member, φ (.send member (.memberLeft r u))) (hrooms : φ (.delRooms u)) :
    (UserBurnService.burnAllForUser u wipeIdentity).All φ := by
  refine (ensures_bind ..).mpr (Ensures.of_all (burnOwnedRooms_all hcascade hnotify) fun _ => ?_)
  refine (ensures_bind ..).mpr (Ensures.of_all (leaveMemberRooms_all hcleanup hsend) fun _ => ?_)
  simp [hrooms]

theorem deleteTokenAndIndex_all {token : String} (hdel : φ (.delInvites [token]))
    (hsrem : φ (.srem r .invites token)) :
    (InviteTokenRepository.deleteTokenAndIndex token r).All φ := by
  simp [InviteTokenRepository.deleteTokenAndIndex, hdel, hsrem]

theorem validateInviteToken_all {token : InviteToken} (hdel : ∀ token, φ (.delInvites [token]))
    (hsrem : ∀ r token, φ (.srem r .invites token)) :
    (InviteTokenService.validateInviteToken token).All φ := by
  simp [InviteTokenService.validateInviteToken, clock,
    InviteTokenRepository.deleteTokenAndIndex, hdel, hsrem]

theorem consumeInviteUse_all {token : String} (hincr : ∀ token, φ (.incrementUseCount token))
    (hdel : ∀ token, φ (.delInvites [token])) (hsrem : ∀ r token, φ (.srem r .invites token)) :
    (InviteTokenService.consumeInviteUse token).All φ := by
  simp only [InviteTokenService.consumeInviteUse, InviteTokenRepository.findByToken, All,
    ensures_bind, ensures_ask]
  intro s _
  split
  · trivial
  · simp [InviteTokenRepository.incrementUseCount, InviteTokenRepository.deleteTokenAndIndex,
      hincr, hdel, hsrem]

end All

/-! ## Requests -/

/-- The commands that bring a user into a room. -/
inductive Joining (r u : String) : Command → Prop
  | member : Joining r u (.sadd r .members u)
  | reverse : Joining r u (.addRoom u r)
  | ttl (ttl : Nat) : Joining r u (.expireMembers r ttl)
  | publicKey (key : String) : Joining r u (.hput r .publicKeys u key)

/-- The commands of a new invite. -/
inductive Inviting (r token : String) : Command → Prop
  | token (hash : InviteHash) (h : hash.roomId = some r) : Inviting r token (.putInvite token hash)
  | index : Inviting r token (.sadd r .invites token)

/-- The commands that take an invite back. -/
inductive Revoking : Command → Prop
  | token (token : String) : Revoking (.delInvites [token])
  | index (r token : String) : Revoking (.srem r .invites token)

/-- The commands that end a join request. -/
inductive Answering (r u : String) : Command → Prop
  | joinRequest : Answering r u (.del r [.joinRequest u])
  | index : Answering r u (.srem r .joinRequests u)

/-- The field that a request about the settings of a room writes. -/
def Op.setting : Op → Field → Prop
  | .setName .., .nameEncrypted _ => True
  | .setName .., .nameIv _ => True
  | .rekey .., .nameEncrypted _ => True
  | .rekey .., .nameIv _ => True
  | .setMessageTtl .., .messageTtl _ => True
  | .setReadOnly .., .readOnly _ => True
  | _, _ => False

/-- The room that a request about the settings of a room is about. -/
def Op.settingRoom : Op → Option String
  | .setName _ r _ _ => some r
  | .rekey _ r _ _ _ => some r
  | .setMessageTtl _ r _ _ => some r
  | .setReadOnly _ r _ => some r
  | _ => none

inductive May : Op → Command → Prop
  | create (owner request uuid token expiresAt) : May (.createRoom owner request uuid token expiresAt)
      (.hset (RoomService.roomIdOf request uuid) [.saved ⟨request.joinMode, request.passwordProofHash⟩,
        .ownerInternalId owner, .nameEncrypted request.nameEncrypted, .nameIv request.nameIv,
        .readOnly false])
  | createTtl (owner request uuid token expiresAt ttl) :
      May (.createRoom owner request uuid token expiresAt)
        (.expire (RoomService.roomIdOf request uuid) ttl)
  | createJoins (owner request uuid token expiresAt c)
      (h : Joining (RoomService.roomIdOf request uuid) owner c) :
      May (.createRoom owner request uuid token expiresAt) c
  | createInvites (owner request uuid token expiresAt c)
      (h : Inviting (RoomService.roomIdOf request uuid) token c) :
      May (.createRoom owner request uuid token expiresAt) c
  | invites (requester r token expiresAt maxUses c) (h : Inviting r token c) :
      May (.generateInviteLink requester r token expiresAt maxUses) c
  | revokes (requester r token c) (h : Revoking c) : May (.revokeInvite requester r token) c
  | joins (a r c) (h : Joining r a.senderInternalId c) : May (.requestJoin a) c
  | joinTtl (a r ttl) : May (.requestJoin a) (.expire r ttl)
  | requests (a r request) : May (.requestJoin a) (.putJoinRequest r a.senderInternalId request)
  | requestsIndex (a r) : May (.requestJoin a) (.sadd r .joinRequests a.senderInternalId)
  | counts (a token) : May (.requestJoin a) (.incrementUseCount token)
  | consumes (a c) (h : Revoking c) : May (.requestJoin a) c
  | approves (a u r) : May (.requestJoin a) (.send u (.joinApproved r))
  | tells (a o r u key) : May (.requestJoin a) (.send o (.autoApproved r u key))
  | accepts (owner r u c) (h : Joining r u c) : May (.acceptJoin owner r u) c
  | acceptAnswers (owner r u c) (h : Answering r u c) : May (.acceptJoin owner r u) c
  | acceptTtl (owner r u ttl) : May (.acceptJoin owner r u) (.expire r ttl)
  | acceptSends (owner r u) : May (.acceptJoin owner r u) (.send u (.joinApproved r))
  | rejects (owner r u c) (h : Answering r u c) : May (.rejectJoin owner r u) c
  | putsBundle (owner r u epoch bundle) :
      May (.sendKeyBundle owner r u epoch bundle) (.putBundle r epoch u bundle)
  | sendsBundle (owner r u epoch bundle) :
      May (.sendKeyBundle owner r u epoch bundle) (.send u (.keyBundle r epoch bundle))
  | servesBundle (caller r key epoch bundle) :
      May (.requestKeyBundle caller r key) (.send caller (.keyBundle r epoch bundle))
  | putsKey (caller r key) : May (.requestKeyBundle caller r key) (.hput r .publicKeys caller key)
  | dropsRequest (caller r key owner x u) :
      May (.requestKeyBundle caller r key) (.dropKeyRequest owner x u)
  | recordsRequest (caller r key owner now) :
      May (.requestKeyBundle caller r key) (.recordKeyRequest owner r caller now)
  | forwardsKey (caller r key owner) :
      May (.requestKeyBundle caller r key) (.send owner (.autoApproved r caller key))
  | rekeys (owner r epoch bundles name item) (h : item ∈ bundles) :
      May (.rekey owner r epoch bundles name)
        (.putBundle r epoch item.recipientInternalId item.bundle)
  | rekeyEpoch (owner r epoch bundles name) :
      May (.rekey owner r epoch bundles name) (.setEpoch r epoch)
  | rekeyDeletes (owner r epoch bundles name) : May (.rekey owner r epoch bundles name)
      (.del r [.bundles (RoomHandler.previousEpoch epoch)])
  | rekeySends (owner r epoch bundles name item) (h : item ∈ bundles) :
      May (.rekey owner r epoch bundles name)
        (.send item.recipientInternalId (.keyBundle r epoch item.bundle))
  | rekeyTells (owner r epoch bundles name u) :
      May (.rekey owner r epoch bundles name) (.send u (.roomRekey r epoch))
  | pubkeys (owner r keys epoch) :
      May (.getMemberPubkeys owner r) (.send owner (.memberPubkeys r keys epoch))
  | sets (op r field) (hr : op.settingRoom = some r) (h : op.setting field) : May op (.hset r [field])
  | setsTtl (op r ttl) (hr : op.settingRoom = some r) : May op (.expire r ttl)
  | burns (owner r part c) (h : Cascade r part c) : May (.burn owner r) c
  | burnNotes (owner r u now) : May (.burn owner r) (.recordBurn u r now)
  | autoBurnAt (owner r ttl at' t) : May (.setTtl owner r ttl at') (.hset r [.autoBurnAt t])
  | trigger (owner r ttl at' t) : May (.setTtl owner r ttl at') (.setTrigger r t)
  | hashTtl (owner r ttl at' t) : May (.setTtl owner r ttl at') (.expire r t)
  | prunes (owner r seconds messages) :
      May (.setMessageTtl owner r seconds messages) (.setMessages r messages)
  | kicks (caller r u c) (h : Cleanup r u c) : May (.kick caller r u) c
  | kickTells (caller r u v) : May (.kick caller r u) (.send v (.memberRemoved r u))
  | bans (owner r u c) (h : Cleanup r u c) : May (.ban owner r u) c
  | bansAdd (owner r u) : May (.ban owner r u) (.sadd r .bans u)
  | banTells (owner r u v) : May (.ban owner r u) (.send v (.memberRemoved r u))
  | unbans (owner r u) : May (.unban owner r u) (.srem r .bans u)
  | mutes (caller r u) : May (.mute caller r u) (.sadd r .muted u)
  | unmutes (caller r u) : May (.unmute caller r u) (.srem r .muted u)
  | promotes (owner r u role) :
      May (.setRole owner r u role) (.hput r .roles u RoomRole.admin.apiValue)
  | demotes (owner r u role) : May (.setRole owner r u role) (.hdel r .roles u)
  | transfers (owner r u) : May (.transferOwnership owner r u) (.hset r [.ownerInternalId u])
  | transferTtl (owner r u ttl) : May (.transferOwnership owner r u) (.expire r ttl)
  | transferPromotes (owner r u v) :
      May (.transferOwnership owner r u) (.hput r .roles v RoomRole.admin.apiValue)
  | transferClears (owner r u) : May (.transferOwnership owner r u) (.hdel r .roles u)
  | leaves (u r c) (h : Cleanup r u c) : May (.leave u r) c
  | leaveTells (u r v) : May (.leave u r) (.send v (.memberLeft r u))
  | burnsAll (u wipe r part c) (h : Cascade r part c) : May (.burnAll u wipe) c
  | burnsAllNotes (u wipe r v now) : May (.burnAll u wipe) (.recordBurn v r now)
  | leavesAll (u wipe r c) (h : Cleanup r u c) : May (.burnAll u wipe) c
  | leavesAllTells (u wipe r v) : May (.burnAll u wipe) (.send v (.memberLeft r u))
  | wipes (u wipe) : May (.burnAll u wipe) (.delRooms u)
  | writesMessages (u r messages) : May (.message u r messages) (.setMessages r messages)
  | messageTtl (u r messages ttl) : May (.message u r messages) (.expire r ttl)
  | uploads (u r f) : May (.upload u r f) (.putFile f r)
  | uploadIndex (u r f) : May (.upload u r f) (.sadd r .files f)
  | seen (u r now) : May (.presence u) (.hput r .presence u now)
  | takes (r event) : May (.expired r event) (.takeExpired r event)
  | expires (r event part c) (h : Cascade r part c) : May (.expired r event) c
  | expireNotes (r event u now) : May (.expired r event) (.recordBurn u r now)

section Requests

variable {φ : Command → Prop} {r u : String}

theorem add_all (h : ∀ c, Joining r u c → φ c) : (RoomMembersRepository.add r u).All φ := by
  simp [RoomMembersRepository.add, h _ .member, h _ .reverse, h _ (.ttl _)]

theorem saveInvite_all {token : String} {createdAt expiresAt : Nat} {maxUses : Option Int}
    (h : ∀ c, Inviting r token c → φ c) :
    (InviteTokenRepository.save token r createdAt expiresAt maxUses).All φ := by
  simp only [InviteTokenRepository.save, All, ensures_bind, ensures_write]
  exact ⟨h _ (.token _ rfl), fun _ _ => ⟨h _ .index, fun _ _ => trivial⟩⟩

theorem generateInviteLink_all {token : String} {expiresAt : Nat} {maxUses : Option Int}
    (h : ∀ c, Inviting r token c → φ c) :
    (InviteTokenService.generateInviteLink r u token expiresAt maxUses).All φ := by
  simp only [InviteTokenService.generateInviteLink, clock, All, ensures_bind, ensures_ask]
  exact Ensures.of_all requireAdminOrOwner_all fun _ _ _ => saveInvite_all h

theorem removeRequest_all (h : ∀ c, Answering r u c → φ c) :
    (RoomJoinRequestRepository.remove r u).All φ := by
  simp [RoomJoinRequestRepository.remove, h _ .joinRequest, h _ .index]

theorem setField_all {field : Field} (h : φ (.hset r [field])) (httl : ∀ ttl, φ (.expire r ttl)) :
    (do write (.hset r [field]); RoomRepository.refreshTtl r : Prog Unit).All φ :=
  (ensures_bind ..).mpr ⟨h, fun _ _ => refreshTtl_all httl⟩

theorem setRoomName_all {name iv : String} (hname : φ (.hset r [.nameEncrypted name]))
    (hiv : φ (.hset r [.nameIv iv])) (httl : ∀ ttl, φ (.expire r ttl)) :
    (RoomRepository.updateEncryptedName r name iv).All φ := by
  simp only [RoomRepository.updateEncryptedName, All, ensures_bind, ensures_write]
  exact ⟨hname, fun _ _ => ⟨hiv, fun _ _ => refreshTtl_all httl⟩⟩

theorem updateAutoBurnAt_all {t : Int} (hset : ∀ t, φ (.hset r [.autoBurnAt t]))
    (htrigger : ∀ t, φ (.setTrigger r t)) (httl : ∀ ttl, φ (.expire r ttl)) :
    (RoomRepository.updateAutoBurnAt r t).All φ := by
  simp only [RoomRepository.updateAutoBurnAt, RoomRepository.scheduleAutoBurnTrigger, clock, All,
    ensures_bind, ensures_ask, ensures_demand, ensures_write, ensures_ite, pure_eq, ensures_done]
  exact fun _ _ _ => ⟨hset _, fun _ _ => ⟨fun _ => applyTtl_all httl,
    fun _ => ⟨htrigger _, fun _ _ => applyTtl_all httl⟩⟩⟩

theorem createRoom_all {owner uuid : String} {request : CreateRoomRequest}
    (hset : φ (.hset (RoomService.roomIdOf request uuid)
      [.saved ⟨request.joinMode, request.passwordProofHash⟩, .ownerInternalId owner,
        .nameEncrypted request.nameEncrypted, .nameIv request.nameIv, .readOnly false]))
    (httl : ∀ ttl, φ (.expire (RoomService.roomIdOf request uuid) ttl))
    (hjoin : ∀ c, Joining (RoomService.roomIdOf request uuid) owner c → φ c) :
    (RoomService.createRoom owner request uuid).All φ := by
  have hrest : (RoomRepository.save (RoomService.roomIdOf request uuid)
      [.saved ⟨request.joinMode, request.passwordProofHash⟩, .ownerInternalId owner,
        .nameEncrypted request.nameEncrypted, .nameIv request.nameIv, .readOnly false] >>=
      fun _ => RoomMembersRepository.add (RoomService.roomIdOf request uuid) owner).All φ := by
    simp only [RoomRepository.save, All, ensures_bind, ensures_write]
    exact ⟨hset, fun _ _ => Ensures.of_all (applyTtl_all httl) fun _ => add_all hjoin⟩
  unfold RoomService.createRoom
  split
  · exact (ensures_bind ..).mpr fun _ _ => (ensures_bind ..).mpr
      ((ensures_demand ..).mpr fun _ => hrest)
  · exact hrest

theorem joinByPassword_all {room : Room} {a : JoinAttempt}
    (h : ∀ c, Joining r a.senderInternalId c → φ c) (httl : ∀ ttl, φ (.expire r ttl)) :
    (RoomJoinService.joinByPassword r room a).All φ := by
  refine (ensures_bind ..).mpr (Ensures.of_all (add_all h) fun _ => (ensures_bind ..).mpr ?_)
  refine Ensures.of_all (putPublicKey_all fun key => h _ (.publicKey key)) fun _ => ?_
  exact (ensures_bind ..).mpr (Ensures.of_all (extendTtl_all httl) fun _ => trivial)

theorem joinByRequest_all {a : JoinAttempt}
    (h : ∀ request, φ (.putJoinRequest r a.senderInternalId request))
    (hindex : φ (.sadd r .joinRequests a.senderInternalId)) :
    (RoomJoinService.joinByRequest r a).All φ := by
  simp [RoomJoinService.joinByRequest, RoomJoinRequestRepository.exists', clock,
    RoomJoinRequestRepository.save, h, hindex]

theorem requestJoin_all {a : JoinAttempt} (hjoin : ∀ r c, Joining r a.senderInternalId c → φ c)
    (httl : ∀ r ttl, φ (.expire r ttl))
    (hrequest : ∀ r request, φ (.putJoinRequest r a.senderInternalId request))
    (hindex : ∀ r, φ (.sadd r .joinRequests a.senderInternalId))
    (hcount : ∀ token, φ (.incrementUseCount token)) (hrevoke : ∀ c, Revoking c → φ c) :
    (RoomJoinService.requestJoin a).All φ := by
  have hrest : ∀ result : JoinResult, (do
      InviteTokenService.consumeInviteUse a.inviteToken
      pure result : Prog JoinResult).All φ := fun result =>
    (ensures_bind ..).mpr (Ensures.of_all (consumeInviteUse_all hcount
      (fun token => hrevoke _ (.token token)) fun r token => hrevoke _ (.index r token))
      fun _ => trivial)
  simp only [RoomJoinService.requestJoin, RoomJoinService.validatePasswordAndJoin,
    InviteTokenRepository.findByToken, RoomRepository.findById,
    RoomJoinService.continueJoinAfterPassword, RoomMembersRepository.isMember,
    RoomJoinService.ensureNotBanned, RoomBansRepository.isBanned, All, ensures_bind, ensures_ask,
    ensures_found, ensures_demand, ensures_ite]
  intro s _ token _
  refine Ensures.of_all (validateInviteToken_all (fun token => hrevoke _ (.token token))
    fun r token => hrevoke _ (.index r token)) ?_
  intro _ s' _ room _ _ s'' _ _ _ _ _
  exact ⟨fun _ => Ensures.of_all (joinByPassword_all (hjoin _) (httl _)) fun result =>
      (ensures_bind ..).mp (hrest result),
    fun _ => Ensures.of_all (joinByRequest_all (hrequest _) (hindex _)) fun result =>
      (ensures_bind ..).mp (hrest result)⟩

theorem requestJoinRoom_all {a : JoinAttempt} (h : (RoomJoinService.requestJoin a).All φ)
    (happroves : ∀ u r, φ (.send u (.joinApproved r)))
    (htells : ∀ o r u key, φ (.send o (.autoApproved r u key))) :
    (RoomHandler.requestJoinRoom a).All φ := by
  refine (ensures_bind ..).mpr (Ensures.of_all h fun result => ?_)
  cases result with
  | approved roomId owner =>
      refine (ensures_bind ..).mpr ⟨happroves _ _, fun _ _ => ?_⟩
      split
      · exact ⟨htells _ _ _ _, fun _ _ => trivial⟩
      · trivial
  | pending roomId => trivial

theorem acceptJoin_all {owner : String} (h : ∀ c, Joining r u c → φ c)
    (hanswer : ∀ c, Answering r u c → φ c) (httl : ∀ ttl, φ (.expire r ttl)) :
    (RoomJoinService.acceptJoin owner r u).All φ := by
  simp only [RoomJoinService.acceptJoin, RoomJoinService.loadRoomAsOwner,
    RoomRepository.findById, RoomJoinService.ensureNotBanned, RoomBansRepository.isBanned,
    RoomJoinRequestRepository.findByRoomAndSender, All, ensures_bind, ensures_ask, ensures_found,
    ensures_demand]
  intro s _ room _ _ s' _ _ s'' _ request _
  refine Ensures.of_all (add_all h) fun _ => ?_
  refine Ensures.of_all (putPublicKey_all fun key => h _ (.publicKey key)) fun _ => ?_
  exact Ensures.of_all (removeRequest_all hanswer) fun _ => extendTtl_all httl

theorem notifyOwnerForKeyBundle_all {key : String} {room : Room}
    (hput : φ (.hput r .publicKeys u key)) (hdrops : ∀ o x v, φ (.dropKeyRequest o x v))
    (hrecords : ∀ o now, φ (.recordKeyRequest o r u now))
    (hforwards : ∀ o, φ (.send o (.autoApproved r u key))) :
    (RoomHandler.notifyOwnerForKeyBundle r u key room).All φ := by
  have hput : (RoomMemberPublicKeyRepository.put r u (some key)).All φ := by
    simp [RoomMemberPublicKeyRepository.put, hput]
  have hrecord : ∀ o now, (RoomKeyRequestInboxRepository.record o r u now).All φ := by
    intro o now
    simp only [RoomKeyRequestInboxRepository.record, All, ensures_ite, ensures_bind, ensures_ask,
      ensures_write, pure_eq, ensures_done]
    refine ⟨fun _ _ _ _ _ => ⟨fun _ s _ => ?_, fun _ => ⟨hrecords _ _, fun _ _ => trivial⟩⟩,
      fun _ => trivial⟩
    split
    · exact ⟨hdrops _ _ _, fun _ _ => ⟨hrecords _ _, fun _ _ => trivial⟩⟩
    · exact ⟨hrecords _ _, fun _ _ => trivial⟩
  simp only [RoomHandler.notifyOwnerForKeyBundle, clock, All, ensures_bind, ensures_ask,
    ensures_write]
  exact Ensures.of_all hput fun _ s _ => Ensures.of_all (hrecord _ _) fun _ =>
    ⟨hforwards _, fun _ _ => trivial⟩

theorem requestKeyBundle_all {key : String}
    (hserves : ∀ epoch bundle, φ (.send u (.keyBundle r epoch bundle)))
    (hput : φ (.hput r .publicKeys u key)) (hdrops : ∀ o x v, φ (.dropKeyRequest o x v))
    (hrecords : ∀ o now, φ (.recordKeyRequest o r u now))
    (hforwards : ∀ o, φ (.send o (.autoApproved r u key))) :
    (RoomHandler.requestKeyBundle u r key).All φ := by
  have hnotify : ∀ room, (RoomHandler.notifyOwnerForKeyBundle r u key room).All φ :=
    fun room => notifyOwnerForKeyBundle_all hput hdrops hrecords hforwards
  simp only [RoomHandler.requestKeyBundle, RoomRepository.findById,
    RoomMembersRepository.isMember, RoomMemberPublicKeyRepository.get,
    RoomHandler.serveCurrentEpochBundle, RoomKeysRepository.getCurrentEpoch,
    RoomKeysRepository.getEncryptedKey, All, ensures_bind, ensures_ask, ensures_found,
    ensures_demand, ensures_ite, pure_eq, ensures_done]
  refine fun _ _ room _ _ _ _ _ _ _ => ⟨fun _ _ _ t _ => ?_, fun _ => hnotify room⟩
  split
  · exact ⟨hserves _ _, fun _ _ => trivial⟩
  · exact hnotify room

/-- The requests execute no other commands. -/
theorem program_may (op : Op) : op.program.All (May op) := by
  cases op with
  | createRoom owner request uuid token expiresAt =>
      refine (ensures_bind ..).mpr (Ensures.of_all (createRoom_all (.create ..)
        (.createTtl owner request uuid token expiresAt) (.createJoins _ _ _ _ _)) fun _ => ?_)
      refine (ensures_bind ..).mpr (ensures_attempt
        (generateInviteLink_all (.createInvites _ _ _ _ _)) ?_)
      exact putPublicKey_all fun key => .createJoins _ _ _ _ _ _ (.publicKey key)
  | generateInviteLink => exact generateInviteLink_all (.invites _ _ _ _ _)
  | revokeInvite requester r token =>
      simp only [Op.program, InviteTokenService.revokeInvite, InviteTokenRepository.findByToken,
        All, ensures_bind, ensures_ask, ensures_found, ensures_demand]
      exact Ensures.of_all requireAdminOrOwner_all fun _ _ _ _ _ _ => deleteTokenAndIndex_all
        (.revokes _ _ _ _ (.token token)) (.revokes _ _ _ _ (.index r token))
  | requestJoin a =>
      exact requestJoinRoom_all (requestJoin_all (.joins a) (.joinTtl a) (.requests a)
        (.requestsIndex a) (.counts a) (.consumes a)) (.approves a) (.tells a)
  | acceptJoin owner r u =>
      refine (ensures_bind ..).mpr (Ensures.of_all (acceptJoin_all (.accepts owner r u)
        (.acceptAnswers owner r u) (.acceptTtl owner r u)) fun _ => ?_)
      exact ⟨.acceptSends owner r u, fun _ _ => trivial⟩
  | rejectJoin owner r u =>
      simp only [Op.program, RoomJoinService.rejectJoin, RoomJoinService.loadRoomAsOwner,
        RoomRepository.findById, RoomJoinRequestRepository.exists', All, ensures_bind,
        ensures_ask, ensures_found, ensures_demand]
      exact fun _ _ _ _ _ _ _ _ => removeRequest_all (.rejects owner r u)
  | sendKeyBundle owner r u epoch bundle =>
      simp only [Op.program, RoomHandler.sendKeyBundle, RoomKeysRepository.putEncryptedKey, All,
        ensures_bind, ensures_write]
      exact Ensures.of_all requireOwner_all fun _ => ⟨.putsBundle .., fun _ _ =>
        ⟨.sendsBundle .., fun _ _ => trivial⟩⟩
  | requestKeyBundle caller r key =>
      exact requestKeyBundle_all (.servesBundle caller r key) (.putsKey ..)
        (.dropsRequest caller r key) (.recordsRequest caller r key) (.forwardsKey caller r key)
  | rekey owner r epoch bundles name =>
      simp only [Op.program, RoomHandler.rekey, RoomKeysRepository.putEncryptedKey,
        RoomKeysRepository.setCurrentEpoch, RoomKeysRepository.deleteEpoch, All, ensures_bind]
      refine Ensures.of_all requireOwner_all fun _ => ?_
      refine ensures_forEach (fun item h => (ensures_write _).mpr
        ⟨.rekeys _ _ _ _ _ item h, fun _ _ => trivial⟩) ?_
      have hrest : (do
          RoomKeysRepository.setCurrentEpoch r epoch
          RoomKeysRepository.deleteEpoch r (RoomHandler.previousEpoch epoch)
          forEach (bundles.filter fun item => hasText item.recipientInternalId) fun item => do
            write (.send item.recipientInternalId (.keyBundle r epoch item.bundle))
            write (.send item.recipientInternalId (.roomRekey r epoch)) : Prog Unit).All
              (May (.rekey owner r epoch bundles name)) := by
        simp only [RoomKeysRepository.setCurrentEpoch, RoomKeysRepository.deleteEpoch, All,
          ensures_bind, ensures_write]
        refine ⟨.rekeyEpoch .., fun _ _ => ⟨.rekeyDeletes .., fun _ _ => ?_⟩⟩
        refine ensures_forEach (fun item h => (ensures_bind ..).mpr
          ⟨.rekeySends _ _ _ _ _ item (List.mem_filter.mp h).1, fun _ _ =>
            ⟨.rekeyTells .., fun _ _ => trivial⟩⟩) trivial
      split
      · refine (ensures_bind ..).mpr (Ensures.of_all (setRoomName_all (.sets _ _ _ rfl trivial)
          (.sets _ _ _ rfl trivial) fun ttl => .setsTtl _ _ ttl rfl) fun _ => ?_)
        exact hrest
      · exact hrest
  | getMemberPubkeys owner r =>
      simp only [Op.program, RoomHandler.getMemberPubkeys, RoomMemberPublicKeyRepository.getAll,
        RoomKeysRepository.getCurrentEpoch, All, ensures_bind, ensures_ask, ensures_write]
      exact Ensures.of_all requireOwner_all fun _ _ _ _ _ => ⟨.pubkeys .., fun _ _ => trivial⟩
  | setName owner r name iv =>
      simp only [Op.program, RoomHandler.setRoomName, All, ensures_bind]
      exact Ensures.of_all requireOwner_all fun _ => setRoomName_all
        (.sets _ _ _ rfl trivial) (.sets _ _ _ rfl trivial) fun ttl => .setsTtl _ _ ttl rfl
  | burn owner r => exact burnOwnedRoom_all (.burns owner r) (.burnNotes owner r)
  | setTtl owner r ttl at' =>
      simp only [Op.program, RoomService.setRoomTtl, clock, All, ensures_bind, ensures_ask]
      refine Ensures.of_all requireOwner_all fun _ s _ => ?_
      split
      · trivial
      · exact updateAutoBurnAt_all (.autoBurnAt owner r ttl at') (.trigger owner r ttl at')
          (.hashTtl owner r ttl at')
  | setMessageTtl owner r seconds messages =>
      simp only [Op.program, RoomHandler.setMessageTtl, RoomRepository.updateMessageTtl, All,
        ensures_bind, ensures_demand, ensures_write]
      refine Ensures.of_all requireOwner_all fun _ _ => ⟨.sets _ _ _ rfl trivial, fun _ _ => ?_⟩
      exact Ensures.of_all (refreshTtl_all fun ttl => .setsTtl _ _ ttl rfl) fun _ =>
        ⟨.prunes .., fun _ _ => trivial⟩
  | kick caller r u => exact kickMember_all (.kicks caller r u) (.kickTells caller r u)
  | ban owner r u => exact banMember_all (.bans owner r u) (.bansAdd owner r u) (.banTells owner r u)
  | unban owner r u =>
      simp only [Op.program, RoomHandler.unbanMember, RoomBansRepository.remove, All,
        ensures_bind, ensures_write]
      exact Ensures.of_all requireOwner_all fun _ => ⟨.unbans owner r u, fun _ _ => trivial⟩
  | mute caller r u =>
      simp only [Op.program, RoomHandler.muteMember, RoomMutedRepository.add, All, ensures_bind,
        ensures_write]
      exact Ensures.of_all requireAdminOrOwner_all fun _ => Ensures.of_all
        validateModerationTarget_all fun _ => ⟨.mutes caller r u, fun _ _ => trivial⟩
  | unmute caller r u =>
      simp only [Op.program, RoomHandler.unmuteMember, RoomMutedRepository.remove, All,
        ensures_bind, ensures_write]
      exact Ensures.of_all requireAdminOrOwner_all fun _ =>
        ⟨.unmutes caller r u, fun _ _ => trivial⟩
  | setReadOnly caller r readOnly =>
      simp only [Op.program, RoomHandler.setReadOnly, RoomRepository.updateReadOnly, All,
        ensures_bind, ensures_write]
      exact Ensures.of_all requireAdminOrOwner_all fun _ => ⟨.sets _ _ _ rfl trivial, fun _ _ =>
        refreshTtl_all fun ttl => .setsTtl _ _ ttl rfl⟩
  | setRole owner r u role =>
      simp only [Op.program, RoomService.setRole, RoomMembersRepository.isMember,
        RoomRolesRepository.setRole, RoomRolesRepository.remove, All, ensures_bind,
        ensures_found, ensures_ask, ensures_demand, ensures_ite, ensures_write]
      exact fun _ _ => Ensures.of_all requireOwner_all fun _ _ _ _ _ =>
        ⟨fun _ => ⟨.promotes owner r u role, fun _ _ => trivial⟩,
          fun _ => ⟨.demotes owner r u role, fun _ _ => trivial⟩⟩
  | transferOwnership owner r u =>
      exact transferOwnership_all (.transfers owner r u) (.transferTtl owner r u)
        (.transferPromotes owner r u) (.transferClears owner r u)
  | leave u r => exact leaveRoom_all (.leaves u r) (.leaveTells u r)
  | burnAll u wipe =>
      exact burnAllForUser_all (.burnsAll u wipe) (fun v r => .burnsAllNotes u wipe r v)
        (.leavesAll u wipe) (.leavesAllTells u wipe) (.wipes u wipe)
  | message u r messages =>
      simp only [Op.program, roomMessage, RoomMembersRepository.isMember, All, ensures_bind,
        ensures_ask, ensures_demand, ensures_write]
      exact fun _ _ _ => ⟨.writesMessages u r messages, fun _ _ =>
        extendTtl_all (.messageTtl u r messages)⟩
  | upload u r f =>
      simp only [Op.program, uploadFile, RoomMembersRepository.isMember,
        FileMetadataRepository.save, All, ensures_bind, ensures_ask, ensures_demand,
        ensures_write]
      exact fun _ _ _ => ⟨.uploads u r f, fun _ _ => ⟨.uploadIndex u r f, fun _ _ => trivial⟩⟩
  | presence u =>
      simp only [Op.program, markInMemberRooms, RoomMembersRepository.getRoomsForMember, All,
        ensures_bind, ensures_ask]
      refine fun s _ => ensures_forEach (fun r _ => ?_) trivial
      simp only [RoomMembersRepository.isMember, RoomPresenceRepository.upsertLastSeen, clock,
        ensures_bind, ensures_ask, ensures_ite, ensures_write, pure_eq, ensures_done]
      exact fun _ _ => ⟨fun _ _ _ => ⟨.seen u r _, fun _ _ => trivial⟩, fun _ => trivial⟩
  | expired r event =>
      have hburn : (RoomService.burnRoomCascade r).All (May (.expired r event)) :=
        burnRoomCascade_all (.expires r event)
      have hnotify : ∀ members, (RoomService.notifyRoomBurned r members).All
          (May (.expired r event)) := fun members =>
        notifyRoomBurned_all (.expireNotes r event)
      refine (ensures_bind ..).mpr ⟨.takes r event, fun _ _ => ?_⟩
      cases event with
      | trigger =>
          simp only [RoomService.executeAutoBurnAndNotify, RoomRepository.findById, clock,
            ensures_bind, ensures_ask]
          intro s _
          split
          · trivial
          · simp only [ensures_bind, ensures_ask]
            intro s' _
            split
            · trivial
            · rw [ensures_ite, ensures_bind]
              exact ⟨fun _ => trivial, fun _ => Ensures.of_all hburn hnotify⟩
      | hash =>
          simp only [RoomService.executeHashExpiryCascade, RoomMembersRepository.getMembers,
            ensures_bind, ensures_ask, ensures_ite]
          exact fun s _ => ⟨fun _ => deleteInvites_all (.expires r .hash _),
            fun _ => Ensures.of_all hburn fun members => hnotify members⟩

end Requests

end Rooms

end BurnedChats

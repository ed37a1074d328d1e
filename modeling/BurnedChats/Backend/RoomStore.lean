import BurnedChats.Backend.RoomInvite
import BurnedChats.Lib.Program
import BurnedChats.Lib.Table

/-!
# The keys of rooms

Everything Redis holds about rooms. The keys whose name carries a room's id are
grouped by room in `RoomKeys`; the reverse index, the invite tokens, the file
metadata and the inboxes are keyed otherwise. `Command` has one constructor for
each kind of command, and `Store.exec` is its effect. An empty set or hash is a
missing key.

Only the times to live that some request depends on are kept: those of
`room:{id}`, of the auto-burn trigger and of the member set. What expires leaves
an event behind for the keyspace listener.
-/

namespace BurnedChats

namespace Rooms

open RoomInvite (JoinMode InviteHash)

/-! ## Rooms -/

/-- What only `RoomRepository.save` writes. -/
structure Saved where
  joinMode : JoinMode
  passwordProofHash : Option String

/-- The hash under `room:{id}`; an absent text is empty. -/
structure RoomHash where
  saved : Option Saved
  ownerInternalId : String
  nameEncrypted : String
  nameIv : String
  readOnly : Bool
  autoBurnAt : Option Nat
  messageTtl : Nat

inductive Field where
  | saved (saved : Saved)
  | ownerInternalId (internalId : String)
  | nameEncrypted (text : String)
  | nameIv (text : String)
  | readOnly (readOnly : Bool)
  | autoBurnAt (millis : Nat)
  | messageTtl (seconds : Nat)

def RoomHash.empty : RoomHash := ⟨none, "", "", "", false, none, 0⟩

def RoomHash.set (hash : RoomHash) : Field → RoomHash
  | .saved saved => { hash with saved := some saved }
  | .ownerInternalId internalId => { hash with ownerInternalId := internalId }
  | .nameEncrypted text => { hash with nameEncrypted := text }
  | .nameIv text => { hash with nameIv := text }
  | .readOnly readOnly => { hash with readOnly := readOnly }
  | .autoBurnAt t => { hash with autoBurnAt := some t }
  | .messageTtl seconds => { hash with messageTtl := seconds }

structure Room where
  ownerInternalId : String
  passwordProofHash : Option String
  joinMode : JoinMode
  readOnly : Bool
  autoBurnAt : Option Nat
  messageTtl : Nat

/-- `fromHash`; a hash that was never saved does not parse, and the room is not
found. -/
def RoomHash.parse (hash : RoomHash) : Option Room :=
  hash.saved.map fun saved =>
    ⟨hash.ownerInternalId, saved.passwordProofHash, saved.joinMode, hash.readOnly,
      hash.autoBurnAt, hash.messageTtl⟩

structure EncryptedKeyBundle where
  ephemeralPublicKey : String
  encryptedKey : String
  iv : String
deriving DecidableEq

/-- The hash `room_join_request:{room}:{sender}`. -/
structure RoomJoinRequest where
  createdAt : Nat
  publicKey : Option String
deriving DecidableEq

structure RoomMessage where
  messageId : String
  senderInternalId : Option String
  senderTgId : Option Int
  encryptedContent : String
  iv : String
  clientTimestamp : Option Nat
  serverTimestamp : Option Nat
  type : String
  fileId : Option String
  thumbnailFileId : Option String
  encryptedMeta : Option String
  fileSize : Option Nat
  replyToMessageId : Option String
  editedAt : Option Nat
deriving DecidableEq

/-! ## Keys -/

/-- The sets of a room: `room_members`, `room_bans`, `room_muted`,
`room_join_requests`, `room_invites` and `file_context`. -/
inductive SetKey where
  | members | bans | muted | joinRequests | invites | files
deriving DecidableEq

/-- The hashes of a room: `room_roles`, `room_member_pubkey` and `room_presence`. -/
inductive HashKey where
  | roles | publicKeys | presence
deriving DecidableEq

/-- The keys of a room, as `DEL` names them. -/
inductive Key where
  | room
  | autoBurn
  | set (key : SetKey)
  | hash (key : HashKey)
  | joinRequest (sender : String)
  | bundles (epoch : Int)
  | epoch
  | messages
deriving DecidableEq

inductive Expired where
  | trigger | hash
deriving DecidableEq

/-- The keys whose name carries the id of one room. `expired` are the keyspace
events of the room that wait for the listener. -/
structure RoomKeys where
  hash : Option RoomHash
  hashDeadline : Option Nat
  trigger : Option Nat
  sets : SetKey → List String
  membersDeadline : Option Nat
  hashes : HashKey → Table String String
  joinRequests : Table String RoomJoinRequest
  bundles : Int → Table String EncryptedKeyBundle
  epoch : Option Int
  messages : List RoomMessage
  expired : List Expired

def RoomKeys.empty : RoomKeys :=
  ⟨none, none, none, fun _ => [], none, fun _ => ∅, ∅, fun _ => ∅, none, [], []⟩

/-- What the handlers send to a user, as far as a client acts on it. -/
inductive Event where
  | keyBundle (roomId : String) (epoch : Int) (bundle : EncryptedKeyBundle)
  | roomRekey (roomId : String) (epoch : Int)
  | memberPubkeys (roomId : String) (publicKeys : List (String × String)) (epoch : Int)
  | memberLeft (roomId internalId : String)
  | memberRemoved (roomId internalId : String)
  | autoApproved (roomId internalId publicKey : String)
  | joinApproved (roomId : String)
deriving DecidableEq

structure Store where
  now : Nat
  room : String → RoomKeys
  memberRooms : String → List String
  invites : Table String InviteHash
  fileMeta : Table String String
  keyRequestInbox : String → Table (String × String) Nat
  burnInbox : List (String × String × Nat)
  sent : List (String × Event)

def Store.empty : Store := ⟨0, fun _ => .empty, fun _ => [], ∅, ∅, fun _ => ∅, [], []⟩

instance : Nonempty Store := ⟨.empty⟩

/-! ## Commands -/

inductive Command where
  | hset (roomId : String) (fields : List Field)
  | expire (roomId : String) (ttl : Nat)
  | setTrigger (roomId : String) (ttl : Nat)
  | sadd (roomId : String) (key : SetKey) (member : String)
  | srem (roomId : String) (key : SetKey) (member : String)
  | expireMembers (roomId : String) (ttl : Nat)
  | hput (roomId : String) (key : HashKey) (field value : String)
  | hdel (roomId : String) (key : HashKey) (field : String)
  | putJoinRequest (roomId sender : String) (request : RoomJoinRequest)
  | putBundle (roomId : String) (epoch : Int) (recipient : String) (bundle : EncryptedKeyBundle)
  | removeBundle (roomId : String) (epoch : Int) (recipient : String)
  | setEpoch (roomId : String) (epoch : Int)
  | setMessages (roomId : String) (messages : List RoomMessage)
  | del (roomId : String) (keys : List Key)
  | takeExpired (roomId : String) (event : Expired)
  | addRoom (internalId roomId : String)
  | removeRoom (internalId roomId : String)
  | delRooms (internalId : String)
  | putInvite (token : String) (hash : InviteHash)
  | incrementUseCount (token : String)
  | delInvites (tokens : List String)
  | putFile (fileId contextId : String)
  | delFile (fileId : String)
  | recordKeyRequest (owner roomId requester : String) (requestedAt : Nat)
  | dropKeyRequest (owner roomId requester : String)
  | drainKeyRequests (owner : String)
  | recordBurn (internalId roomId : String) (burnedAt : Nat)
  | send (internalId : String) (event : Event)

/-- What a set holds after `SADD` and after `SREM`. -/
def sadd (l : List String) (x : String) : List String := if x ∈ l then l else l ++ [x]

def srem (l : List String) (x : String) : List String := l.filter (· ≠ x)

@[simp] theorem mem_sadd {l : List String} {x y : String} : y ∈ sadd l x ↔ y ∈ l ∨ y = x := by
  unfold sadd
  split
  · exact ⟨Or.inl, fun h => h.elim id fun h => h ▸ ‹_›⟩
  · simp

@[simp] theorem mem_srem {l : List String} {x y : String} : y ∈ srem l x ↔ y ∈ l ∧ y ≠ x := by
  simp [srem]

/-- A key without members has no deadline. -/
def deadlineOf (members : List String) (deadline : Option Nat) : Option Nat :=
  if members.isEmpty then none else deadline

def RoomKeys.withSet (k : RoomKeys) (key : SetKey) (members : List String) : RoomKeys :=
  { k with
    sets := Function.update k.sets key members
    membersDeadline :=
      if key = .members then deadlineOf members k.membersDeadline else k.membersDeadline }

def RoomKeys.del (k : RoomKeys) : Key → RoomKeys
  | .room => { k with hash := none, hashDeadline := none }
  | .autoBurn => { k with trigger := none }
  | .set key => k.withSet key []
  | .hash key => { k with hashes := Function.update k.hashes key ∅ }
  | .joinRequest sender => { k with joinRequests := k.joinRequests.erase sender }
  | .bundles epoch => { k with bundles := Function.update k.bundles epoch ∅ }
  | .epoch => { k with epoch := none }
  | .messages => { k with messages := [] }

/-- The keys whose deadline has come are gone, and the listener will hear of it. -/
def RoomKeys.expireAt (now : Nat) (k : RoomKeys) : RoomKeys :=
  let hashDue := k.hashDeadline.any (· ≤ now)
  let triggerDue := k.trigger.any (· ≤ now)
  let members := if k.membersDeadline.any (· ≤ now) then k.withSet .members [] else k
  { members with
    hash := if hashDue then none else k.hash
    hashDeadline := if hashDue then none else k.hashDeadline
    trigger := if triggerDue then none else k.trigger
    expired := k.expired ++ (if triggerDue then [.trigger] else [])
      ++ (if hashDue then [.hash] else []) }

/-- The commands that change what a set of a room holds. -/
def Command.writesSet : Command → Bool
  | .sadd .. => true
  | .srem .. => true
  | .del .. => true
  | _ => false

/-- The commands that change the hash of a room. -/
def Command.writesHash : Command → Bool
  | .hset .. => true
  | .del .. => true
  | _ => false

/-- The commands that change what a hash of a room holds. -/
def Command.writesFields : Command → Bool
  | .hput .. => true
  | .hdel .. => true
  | .del .. => true
  | _ => false

namespace Store

/-- The store with the keys of one room changed. -/
def atRoom (s : Store) (roomId : String) (f : RoomKeys → RoomKeys) : Store :=
  { s with room := Function.update s.room roomId (f (s.room roomId)) }

section AtRoom

variable (s : Store) (r : String) (f : RoomKeys → RoomKeys)

@[simp] theorem atRoom_room : (s.atRoom r f).room r = f (s.room r) := Function.update_self ..

theorem atRoom_room_of_ne {r' : String} (h : r' ≠ r) : (s.atRoom r f).room r' = s.room r' :=
  Function.update_of_ne h ..

@[simp] theorem atRoom_now : (s.atRoom r f).now = s.now := rfl

@[simp] theorem atRoom_memberRooms : (s.atRoom r f).memberRooms = s.memberRooms := rfl

@[simp] theorem atRoom_invites : (s.atRoom r f).invites = s.invites := rfl

@[simp] theorem atRoom_fileMeta : (s.atRoom r f).fileMeta = s.fileMeta := rfl

@[simp] theorem atRoom_keyRequestInbox :
    (s.atRoom r f).keyRequestInbox = s.keyRequestInbox := rfl

end AtRoom

/-- The members of a set of a room. -/
def smembers (s : Store) (roomId : String) (key : SetKey) : List String := (s.room roomId).sets key

def sismember (s : Store) (roomId : String) (key : SetKey) (x : String) : Bool :=
  (s.smembers roomId key).contains x

def hget (s : Store) (roomId : String) (key : HashKey) (field : String) : Option String :=
  ((s.room roomId).hashes key).lookup field

/-- `HSET` on `room:{id}`; a missing hash is created. -/
def hset (fields : List Field) (hash : Option RoomHash) : RoomHash :=
  fields.foldl RoomHash.set (hash.getD .empty)

def exec (c : Command) (s : Store) : Store :=
  match c with
  | .hset r fields => s.atRoom r fun k => { k with hash := some (hset fields k.hash) }
  | .expire r ttl => s.atRoom r fun k =>
      { k with hashDeadline := if k.hash.isSome then some (s.now + ttl) else k.hashDeadline }
  | .setTrigger r ttl => s.atRoom r fun k => { k with trigger := some (s.now + ttl) }
  | .sadd r key x => s.atRoom r fun k => k.withSet key (sadd (k.sets key) x)
  | .srem r key x => s.atRoom r fun k => k.withSet key (srem (k.sets key) x)
  | .expireMembers r ttl => s.atRoom r fun k =>
      { k with membersDeadline := deadlineOf (k.sets .members) (some (s.now + ttl)) }
  | .hput r key field value => s.atRoom r fun k =>
      { k with hashes := Function.update k.hashes key ((k.hashes key).insert field value) }
  | .hdel r key field => s.atRoom r fun k =>
      { k with hashes := Function.update k.hashes key ((k.hashes key).erase field) }
  | .putJoinRequest r sender request => s.atRoom r fun k =>
      { k with joinRequests := k.joinRequests.insert sender request }
  | .putBundle r epoch recipient bundle => s.atRoom r fun k =>
      { k with
        bundles := Function.update k.bundles epoch ((k.bundles epoch).insert recipient bundle) }
  | .removeBundle r epoch recipient => s.atRoom r fun k =>
      { k with bundles := Function.update k.bundles epoch ((k.bundles epoch).erase recipient) }
  | .setEpoch r epoch => s.atRoom r fun k => { k with epoch := some epoch }
  | .setMessages r messages => s.atRoom r fun k => { k with messages := messages }
  | .del r keys => s.atRoom r fun k => keys.foldl RoomKeys.del k
  | .takeExpired r event => s.atRoom r fun k => { k with expired := k.expired.erase event }
  | .addRoom u r => { s with
      memberRooms := Function.update s.memberRooms u (sadd (s.memberRooms u) r) }
  | .removeRoom u r => { s with
      memberRooms := Function.update s.memberRooms u (srem (s.memberRooms u) r) }
  | .delRooms u => { s with memberRooms := Function.update s.memberRooms u [] }
  | .putInvite token hash => { s with invites := s.invites.insert token hash }
  | .incrementUseCount token => { s with
      invites := s.invites.insert token (RoomInvite.bump (s.invites.lookup token)) }
  | .delInvites tokens => { s with invites := tokens.foldl (fun t x => t.erase x) s.invites }
  | .putFile fileId contextId => { s with fileMeta := s.fileMeta.insert fileId contextId }
  | .delFile fileId => { s with fileMeta := s.fileMeta.erase fileId }
  | .recordKeyRequest owner r requester t => { s with
      keyRequestInbox := Function.update s.keyRequestInbox owner
        ((s.keyRequestInbox owner).insert (r, requester) t) }
  | .dropKeyRequest owner r requester => { s with
      keyRequestInbox := Function.update s.keyRequestInbox owner
        ((s.keyRequestInbox owner).erase (r, requester)) }
  | .drainKeyRequests owner => { s with
      keyRequestInbox := Function.update s.keyRequestInbox owner ∅ }
  | .recordBurn u r t => { s with burnInbox := s.burnInbox ++ [(u, r, t)] }
  | .send u event => { s with sent := s.sent ++ [(u, event)] }

/-! ### What the commands do to sets -/

section Sets

variable {s : Store} {r r' : String} {key key' : SetKey} {x y : String}

theorem withSet_sets {k : RoomKeys} {members : List String} :
    (k.withSet key members).sets key' = if key' = key then members else k.sets key' := by
  simp only [RoomKeys.withSet, Function.update_apply]

theorem smembers_atRoom {f : RoomKeys → RoomKeys} :
    (s.atRoom r f).smembers r' key'
      = if r' = r then (f (s.room r)).sets key' else s.smembers r' key' := by
  split
  · rename_i h
    rw [h, smembers, atRoom_room]
  · rename_i h
    rw [smembers, atRoom_room_of_ne s r f h, smembers]

@[simp] theorem mem_smembers_sadd : y ∈ (exec (.sadd r key x) s).smembers r' key'
    ↔ y ∈ s.smembers r' key' ∨ (r' = r ∧ key' = key ∧ y = x) := by
  rw [exec, smembers_atRoom]
  split
  · rename_i h
    subst h
    rw [withSet_sets]
    split
    · rename_i h
      subst h
      rw [mem_sadd]
      simp [smembers]
    · rename_i h
      simp [h, smembers]
  · rename_i h
    simp [h]

@[simp] theorem mem_smembers_srem : y ∈ (exec (.srem r key x) s).smembers r' key'
    ↔ y ∈ s.smembers r' key' ∧ ¬ (r' = r ∧ key' = key ∧ y = x) := by
  rw [exec, smembers_atRoom]
  split
  · rename_i h
    subst h
    rw [withSet_sets]
    split
    · rename_i h
      subst h
      rw [mem_srem]
      simp [smembers]
    · rename_i h
      simp [h, smembers]
  · rename_i h
    simp [h]

theorem sets_del {k : RoomKeys} {keys : List Key} :
    (keys.foldl RoomKeys.del k).sets key = if .set key ∈ keys then [] else k.sets key := by
  induction keys generalizing k with
  | nil => simp
  | cons d keys ih =>
      rw [List.foldl_cons, ih]
      have hd : (k.del d).sets key = if d = .set key then [] else k.sets key := by
        cases d with
        | set key' =>
            rw [RoomKeys.del, withSet_sets]
            simp only [Key.set.injEq, eq_comm]
        | _ => simp [RoomKeys.del]
      rw [hd]
      by_cases hmem : Key.set key ∈ keys
      · simp [hmem]
      · simp only [hmem, if_false, List.mem_cons, or_false, eq_comm]

@[simp] theorem mem_smembers_del {keys : List Key} :
    y ∈ (exec (.del r keys) s).smembers r' key'
      ↔ y ∈ s.smembers r' key' ∧ ¬ (r' = r ∧ .set key' ∈ keys) := by
  rw [exec, smembers_atRoom]
  split
  · rename_i h
    subst h
    rw [sets_del]
    split
    · rename_i h
      simp [h]
    · rename_i h
      simp [h, smembers]
  · rename_i h
    simp [h]

theorem smembers_atRoom_of {f : RoomKeys → RoomKeys} (h : ∀ k, (f k).sets = k.sets) :
    (s.atRoom r f).smembers = s.smembers := by
  funext r' key'
  rw [smembers_atRoom]
  split
  · rename_i hr
    rw [h, hr, smembers]
  · rfl

/-- Every other command leaves all sets as they are. -/
theorem smembers_exec {c : Command} (h : c.writesSet = false) :
    (exec c s).smembers = s.smembers := by
  cases c with
  | sadd => cases h
  | srem => cases h
  | del => cases h
  | _ =>
      first
      | rfl
      | rw [exec]
        exact smembers_atRoom_of fun _ => rfl

@[simp] theorem mem_memberRooms_addRoom : r' ∈ (exec (.addRoom x r) s).memberRooms y
    ↔ r' ∈ s.memberRooms y ∨ (r' = r ∧ y = x) := by
  by_cases h : y = x
  · subst h
    simp [exec]
  · simp [exec, h]

@[simp] theorem mem_memberRooms_removeRoom : r' ∈ (exec (.removeRoom x r) s).memberRooms y
    ↔ r' ∈ s.memberRooms y ∧ ¬ (r' = r ∧ y = x) := by
  by_cases h : y = x
  · subst h
    simp [exec]
  · simp [exec, h]

end Sets

/-! ### What the commands do to the hash of a room -/

/-- The hash under `room:{id}`. -/
def hash (s : Store) (roomId : String) : Option RoomHash := (s.room roomId).hash

section Hash

variable {s : Store} {r r' : String}

theorem hash_atRoom {f : RoomKeys → RoomKeys} :
    (s.atRoom r f).hash r' = if r' = r then (f (s.room r)).hash else s.hash r' := by
  split
  · rename_i h
    rw [h, hash, atRoom_room]
  · rename_i h
    rw [hash, atRoom_room_of_ne s r f h, hash]

theorem hash_atRoom_of {f : RoomKeys → RoomKeys} (h : ∀ k, (f k).hash = k.hash) :
    (s.atRoom r f).hash = s.hash := by
  funext r'
  rw [hash_atRoom]
  split
  · rename_i hr
    rw [h, hr, hash]
  · rfl

theorem hash_exec {c : Command} (h : c.writesHash = false) : (exec c s).hash = s.hash := by
  cases c with
  | hset => cases h
  | del => cases h
  | _ =>
      first
      | rfl
      | rw [exec]
        exact hash_atRoom_of fun _ => rfl

theorem hash_hset {fields : List Field} : (exec (.hset r fields) s).hash r'
    = if r' = r then some (hset fields (s.hash r)) else s.hash r' := by
  rw [exec, hash_atRoom]
  rfl

theorem hash_foldl_del {k : RoomKeys} {keys : List Key} :
    (keys.foldl RoomKeys.del k).hash = if .room ∈ keys then none else k.hash := by
  induction keys generalizing k with
  | nil => simp
  | cons d keys ih =>
      rw [List.foldl_cons, ih]
      have hd : (k.del d).hash = if d = .room then none else k.hash := by
        cases d <;> simp [RoomKeys.del, RoomKeys.withSet]
      rw [hd]
      by_cases hmem : Key.room ∈ keys
      · simp [hmem]
      · simp only [hmem, if_false, List.mem_cons, or_false, eq_comm]

theorem hash_del {keys : List Key} : (exec (.del r keys) s).hash r'
    = if r' = r ∧ .room ∈ keys then none else s.hash r' := by
  rw [exec, hash_atRoom]
  by_cases h : r' = r
  · subst h
    rw [hash_foldl_del]
    simp [hash]
  · simp [h]

end Hash

/-! ### What the commands do to the other hashes -/

section Fields

variable {s : Store} {r r' : String} {key key' : HashKey} {field field' value : String}

theorem hget_atRoom {f : RoomKeys → RoomKeys} : (s.atRoom r f).hget r' key field
    = if r' = r then ((f (s.room r)).hashes key).lookup field else s.hget r' key field := by
  split
  · rename_i h
    rw [h, hget, atRoom_room]
  · rename_i h
    rw [hget, atRoom_room_of_ne s r f h, hget]

theorem hget_atRoom_of {f : RoomKeys → RoomKeys} (h : ∀ k, (f k).hashes = k.hashes) :
    (s.atRoom r f).hget = s.hget := by
  funext r' key' field'
  rw [hget_atRoom]
  split
  · rename_i hr
    rw [h, hr, hget]
  · rfl

theorem hget_exec {c : Command} (h : c.writesFields = false) : (exec c s).hget = s.hget := by
  cases c with
  | hput => cases h
  | hdel => cases h
  | del => cases h
  | _ =>
      first
      | rfl
      | rw [exec]
        exact hget_atRoom_of fun _ => rfl

theorem hget_hput : (exec (.hput r key field value) s).hget r' key' field'
    = if r' = r ∧ key' = key ∧ field' = field then some value else s.hget r' key' field' := by
  rw [exec, hget_atRoom]
  by_cases hr : r' = r
  · subst hr
    by_cases hk : key' = key
    · subst hk
      by_cases hf : field' = field
      · subst hf
        simp
      · simp [hf, hget]
    · simp [hk, hget]
  · simp [hr]

theorem hget_hdel : (exec (.hdel r key field) s).hget r' key' field'
    = if r' = r ∧ key' = key ∧ field' = field then none else s.hget r' key' field' := by
  rw [exec, hget_atRoom]
  by_cases hr : r' = r
  · subst hr
    by_cases hk : key' = key
    · subst hk
      by_cases hf : field' = field
      · subst hf
        simp
      · simp [hf, hget]
    · simp [hk, hget]
  · simp [hr]

theorem hashes_foldl_del {k : RoomKeys} {keys : List Key} :
    (keys.foldl RoomKeys.del k).hashes key = if .hash key ∈ keys then ∅ else k.hashes key := by
  induction keys generalizing k with
  | nil => simp
  | cons d keys ih =>
      rw [List.foldl_cons, ih]
      have hd : (k.del d).hashes key = if d = .hash key then ∅ else k.hashes key := by
        cases d with
        | hash key' => simp only [RoomKeys.del, Function.update_apply, Key.hash.injEq, eq_comm]
        | _ => simp [RoomKeys.del, RoomKeys.withSet]
      rw [hd]
      by_cases hmem : Key.hash key ∈ keys
      · simp [hmem]
      · simp only [hmem, if_false, List.mem_cons, or_false, eq_comm]

theorem hget_del {keys : List Key} : (exec (.del r keys) s).hget r' key field
    = if r' = r ∧ .hash key ∈ keys then none else s.hget r' key field := by
  rw [exec, hget_atRoom]
  by_cases hr : r' = r
  · subst hr
    rw [hashes_foldl_del]
    by_cases hk : Key.hash key ∈ keys
    · simp [hk]
    · simp [hk, hget]
  · simp [hr]

end Fields

/-- A millisecond passes. -/
def tick (s : Store) : Store :=
  { s with now := s.now + 1, room := fun r => (s.room r).expireAt (s.now + 1) }

end Store

/-- The room that `findById` finds. -/
def findRoom (s : Store) (r : String) : Option Room := (s.hash r).bind RoomHash.parse

end Rooms

end BurnedChats

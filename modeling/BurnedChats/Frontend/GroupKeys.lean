import BurnedChats.Backend.RoomOperations

/-!
# Group keys in a client

The keys of rooms that a client holds in memory, by epoch, and what the hooks do with
them: `useCreateRoom` stores the first one, `useRekeyRoom` puts a new one in its place
and wraps it for the members, `useRoomJoinRequests` wraps the current one for a member.
A hook waits for WebCrypto between reading the key store and publishing; `Rekeying` is
what `useRekeyRoom` remembers meanwhile.
-/

namespace BurnedChats

namespace GroupKeys

open Rooms (BundleItem EncryptedKeyBundle)

/-! ## The key store -/

/-- A key of AES-GCM, known by a number. -/
abbrev GroupKey := Nat

structure RoomGroupKeyEntry where
  epoch : Int
  key : GroupKey
deriving DecidableEq

/-- The epochs of a room; the latest is among them, unless there is none. -/
structure RoomGroupKeyBucket where
  latestEpoch : Int
  epochs : Table Int GroupKey
  least : -1 ≤ latestEpoch
  held : latestEpoch = -1 ∨ (epochs.lookup latestEpoch).isSome = true

namespace RoomGroupKeyBucket

def empty : RoomGroupKeyBucket := ⟨-1, ∅, le_refl _, .inl rfl⟩

def set (bucket : RoomGroupKeyBucket) (epoch : Int) (key : GroupKey) : RoomGroupKeyBucket where
  latestEpoch := if bucket.latestEpoch ≤ epoch then epoch else bucket.latestEpoch
  epochs := bucket.epochs.insert epoch key
  least := by
    have hleast := bucket.least
    split <;> omega
  held := by
    by_cases hle : bucket.latestEpoch ≤ epoch
    · rw [if_pos hle, AList.lookup_insert]
      exact .inr rfl
    · have hne : bucket.latestEpoch ≠ epoch := by omega
      rw [if_neg hle, AList.lookup_insert_ne hne]
      exact bucket.held

end RoomGroupKeyBucket

/-- The key store of a client and the refs of `useRekeyRoom`. -/
structure Client where
  groupKeyStore : String → Option RoomGroupKeyBucket
  pendingRoomId : Option String
  pendingBootstrap : Bool

namespace Client

def empty : Client := ⟨fun _ => none, none, false⟩

def storeGroupKey (c : Client) (roomId : String) (epoch : Int) (key : GroupKey) : Client :=
  { c with
    groupKeyStore := Function.update c.groupKeyStore roomId
      (some (((c.groupKeyStore roomId).getD .empty).set epoch key)) }

def getGroupKeyEntry (c : Client) (roomId : String) : Option RoomGroupKeyEntry :=
  (c.groupKeyStore roomId).bind fun bucket =>
    if bucket.latestEpoch < 0 then none
    else (bucket.epochs.lookup bucket.latestEpoch).map fun key => ⟨bucket.latestEpoch, key⟩

def burnGroupKey (c : Client) (roomId : String) : Client :=
  { c with groupKeyStore := Function.update c.groupKeyStore roomId none }

def burnAllGroupKeys (c : Client) : Client := { c with groupKeyStore := fun _ => none }

/-! ## Rotating a key -/

/-- `failRekey`, and `reset`. -/
def failRekey (c : Client) : Client := { c with pendingRoomId := none, pendingBootstrap := false }

def rekeyRoom (c : Client) (roomId : String) (bootstrap : Bool) : Client :=
  { c with pendingRoomId := some roomId, pendingBootstrap := bootstrap }

end Client

/-- A rekey between the answer of the server and its publication. -/
structure Rekeying where
  roomId : String
  newEpoch : Int
  publicKeys : List (String × String)

/-- The first part of `handleMemberPubkeys`: the room is the one that is pending, whatever
room the answer is about. -/
def Client.handleMemberPubkeys (c : Client) (dataRoomId : String)
    (publicKeys : List (String × String)) (currentEpoch : Int) : Client × Option Rekeying :=
  let roomId := c.pendingRoomId.getD dataRoomId
  if roomId = "" then (c.failRekey, none)
  else
    match c.getGroupKeyEntry roomId with
    | some currentEntry => (c, some ⟨roomId, currentEntry.epoch + 1, publicKeys⟩)
    | none =>
        if c.pendingBootstrap then (c, some ⟨roomId, currentEpoch + 1, publicKeys⟩)
        else (c.failRekey, none)

/-- The bundles for everybody else; none if one of the keys cannot be wrapped. -/
def Rekeying.bundles (rekey : Rekeying) (myId : String)
    (wrapGroupKey : String × String → Option EncryptedKeyBundle) : Option (List BundleItem) :=
  (rekey.publicKeys.filter fun member => member.1 ≠ myId).mapM fun member =>
    (wrapGroupKey member).map fun bundle => ⟨member.1, bundle⟩

/-! ## The latest key -/

section Latest

variable {c : Client} {r r' : String} {epoch : Int} {key : GroupKey} {entry : RoomGroupKeyEntry}

@[simp] theorem getGroupKeyEntry_failRekey : c.failRekey.getGroupKeyEntry r = c.getGroupKeyEntry r :=
  rfl

@[simp] theorem getGroupKeyEntry_rekeyRoom {bootstrap : Bool} :
    (c.rekeyRoom r' bootstrap).getGroupKeyEntry r = c.getGroupKeyEntry r := rfl

theorem getGroupKeyEntry_of_ne (h : r ≠ r') :
    (c.storeGroupKey r' epoch key).getGroupKeyEntry r = c.getGroupKeyEntry r := by
  simp only [Client.getGroupKeyEntry, Client.storeGroupKey, Function.update_of_ne h]

theorem getGroupKeyEntry_burnGroupKey :
    (c.burnGroupKey r').getGroupKeyEntry r
      = if r = r' then none else c.getGroupKeyEntry r := by
  simp only [Client.getGroupKeyEntry, Client.burnGroupKey, Function.update_apply]
  split
  · rfl
  · rfl

/-- A key of a later epoch becomes the latest. -/
theorem getGroupKeyEntry_storeGroupKey (hepoch : 0 ≤ epoch)
    (h : ∀ entry, c.getGroupKeyEntry r = some entry → entry.epoch ≤ epoch) :
    (c.storeGroupKey r epoch key).getGroupKeyEntry r = some ⟨epoch, key⟩ := by
  have hle : ((c.groupKeyStore r).getD .empty).latestEpoch ≤ epoch := by
    cases hb : c.groupKeyStore r with
    | none => exact (by decide : (-1 : Int) ≤ 0).trans hepoch
    | some bucket =>
        rw [Option.getD_some]
        by_contra hlt
        have hpos : ¬ bucket.latestEpoch < 0 := by omega
        rcases bucket.held with hnone | hsome
        · omega
        · obtain ⟨old, hold⟩ := Option.isSome_iff_exists.mp hsome
          have hentry : c.getGroupKeyEntry r = some ⟨bucket.latestEpoch, old⟩ := by
            rw [Client.getGroupKeyEntry, hb, Option.bind_some, if_neg hpos, hold]
            rfl
          exact hlt (h _ hentry)
  have hneg : ¬ epoch < 0 := Int.not_lt.mpr hepoch
  simp only [Client.getGroupKeyEntry, Client.storeGroupKey, Function.update_self,
    Option.bind_some, RoomGroupKeyBucket.set, if_pos hle, if_neg hneg, AList.lookup_insert,
    Option.map_some]

end Latest

end GroupKeys

end BurnedChats

import BurnedChats.Frontend.OwnerEpochs

/-!
# Rooms and the devices of their users

Any number of devices in front of one server, each with a key store of its own. What a
device publishes waits until the server takes it up, in any order, and the server then
works on any number of requests at once, command by command. What it sends to a user
every device of that user can take up once, in any order.

The hooks that concern group keys are requests in the pool, like those of the server:
`useCreateRoom`, `useRoomJoinRequests`, `useRekeyRoom` and `useKeyBundle`. They wait for
WebCrypto between what they read and what they store or publish. Only they ask to write
the keys of a room.
-/

namespace BurnedChats

namespace RoomDevices

open Rooms Store GroupKeys Interleave
open OwnerEpochs (accepted)

/-! ## Devices -/

/-- What the hooks use of WebCrypto. `seed` stands for the ephemeral key and the nonce;
AES-GCM unwraps a bundle to the key that was wrapped, or to none. -/
structure WebCrypto where
  wrapGroupKey : GroupKey → String → Nat → Option EncryptedKeyBundle
  unwrapGroupKey : EncryptedKeyBundle → Nat → Option GroupKey
  unwrap_wrap : ∀ {key key' : GroupKey} {publicKey : String} {seed privateKey : Nat}
    {bundle : EncryptedKeyBundle}, wrapGroupKey key publicKey seed = some bundle →
    unwrapGroupKey bundle privateKey = some key' → key' = key

/-- `heard` and `created` are the places of the events that it has taken up. -/
structure Device where
  user : String
  client : Client
  heard : List Nat
  created : List Nat

/-- `created` are the events `ROOM_CREATED`, with their recipients. -/
structure World where
  redis : Store
  created : List (String × String)
  requests : List Op
  devices : List Device

/-- What a rekey draws: a key, and a seed for each recipient; none where that throws. -/
structure Randomness where
  generated : Option GroupKey
  seed : String → Option Nat

/-- The hooks, and the server's work on a request. -/
inductive Job where
  | inbound (i : Nat)
  | serving (call : RoomCall)
  | roomCreated (d i : Nat) (key : GroupKey)
  | acceptRequest (d : Nat) (roomId internalId publicKey : String) (seed : Option Nat)
  | joinRequest (d i : Nat) (seed : Option Nat)
  | sealing (owner roomId internalId : String) (epoch : Int) (bundle : Option EncryptedKeyBundle)
  | memberPubkeys (d i : Nat) (random : Randomness) (name : Option (String × String))
  | generating (d : Nat) (rekey : Rekeying) (random : Randomness) (name : Option (String × String))
  | wrapping (d : Nat) (rekey : Rekeying) (key : GroupKey) (seed : String → Option Nat)
      (name : Option (String × String))
  | keyBundle (d i : Nat) (privateKey : Option Nat)
  | unwrapping (d : Nat) (roomId : String) (epoch : Int) (key : Option GroupKey)
  | ended

/-- What else happens: a device connects, somebody asks for something that is not about
keys, the listener takes up a keyspace event, a user starts a rekey or gives it up, keys are
burned, time passes, and a key expires in Redis. -/
inductive Move where
  | connect (user : String)
  | request (op : Op)
  | expired (roomId : String) (event : Expired)
  | rekeyRoom (d : Nat) (roomId : String) (bootstrap : Bool)
  | reset (d : Nat)
  | burnGroupKey (d : Nat) (roomId : String)
  | burnAllGroupKeys (d : Nat)
  | tick
  | expire (roomId : String) (key : Key)

/-- The requests that no hook of these publishes. -/
def ofClients : Op → Bool
  | .sendKeyBundle .. => false
  | .rekey .. => false
  | .expired .. => false
  | _ => true

/-- The owner hears of the room when the request has been processed. -/
def createdBy : RoomCall → List (String × String)
  | .running (.createRoom owner request uuid _ _) (.done _) =>
      [(owner, RoomService.roomIdOf request uuid)]
  | _ => []

namespace World

def empty : World := ⟨.empty, [], [], []⟩

def publish (w : World) (op : Op) : World := { w with requests := w.requests ++ [op] }

def setDevice (w : World) (d : Nat) (v : Device) : World :=
  { w with devices := w.devices.set d v }

/-- The event at `i`, where the device has not taken it up. -/
def event (w : World) (d i : Nat) : Option (Device × Event) := do
  let v ← w.devices[d]?
  let (user, event) ← w.redis.sent[i]?
  if user = v.user ∧ i ∉ v.heard then some (v, event) else none

end World

namespace Device

def hear (v : Device) (i : Nat) : Device := { v with heard := i :: v.heard }

def storeGroupKey (v : Device) (roomId : String) (epoch : Int) (key : GroupKey) : Device :=
  { v with client := v.client.storeGroupKey roomId epoch key }

/-- The key for an epoch, `getGroupKeyForEpoch`. -/
def groupKey (v : Device) (roomId : String) (epoch : Int) : Option GroupKey :=
  (v.client.groupKeyStore roomId).bind fun bucket => bucket.epochs.lookup epoch

end Device

/-! ## Steps -/

section Steps

variable (W : WebCrypto)

/-- The next step of a hook or of the server. -/
def step : Job → World → Option (World × Job)
  | .inbound i, w => w.requests[i]?.map fun op =>
      ({ w with requests := w.requests.eraseIdx i },
        if accepted op then .serving (.arriving op) else .ended)
  | .serving call, w => (Rooms.server.step call w.redis).map fun (redis, call) =>
      ({ w with redis := redis, created := w.created ++ createdBy call }, .serving call)
  | .roomCreated d i key, w =>
      match w.devices[d]?, w.created[i]? with
      | some v, some (user, roomId) =>
          if user = v.user ∧ i ∉ v.created then
            let v := { v with created := i :: v.created }
            some (w.setDevice d (v.storeGroupKey roomId 0 key), .ended)
          else none
      | _, _ => none
  | .acceptRequest d roomId internalId publicKey seed, w => w.devices[d]?.map fun v =>
      let w := w.publish (.acceptJoin v.user roomId internalId)
      match v.client.getGroupKeyEntry roomId with
      | some entry => (w, .sealing v.user roomId internalId entry.epoch
          (seed.bind (W.wrapGroupKey entry.key publicKey)))
      | none => (w, .ended)
  | .joinRequest d i seed, w =>
      match w.event d i with
      | some (v, .autoApproved roomId internalId publicKey) =>
          let w := w.setDevice d (v.hear i)
          match v.client.getGroupKeyEntry roomId with
          | some entry => some (w, .sealing v.user roomId internalId entry.epoch
              (seed.bind (W.wrapGroupKey entry.key publicKey)))
          | none => some (w, .ended)
      | _ => none
  | .sealing owner roomId internalId epoch bundle, w =>
      match bundle with
      | some bundle => some
          (w.publish (.sendKeyBundle owner roomId internalId epoch bundle), .ended)
      | none => some (w, .ended)
  | .memberPubkeys d i random name, w =>
      match w.event d i with
      | some (v, .memberPubkeys roomId publicKeys epoch) =>
          let (client, rekey) := v.client.handleMemberPubkeys roomId publicKeys epoch
          let w := w.setDevice d { v.hear i with client := client }
          match rekey with
          | some rekey => some (w, .generating d rekey random name)
          | none => some (w, .ended)
      | _ => none
  | .generating d rekey random name, w => w.devices[d]?.map fun v =>
      match random.generated with
      | some key => (w.setDevice d (v.storeGroupKey rekey.roomId rekey.newEpoch key),
          .wrapping d rekey key random.seed name)
      | none => (w.setDevice d { v with client := v.client.failRekey }, .ended)
  | .wrapping d rekey key seed name, w => w.devices[d]?.map fun v =>
      let w := w.setDevice d { v with client := v.client.failRekey }
      match rekey.bundles v.user fun member =>
          (seed member.1).bind (W.wrapGroupKey key member.2) with
      | some (item :: items) =>
          (w.publish (.rekey v.user rekey.roomId rekey.newEpoch (item :: items) name), .ended)
      | _ => (w, .ended)
  | .keyBundle d i privateKey, w =>
      match w.event d i with
      | some (v, .keyBundle roomId epoch bundle) => some (w.setDevice d (v.hear i),
          .unwrapping d roomId epoch (privateKey.bind (W.unwrapGroupKey bundle)))
      | _ => none
  | .unwrapping d roomId epoch key, w => w.devices[d]?.map fun v =>
      match key with
      | some key => (w.setDevice d (v.storeGroupKey roomId epoch key), .ended)
      | none => (w, .ended)
  | .ended, _ => none

def env : Move → World → Option World
  | .connect user, w => some { w with devices := w.devices ++ [⟨user, .empty, [], []⟩] }
  | .request op, w => if ofClients op then some (w.publish op) else none
  | .expired roomId event, w =>
      if event ∈ (w.redis.room roomId).expired then some (w.publish (.expired roomId event))
      else none
  | .rekeyRoom d roomId bootstrap, w => w.devices[d]?.map fun v =>
      (w.setDevice d { v with client := v.client.rekeyRoom roomId bootstrap }).publish
        (.getMemberPubkeys v.user roomId)
  | .reset d, w => w.devices[d]?.map fun v =>
      w.setDevice d { v with client := v.client.failRekey }
  | .burnGroupKey d roomId, w => w.devices[d]?.map fun v =>
      w.setDevice d { v with client := v.client.burnGroupKey roomId }
  | .burnAllGroupKeys d, w => w.devices[d]?.map fun v =>
      w.setDevice d { v with client := v.client.burnAllGroupKeys }
  | .tick, w => some { w with redis := w.redis.tick }
  | .expire roomId key, w => some { w with redis := Store.exec (.del roomId [key]) w.redis }

def system : Server World Job Move where
  opens
    | .inbound _ => true
    | .roomCreated .. => true
    | .acceptRequest .. => true
    | .joinRequest .. => true
    | .memberPubkeys .. => true
    | .keyBundle .. => true
    | _ => false
  step := step W
  env := env

end Steps

abbrev State := Conf World Job

def State.start : State := ⟨.empty, []⟩

end RoomDevices

end BurnedChats

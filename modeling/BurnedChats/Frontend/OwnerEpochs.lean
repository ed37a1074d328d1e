import BurnedChats.Backend.KeyEpochs
import BurnedChats.Frontend.GroupKeys

/-!
# The epochs of an owner and of the server

The owner of a room counts the epochs of its key himself and the server stores what it
is told. Requests wait in one queue and are processed one after the other, each on its
own; what the server sends waits until a client takes it up, in any order. The hooks of
the owner's client are requests in the pool: `handleMemberPubkeys` waits for WebCrypto
before it stores the new key and again before it publishes, and `sendBundle` once.

`epochs_agree` says that the two counts agree whenever no rekey is under way, that the
server's never decreases, and that the bundles of past epochs are gone, in every run
whose rekeys are all published, one at a time (`Orderly`).
-/

namespace BurnedChats

namespace OwnerEpochs

open Rooms Store GroupKeys
open Interleave

/-! ## The owner's client and the server -/

/-- `created` are the events `ROOM_CREATED` for the owner that he has not taken up. -/
structure World where
  redis : Store
  requests : List Op
  created : List String
  client : Client

/-- What WebCrypto gives: the new key and the bundles, none where it throws. -/
structure Crypto where
  generateGroupKey : Option GroupKey
  wrapGroupKey : String × String → Option EncryptedKeyBundle

/-- The hooks of the owner. `name` is the name of the room under the new key, where the
hook sends one. -/
inductive Job where
  | memberPubkeys (i : Nat) (crypto : Crypto) (name : Option (String × String))
  | generating (rekey : Rekeying) (crypto : Crypto) (name : Option (String × String))
  | wrapping (rekey : Rekeying) (crypto : Crypto) (name : Option (String × String))
  | sendBundle (roomId internalId publicKey : String) (crypto : Crypto)
  | sealing (roomId internalId : String) (epoch : Int) (bundle : Option EncryptedKeyBundle)
  | ended

/-- What else happens: somebody asks something, the owner starts a rekey or gives it up, he
takes up an event, his keys are burned, the server processes a request, time passes, and a
key expires in Redis. -/
inductive Move where
  | request (op : Op)
  | rekeyRoom (roomId : String) (bootstrap : Bool)
  | reset
  | roomCreated (i : Nat) (key : GroupKey)
  | receive (i : Nat) (unwrapped : Option GroupKey)
  | burnGroupKey (roomId : String)
  | burnAllGroupKeys
  | process
  | tick
  | expire (roomId : String) (key : Key)

/-- What the validation of a payload lets through, as far as the hooks can fail it: epochs
are of type `Integer`, and a rekey has bundles. -/
def accepted : Op → Bool
  | .sendKeyBundle _ _ _ epoch _ => decide (epoch ≤ RoomKeysRepository.MAX_VALUE)
  | .rekey _ _ newEpoch bundles _ =>
      !bundles.isEmpty && decide (newEpoch ≤ RoomKeysRepository.MAX_VALUE)
  | _ => true

/-- The room that the owner hears of when his request has been processed. -/
def createdBy (me : String) : Op → Except String Unit → List String
  | .createRoom owner request uuid _ _, .ok _ =>
      if owner = me then [RoomService.roomIdOf request uuid] else []
  | _, _ => []

namespace World

def publish (w : World) (op : Op) : World := { w with requests := w.requests ++ [op] }

/-- The event at `i` has been taken up. -/
def taken (w : World) (i : Nat) : World :=
  { w with redis := { w.redis with sent := w.redis.sent.eraseIdx i } }

/-- The server processes the request. -/
def serve (w : World) (me : String) (op : Op) : World :=
  if accepted op then
    let (redis, result) := op.program.run Store.exec w.redis
    { w with redis := redis, created := w.created ++ createdBy me op result }
  else w

end World

/-- The next step of a hook. -/
def step (me : String) : Job → World → Option (World × Job)
  | .memberPubkeys i crypto name, w =>
      match w.redis.sent[i]? with
      | some (u, .memberPubkeys roomId publicKeys epoch) =>
          if u = me then
            match w.client.handleMemberPubkeys roomId publicKeys epoch with
            | (client, none) => some ({ w.taken i with client := client }, .ended)
            | (client, some rekey) =>
                some ({ w.taken i with client := client }, .generating rekey crypto name)
          else none
      | _ => none
  | .generating rekey crypto name, w =>
      match crypto.generateGroupKey with
      | some key => some
          ({ w with client := w.client.storeGroupKey rekey.roomId rekey.newEpoch key },
            .wrapping rekey crypto name)
      | none => some ({ w with client := w.client.failRekey }, .ended)
  | .wrapping rekey crypto name, w =>
      let settled := { w with client := w.client.failRekey }
      match rekey.bundles me crypto.wrapGroupKey with
      | some (item :: items) => some
          (settled.publish (.rekey me rekey.roomId rekey.newEpoch (item :: items) name), .ended)
      | _ => some (settled, .ended)
  | .sendBundle roomId internalId publicKey crypto, w =>
      match w.client.getGroupKeyEntry roomId with
      | some entry => some
          (w, .sealing roomId internalId entry.epoch (crypto.wrapGroupKey (internalId, publicKey)))
      | none => some (w, .ended)
  | .sealing roomId internalId epoch bundle, w =>
      match bundle with
      | some bundle => some (w.publish (.sendKeyBundle me roomId internalId epoch bundle), .ended)
      | none => some (w, .ended)
  | .ended, _ => none

def env (me : String) : Move → World → Option World
  | .request op, w => some (w.publish op)
  | .rekeyRoom roomId bootstrap, w => some
      ({ w with client := w.client.rekeyRoom roomId bootstrap }.publish (.getMemberPubkeys me roomId))
  | .reset, w => some { w with client := w.client.failRekey }
  | .roomCreated i key, w => w.created[i]?.map fun roomId =>
      { w with
        created := w.created.eraseIdx i
        client := w.client.storeGroupKey roomId 0 key }
  | .receive i unwrapped, w =>
      match w.redis.sent[i]?, unwrapped with
      | some (u, .keyBundle roomId epoch _), some key =>
          if u = me then
            some { w.taken i with client := w.client.storeGroupKey roomId epoch key }
          else some (w.taken i)
      | _, _ => some (w.taken i)
  | .burnGroupKey roomId, w => some { w with client := w.client.burnGroupKey roomId }
  | .burnAllGroupKeys, w => some { w with client := w.client.burnAllGroupKeys }
  | .process, w =>
      match w.requests with
      | [] => none
      | op :: requests => some ({ w with requests := requests }.serve me op)
  | .tick, w => some { w with redis := w.redis.tick }
  | .expire roomId key, w => some { w with redis := Store.exec (.del roomId [key]) w.redis }

def system (me : String) : Server World Job Move where
  opens
    | .memberPubkeys .. => true
    | .sendBundle .. => true
    | _ => false
  step := step me
  env := env me

abbrev State := Conf World Job

/-! ## What is asked of the epochs -/

/-- The epoch to which the owner asks to rekey the room. -/
def rekeyOf (me r : String) : Op → Option Int
  | .rekey owner x newEpoch _ _ => if owner = me ∧ x = r then some newEpoch else none
  | _ => none

/-- The epoch of a single bundle of the owner for the room. -/
def bundleOf (me r : String) : Op → Option Int
  | .sendKeyBundle owner x _ epoch _ => if owner = me ∧ x = r then some epoch else none
  | _ => none

@[simp] theorem rekeyOf_rekey {me r : String} {e : Int} {items : List BundleItem}
    {name : Option (String × String)} : rekeyOf me r (.rekey me r e items name) = some e :=
  if_pos ⟨rfl, rfl⟩

@[simp] theorem bundleOf_sendKeyBundle {me r u : String} {e : Int} {b : EncryptedKeyBundle} :
    bundleOf me r (.sendKeyBundle me r u e b) = some e :=
  if_pos ⟨rfl, rfl⟩

/-- The rekeys of the room that wait at the server. -/
def queued (me r : String) (w : World) : List Int := w.requests.filterMap (rekeyOf me r)

namespace Job

/-- A rekey of the room that has begun and is not published. -/
def rekeys (r : String) : Job → Bool
  | .generating rekey .. => rekey.roomId == r
  | .wrapping rekey .. => rekey.roomId == r
  | _ => false

/-- A rekey of the room whose key is stored and that is not published. -/
def wraps (r : String) : Job → Bool
  | .wrapping rekey .. => rekey.roomId == r
  | _ => false

def newEpoch : Job → Int
  | .generating rekey .. => rekey.newEpoch
  | .wrapping rekey .. => rekey.newEpoch
  | _ => 0

end Job

/-- A rekey is being sent, or waits at the server. -/
def UnderWay (me r : String) (c : State) : Prop :=
  queued me r c.store ≠ [] ∨ ∃ p ∈ c.pool, p.wraps r = true

/-- No bundle of an epoch below `e` is stored, or served next. -/
structure Current (r : String) (e : Int) (G : State → Action Job Move → Prop) (c : State) : Prop where
  stored : ∀ e' < e, (c.store.redis.room r).bundles e' = ∅
  served : ∀ op requests, c.store.requests = op :: requests → accepted op = true →
    G c (.env .process) → ∀ u e' b, (u, .keyBundle r e' b) ∈ sentBy op c.store.redis → e ≤ e'

/-- The epochs of a room in runs whose steps meet `G`. -/
structure Kept (me r : String) (G : State → Action Job Move → Prop) (c : State) : Prop where
  rises : ∀ c', (system me).Run G c c' → epochOf c.store.redis r ≤ epochOf c'.store.redis r
  agrees : ¬ UnderWay me r c → ∀ entry, c.store.client.getGroupKeyEntry r = some entry →
    epochOf c.store.redis r = entry.epoch
  current : ∀ owner e items name requests c',
    c.store.requests = .rekey owner r e items name :: requests →
    accepted (.rekey owner r e items name) = true →
    ((Op.rekey owner r e items name).program.run Store.exec c.store.redis).2.isOk = true →
    G c (.env .process) → (system me).next c (.env .process) = some c' →
    ∀ c'', (system me).Run G c' c'' → Current r e G c''

/-- Nothing is there of the room. -/
structure Fresh (r : String) (w : World) : Prop where
  epoch : (w.redis.room r).epoch = none
  bundles : ∀ e, (w.redis.room r).bundles e = ∅
  requests : w.requests = []
  keys : w.client.groupKeyStore r = none

/-- The room has no other owner, his client alone asks to write its keys, and no room is
burned. -/
def Honest (me r : String) (c : State) : Action Job Move → Prop
  | .env (.request op) => keysOf op ≠ some (me, r)
  | .env .process => ∀ op requests, c.store.requests = op :: requests →
      AutoBurn.burns op = false
        ∧ ∀ room, findRoom c.store.redis r = some room →
          ∀ u, RoomService.isOwner room u = true → u = me
  | _ => True

/-- A rekey begins when no other is under way in the client, without a key of the room
only on an answer about the room that is still current; it has somebody to be sent to;
and a single bundle is published before the next rekey is. -/
def Careful (me r : String) (c : State) : Job → Prop
  | .memberPubkeys i _ _ => ∀ roomId publicKeys epoch rekey,
      c.store.redis.sent[i]? = some (me, .memberPubkeys roomId publicKeys epoch) →
      (c.store.client.handleMemberPubkeys roomId publicKeys epoch).2 = some rekey →
      rekey.roomId = r →
      (∀ q ∈ c.pool, q.rekeys r = false)
        ∧ (c.store.client.getGroupKeyEntry r = none →
          roomId = r ∧ epoch = epochOf c.store.redis r ∧ queued me r c.store = [])
  | .wrapping rekey crypto _ => rekey.roomId = r →
      rekey.newEpoch ≤ RoomKeysRepository.MAX_VALUE
        ∧ ∃ item items, rekey.bundles me crypto.wrapGroupKey = some (item :: items)
  | .sealing roomId _ epoch (some _) => roomId = r →
      epochOf c.store.redis r ≤ epoch ∧ ∀ e ∈ queued me r c.store, e ≤ epoch
  | _ => True

/-- The first key is stored before any rekey, the owner is sent no bundle of his room, a
rekey finds the room, and the counter does not expire. -/
def Settled (me r : String) (c : State) : Move → Prop
  | .roomCreated i _ => c.store.created[i]? = some r →
      epochOf c.store.redis r = 0 ∧ queued me r c.store = []
        ∧ ∀ q ∈ c.pool, q.rekeys r = false
  | .receive i unwrapped => ∀ epoch b,
      c.store.redis.sent[i]? = some (me, .keyBundle r epoch b) → unwrapped = none
  | .process => ∀ op requests, c.store.requests = op :: requests →
      (rekeyOf me r op).isSome = true →
      ∃ room, findRoom c.store.redis r = some room ∧ RoomService.isOwner room me = true
  | .expire roomId key => roomId = r → key ≠ .epoch
  | _ => True

def Orderly (me r : String) (c : State) (a : Action Job Move) : Prop :=
  Honest me r c a ∧
    match a with
    | .turn i => ∀ p, c.pool[i]? = some p → Careful me r c p
    | .env move => Settled me r c move
    | .start _ => True

/-! ## Requests in a row -/

/-- The server's epoch once the requests are processed. -/
def last (me r : String) (n : Int) (ops : List Op) : Int :=
  ops.foldl (fun n op => (rekeyOf me r op).getD n) n

/-- Processed at the epoch `n`, the request leads to the next epoch or to none, and its
bundle is of no past epoch. -/
structure Suits (me r : String) (n : Int) (op : Op) : Prop where
  rekey : ∀ e, rekeyOf me r op = some e → e = n + 1 ∧ accepted op = true
  bundle : ∀ e, bundleOf me r op = some e → n ≤ e

theorem Suits.le {me r : String} {n : Int} {op : Op} (h : Suits me r n op) :
    n ≤ (rekeyOf me r op).getD n := by
  cases hrekey : rekeyOf me r op with
  | none => exact le_refl _
  | some e =>
      have he := (h.rekey e hrekey).1
      rw [Option.getD_some]
      omega

def Fits (me r : String) : Int → List Op → Prop
  | _, [] => True
  | n, op :: ops => Suits me r n op ∧ Fits me r ((rekeyOf me r op).getD n) ops

section Queue

variable {me r : String} {n : Int} {ops : List Op} {op : Op}

theorem last_append : last me r n (ops ++ [op]) = (rekeyOf me r op).getD (last me r n ops) := by
  rw [last, List.foldl_append]
  rfl

theorem fits_append (h : Fits me r n ops) (hop : Suits me r (last me r n ops) op) :
    Fits me r n (ops ++ [op]) := by
  induction ops generalizing n with
  | nil => exact ⟨hop, trivial⟩
  | cons first ops ih => exact ⟨h.1, ih h.2 hop⟩

/-- The last epoch is the server's, or that of a rekey that waits. -/
theorem last_cases (me r : String) (n : Int) (ops : List Op) :
    last me r n ops = n ∨ last me r n ops ∈ ops.filterMap (rekeyOf me r) := by
  induction ops generalizing n with
  | nil => exact .inl rfl
  | cons first ops ih =>
      rw [last, List.foldl_cons, ← last, List.filterMap_cons]
      cases hfirst : rekeyOf me r first with
      | none => exact ih n
      | some e =>
          rcases ih e with h | h
          · exact .inr (List.mem_cons.mpr (.inl h))
          · exact .inr (List.mem_cons_of_mem _ h)

theorem last_eq (h : ops.filterMap (rekeyOf me r) = []) : last me r n ops = n := by
  rcases last_cases me r n ops with hlast | hlast
  · exact hlast
  · rw [h] at hlast
    cases hlast

/-- Epochs only grow along the requests. -/
theorem le_last (h : Fits me r n ops) : n ≤ last me r n ops := by
  induction ops generalizing n with
  | nil => exact le_refl _
  | cons first ops ih => exact h.1.le.trans (ih h.2)

theorem rekeyOf_of_keysOf (h : keysOf op ≠ some (me, r)) : rekeyOf me r op = none := by
  cases op with
  | rekey owner x =>
      refine if_neg ?_
      rintro ⟨rfl, rfl⟩
      exact h rfl
  | _ => rfl

theorem bundleOf_of_keysOf (h : keysOf op ≠ some (me, r)) : bundleOf me r op = none := by
  cases op with
  | sendKeyBundle owner x =>
      refine if_neg ?_
      rintro ⟨rfl, rfl⟩
      exact h rfl
  | _ => rfl

theorem suits_of_keysOf (h : keysOf op ≠ some (me, r)) : Suits me r n op where
  rekey e he := by cases (rekeyOf_of_keysOf h).symm.trans he
  bundle e he := by cases (bundleOf_of_keysOf h).symm.trans he

end Queue

/-! ## The two counts -/

/-- The rekeys that wait lead from the server's epoch to the last one, the one in the
client leads past it, and the owner's epoch counts them all. -/
structure Counted (me r : String) (w : World) (pool : List Job) : Prop where
  nonneg : 0 ≤ epochOf w.redis r
  fits : Fits me r (epochOf w.redis r) w.requests
  alone : pool.countP (Job.rekeys r) ≤ 1
  next : ∀ p ∈ pool, p.rekeys r = true →
    p.newEpoch = last me r (epochOf w.redis r) w.requests + 1
  latest : ∀ entry, w.client.getGroupKeyEntry r = some entry →
    entry.epoch = last me r (epochOf w.redis r) w.requests + pool.countP (Job.wraps r)
  past : ∀ e < epochOf w.redis r, (w.redis.room r).bundles e = ∅

section Counted

variable {me r : String} {w : World} {pool : List Job} {p p' : Job} {i : Nat} {op : Op}
  {s : Store}

theorem rekeys_of_wraps (h : p.wraps r = true) : p.rekeys r = true := by
  cases p with
  | wrapping => exact h
  | _ => cases h

theorem countP_wraps_eq_zero (h : ∀ q ∈ pool, q.rekeys r = false) :
    pool.countP (Job.wraps r) = 0 := by
  refine List.countP_eq_zero.mpr fun q hq hwraps => ?_
  have hrekeys := rekeys_of_wraps hwraps
  rw [h q hq] at hrekeys
  cases hrekeys

theorem Counted.init (h : Fresh r w) : Counted me r w [] where
  nonneg := by rw [epochOf, h.epoch]; exact le_refl _
  fits := by rw [h.requests]; trivial
  alone := Nat.zero_le _
  next _ hp := by cases hp
  latest entry he := by
    rw [Client.getGroupKeyEntry, h.keys] at he
    cases he
  past e _ := h.bundles e

/-- The server's part changes, but not the counter. -/
theorem Counted.redis (h : Counted me r w pool)
    (hs : Faded (epochOf w.redis r ≤ ·) (w.redis.room r) (s.room r)) :
    Counted me r { w with redis := s } pool := by
  have he : epochOf s r = epochOf w.redis r := hs.epochOf_eq
  refine ⟨?_, ?_, h.alone, ?_, ?_, ?_⟩
  · exact he ▸ h.nonneg
  · exact he ▸ h.fits
  · exact he ▸ h.next
  · exact he ▸ h.latest
  · intro e hlt
    rw [he] at hlt
    exact hs.bundles e (not_le.mpr hlt) (h.past e hlt)

/-- The client changes, and has no other latest key of the room. -/
theorem Counted.client (h : Counted me r w pool) {client : Client}
    (hc : ∀ entry, client.getGroupKeyEntry r = some entry →
      w.client.getGroupKeyEntry r = some entry) :
    Counted me r { w with client := client } pool :=
  ⟨h.nonneg, h.fits, h.alone, h.next, fun entry he => h.latest entry (hc entry he), h.past⟩

/-- A request that is no rekey of the room is published. -/
theorem Counted.publish (h : Counted me r w pool) (hop : rekeyOf me r op = none)
    (hs : Suits me r (last me r (epochOf w.redis r) w.requests) op) :
    Counted me r (w.publish op) pool := by
  have hlast : last me r (epochOf w.redis r) (w.requests ++ [op])
      = last me r (epochOf w.redis r) w.requests := by
    rw [last_append, hop]
    rfl
  refine ⟨h.nonneg, fits_append h.fits hs, h.alone, ?_, ?_, h.past⟩
  · exact hlast.symm ▸ h.next
  · exact hlast.symm ▸ h.latest

/-- A hook goes on without a part in a rekey of the room, or with the same one. -/
theorem Counted.turn (h : Counted me r w pool) (hi : pool[i]? = some p)
    (hrekeys : p'.rekeys r = true → p.rekeys r = true ∧ p'.newEpoch = p.newEpoch)
    (hwraps : p'.wraps r = p.wraps r) : Counted me r w (pool.set i p') where
  nonneg := h.nonneg
  fits := h.fits
  alone := (countP_turn_le hi fun hp => (hrekeys hp).1).trans h.alone
  next := by
    refine forall_turn h.next fun hp => ?_
    rw [(hrekeys hp).2]
    exact h.next p (List.mem_of_getElem? hi) (hrekeys hp).1
  latest entry he := by
    rw [countP_turn_eq _ hi _ hwraps]
    exact h.latest entry he
  past := h.past

theorem Counted.start (h : Counted me r w pool) (hp : p.rekeys r = false) :
    Counted me r w (pool ++ [p]) where
  nonneg := h.nonneg
  fits := h.fits
  alone := by
    rw [countP_start, hp]
    exact h.alone
  next := forall_start h.next fun hrekeys => by rw [hp] at hrekeys; cases hrekeys
  latest entry he := by
    have hwraps : p.wraps r = false := by
      cases hw : p.wraps r with
      | false => rfl
      | true => exact (rekeys_of_wraps hw).symm.trans hp
    rw [countP_start, hwraps]
    exact h.latest entry he
  past := h.past

/-! ### A rekey, step by step -/

variable {rekey : Rekeying} {crypto : Crypto} {name : Option (String × String)} {key : GroupKey}
  {roomId : String} {publicKeys : List (String × String)} {epoch : Int} {client : Client}

theorem countP_wraps_others (h : Counted me r w pool) (hi : pool[i]? = some p)
    (hrekeys : p.rekeys r = true) (hwraps : p.wraps r = false) :
    pool.countP (Job.wraps r) = 0 := by
  refine List.countP_eq_zero.mpr fun q hq hq' => ?_
  obtain rfl := eq_of_countP_le_one h.alone hq (List.mem_of_getElem? hi) (rekeys_of_wraps hq')
    hrekeys
  rw [hwraps] at hq'
  cases hq'

theorem handleMemberPubkeys_cases {c : Client}
    (h : c.handleMemberPubkeys roomId publicKeys epoch = (client, some rekey)) :
    client = c ∧ ((∃ entry, c.getGroupKeyEntry rekey.roomId = some entry
        ∧ rekey.newEpoch = entry.epoch + 1)
      ∨ c.getGroupKeyEntry rekey.roomId = none ∧ rekey.newEpoch = epoch + 1) := by
  simp only [Client.handleMemberPubkeys] at h
  split at h
  · cases h
  · split at h
    · rename_i entry hentry
      obtain ⟨rfl, he⟩ := Prod.mk.inj h
      obtain rfl := Option.some.inj he
      exact ⟨rfl, .inl ⟨entry, hentry, rfl⟩⟩
    · rename_i hnone
      split at h
      · obtain ⟨rfl, he⟩ := Prod.mk.inj h
        obtain rfl := Option.some.inj he
        exact ⟨rfl, .inr ⟨hnone, rfl⟩⟩
      · cases h

theorem handleMemberPubkeys_entry {c : Client} {rekey : Option Rekeying}
    (h : c.handleMemberPubkeys roomId publicKeys epoch = (client, rekey)) :
    client.getGroupKeyEntry r = c.getGroupKeyEntry r := by
  have hclient : client = c ∨ client = c.failRekey := by
    simp only [Client.handleMemberPubkeys] at h
    split at h
    · exact .inr (Prod.mk.inj h).1.symm
    · split at h
      · exact .inl (Prod.mk.inj h).1.symm
      · split at h
        · exact .inl (Prod.mk.inj h).1.symm
        · exact .inr (Prod.mk.inj h).1.symm
  rcases hclient with rfl | rfl
  · rfl
  · rfl

/-- A rekey of the room begins. -/
theorem Counted.begins (h : Counted me r w pool) (hi : pool[i]? = some p)
    (hclient : w.client.handleMemberPubkeys roomId publicKeys epoch = (client, some rekey))
    (hp : p.rekeys r = false)
    (hg : rekey.roomId = r → (∀ q ∈ pool, q.rekeys r = false)
      ∧ (w.client.getGroupKeyEntry r = none →
        roomId = r ∧ epoch = epochOf w.redis r ∧ queued me r w = [])) :
    Counted me r w (pool.set i (.generating rekey crypto name)) := by
  by_cases hr : rekey.roomId = r
  · obtain ⟨hno, hnone⟩ := hg hr
    have hzero : pool.countP (Job.rekeys r) = 0 := List.countP_eq_zero.mpr fun q hq => by
      rw [hno q hq]
      simp
    have hnew : rekey.newEpoch = last me r (epochOf w.redis r) w.requests + 1 := by
      rcases (handleMemberPubkeys_cases hclient).2 with ⟨entry, hentry, he⟩ | ⟨hentry, he⟩
      · rw [hr] at hentry
        rw [he, h.latest entry hentry, countP_wraps_eq_zero hno, Int.natCast_zero, Int.add_zero]
      · rw [hr] at hentry
        obtain ⟨-, hepoch, hqueue⟩ := hnone hentry
        rw [he, hepoch, last_eq hqueue]
    refine ⟨h.nonneg, h.fits, ?_, forall_turn h.next fun _ => hnew, fun entry he => ?_, h.past⟩
    · have hcount := countP_turn (Job.rekeys r) hi (.generating rekey crypto name)
      have hle : (Job.rekeys r (.generating rekey crypto name)).toNat ≤ 1 := Bool.toNat_le _
      omega
    · have hwraps : Job.wraps r p = false := by
        cases hw : p.wraps r with
        | false => rfl
        | true => exact (rekeys_of_wraps hw).symm.trans hp
      rw [countP_turn_eq _ hi _ hwraps.symm]
      exact h.latest entry he
  · refine h.turn hi (fun hrekeys => absurd (beq_iff_eq.mp hrekeys) hr) ?_
    cases hw : p.wraps r with
    | false => rfl
    | true => cases (rekeys_of_wraps hw).symm.trans hp

/-- The key of a rekey is stored. -/
theorem Counted.stores (h : Counted me r w pool)
    (hi : pool[i]? = some (.generating rekey crypto name)) :
    Counted me r { w with client := w.client.storeGroupKey rekey.roomId rekey.newEpoch key }
      (pool.set i (.wrapping rekey crypto name)) := by
  by_cases hr : rekey.roomId = r
  · have hrekeys : Job.rekeys r (.generating rekey crypto name) = true := beq_iff_eq.mpr hr
    have hzero := countP_wraps_others h hi hrekeys rfl
    have hnew : rekey.newEpoch = last me r (epochOf w.redis r) w.requests + 1 :=
      h.next _ (List.mem_of_getElem? hi) hrekeys
    have hpos : 0 ≤ rekey.newEpoch := by
      have hle := le_last h.fits
      have hnonneg := h.nonneg
      omega
    have hentry : (w.client.storeGroupKey r rekey.newEpoch key).getGroupKeyEntry r
        = some ⟨rekey.newEpoch, key⟩ := by
      refine getGroupKeyEntry_storeGroupKey hpos fun entry he => ?_
      have hlatest := h.latest entry he
      rw [hzero] at hlatest
      omega
    refine ⟨h.nonneg, h.fits, ?_, forall_turn h.next fun _ => hnew, fun entry he => ?_, h.past⟩
    · have hle : (pool.set i (.wrapping rekey crypto name)).countP (Job.rekeys r)
          ≤ pool.countP (Job.rekeys r) := countP_turn_le hi fun hp => hp
      exact hle.trans h.alone
    · rw [hr, hentry] at he
      obtain rfl := Option.some.inj he
      have hcount := countP_turn (Job.wraps r) hi (.wrapping rekey crypto name)
      have hwraps : Job.wraps r (.wrapping rekey crypto name) = true := beq_iff_eq.mpr hr
      rw [hwraps, hzero] at hcount
      have hone : (pool.set i (.wrapping rekey crypto name)).countP (Job.wraps r) = 1 := by
        simpa [Job.wraps] using hcount
      rw [hone]
      exact hnew
  · have hne : r ≠ rekey.roomId := Ne.symm hr
    refine (h.client fun entry he => ?_).turn hi (fun hrekeys => ⟨hrekeys, rfl⟩) ?_
    · rwa [getGroupKeyEntry_of_ne hne] at he
    · exact beq_eq_false_iff_ne.mpr hr

/-- A rekey of the room is published. -/
theorem Counted.publishes (h : Counted me r w pool) {items : List BundleItem}
    (hi : pool[i]? = some (.wrapping rekey crypto name)) (hr : rekey.roomId = r)
    (haccepted : accepted (.rekey me r rekey.newEpoch items name) = true) :
    Counted me r (w.publish (.rekey me r rekey.newEpoch items name)) (pool.set i .ended) := by
  have hrekeys : Job.rekeys r (.wrapping rekey crypto name) = true := beq_iff_eq.mpr hr
  have hnew : rekey.newEpoch = last me r (epochOf w.redis r) w.requests + 1 :=
    h.next _ (List.mem_of_getElem? hi) hrekeys
  have hlast : last me r (epochOf w.redis r) (w.requests ++ [.rekey me r rekey.newEpoch items name])
      = rekey.newEpoch := by
    rw [last_append, rekeyOf_rekey, Option.getD_some]
  have hcount := countP_turn (Job.rekeys r) hi .ended
  have hnone : (pool.set i .ended).countP (Job.rekeys r) = 0 := by
    have halone := h.alone
    rw [hrekeys] at hcount
    simp only [Job.rekeys, Bool.toNat_true, Bool.toNat_false] at hcount
    omega
  refine ⟨h.nonneg, fits_append h.fits ⟨fun e he => ?_, fun e he => by cases he⟩, ?_, ?_, ?_, h.past⟩
  · obtain rfl := Option.some.inj (rekeyOf_rekey.symm.trans he)
    exact ⟨hnew, haccepted⟩
  · rw [hnone]
    exact Nat.zero_le _
  · intro q hq hq'
    exact absurd hq' (List.countP_eq_zero.mp hnone q hq)
  · intro entry he
    have hwraps : (pool.set i .ended).countP (Job.wraps r) = 0 :=
      Nat.le_zero.mp (hnone ▸ countP_mono_of (fun _ => rekeys_of_wraps) _)
    have hold := countP_turn (Job.wraps r) hi .ended
    have hthis : Job.wraps r (.wrapping rekey crypto name) = true := hrekeys
    rw [hthis, hwraps] at hold
    have hlatest := h.latest entry he
    simp only [World.publish, hlast, hwraps]
    simp only [Job.wraps, Bool.toNat_true, Bool.toNat_false] at hold
    omega

end Counted

/-! ## The server -/

section Serve

variable {me r : String} {w : World} {pool : List Job} {op : Op} {requests : List Op}

theorem serve_redis : (w.serve me op).redis
    = if accepted op then (op.program.run Store.exec w.redis).1 else w.redis := by
  rw [World.serve]
  split
  · rfl
  · rfl

theorem serve_requests : (w.serve me op).requests = w.requests := by
  rw [World.serve]
  split
  · rfl
  · rfl

theorem serve_client : (w.serve me op).client = w.client := by
  rw [World.serve]
  split
  · rfl
  · rfl

/-- A request that neither rekeys the room nor puts an old bundle there leaves the counter
and the past as they are. -/
theorem serve_faded (hburns : AutoBurn.burns op = false)
    (howner : ∀ room, findRoom w.redis r = some room →
      ∀ u, RoomService.isOwner room u = true → u = me)
    (hrekey : rekeyOf me r op = none) (hs : Suits me r (epochOf w.redis r) op) :
    Faded (epochOf w.redis r ≤ ·) (w.redis.room r) ((w.serve me op).redis.room r) := by
  rw [serve_redis]
  split
  · by_cases hkeys : ∃ u, keysOf op = some (u, r)
    · obtain ⟨u, hkeys⟩ := hkeys
      by_cases hu : u = me
      · subst hu
        cases op with
        | rekey owner x e items name =>
            obtain ⟨rfl, rfl⟩ := Prod.mk.inj (Option.some.inj hkeys)
            cases rekeyOf_rekey.symm.trans hrekey
        | sendKeyBundle owner x v e b =>
            obtain ⟨rfl, rfl⟩ := Prod.mk.inj (Option.some.inj hkeys)
            have hle : epochOf w.redis x ≤ e := hs.bundle e bundleOf_sendKeyBundle
            exact sendKeyBundle_faded.mono fun e' he' => he' ▸ hle
        | _ => cases hkeys
      · refine run_of_not_owner (Q := fun t => Faded _ (w.redis.room r) (t.room r)) hkeys
          (fun room hfound => ?_) .refl
        cases how : RoomService.isOwner room u with
        | false => rfl
        | true => exact absurd (howner room hfound u how) hu
    · exact run_faded hburns fun u hu => hkeys ⟨u, hu⟩
  · exact .refl

/-- The rekey that is next is done. -/
theorem serve_rekeyed (w : World) (me : String) {owner : String} {e : Int}
    {items : List BundleItem} {name : Option (String × String)} {room : Room}
    (haccepted : accepted (.rekey owner r e items name) = true)
    (hfound : findRoom w.redis r = some room) (how : RoomService.isOwner room owner = true) :
    Rekeyed e (w.redis.room r) ((w.serve me (.rekey owner r e items name)).redis.room r) := by
  rw [serve_redis, if_pos haccepted]
  exact rekey_rekeyed hfound how

theorem previousEpoch_eq {n : Int} (h : 0 ≤ n) : RoomHandler.previousEpoch (n + 1) = n := by
  rw [RoomHandler.previousEpoch, if_neg, Int.add_sub_cancel]
  rw [RoomKeysRepository.MAX_VALUE]
  omega

theorem rekeyOf_eq_some {e : Int} (h : rekeyOf me r op = some e) :
    ∃ items name, op = .rekey me r e items name := by
  cases op with
  | rekey owner x e' items name =>
      rw [rekeyOf] at h
      split at h
      · rename_i hmine
        obtain ⟨rfl, rfl⟩ := hmine
        obtain rfl := Option.some.inj h
        exact ⟨items, name, rfl⟩
      · cases h
  | _ => cases h

/-- The counter follows the rekeys, and the past stays empty. -/
theorem serve_epochs (hnonneg : 0 ≤ epochOf w.redis r)
    (hpast : ∀ e < epochOf w.redis r, (w.redis.room r).bundles e = ∅)
    (hs : Suits me r (epochOf w.redis r) op) (hburns : AutoBurn.burns op = false)
    (howner : ∀ room, findRoom w.redis r = some room →
      ∀ u, RoomService.isOwner room u = true → u = me)
    (hfound : (rekeyOf me r op).isSome = true →
      ∃ room, findRoom w.redis r = some room ∧ RoomService.isOwner room me = true) :
    epochOf (w.serve me op).redis r = (rekeyOf me r op).getD (epochOf w.redis r)
      ∧ ∀ e < (rekeyOf me r op).getD (epochOf w.redis r),
        ((w.serve me op).redis.room r).bundles e = ∅ := by
  cases hrekey : rekeyOf me r op with
  | none =>
      have hfaded := serve_faded hburns howner hrekey hs
      refine ⟨hfaded.epochOf_eq, fun e hlt => ?_⟩
      exact hfaded.bundles e (not_le.mpr hlt) (hpast e hlt)
  | some e =>
      obtain ⟨rfl, haccepted⟩ := hs.rekey e hrekey
      obtain ⟨items, name, rfl⟩ := rekeyOf_eq_some hrekey
      obtain ⟨room, hroom, how⟩ := hfound (by rw [hrekey]; rfl)
      have hdone := serve_rekeyed w me haccepted hroom how
      refine ⟨by rw [epochOf, hdone.epoch]; rfl, fun e' hlt => ?_⟩
      rw [Option.getD_some] at hlt
      refine hdone.bundles e' (by omega) ?_
      by_cases heq : e' = epochOf w.redis r
      · rw [previousEpoch_eq hnonneg]
        exact .inr heq
      · exact .inl (hpast e' (by omega))

/-- The server processes a request. -/
theorem Counted.process (h : Counted me r w pool) (hop : w.requests = op :: requests)
    (hburns : AutoBurn.burns op = false)
    (howner : ∀ room, findRoom w.redis r = some room →
      ∀ u, RoomService.isOwner room u = true → u = me)
    (hfound : (rekeyOf me r op).isSome = true →
      ∃ room, findRoom w.redis r = some room ∧ RoomService.isOwner room me = true) :
    Counted me r ({ w with requests := requests }.serve me op) pool := by
  obtain ⟨hsuits, hfits⟩ : Fits me r (epochOf w.redis r) (op :: requests) := hop ▸ h.fits
  obtain ⟨hepoch, hpast⟩ :=
    serve_epochs (w := { w with requests := requests }) h.nonneg h.past hsuits hburns howner hfound
  have hlast : last me r (epochOf w.redis r) w.requests
      = last me r ((rekeyOf me r op).getD (epochOf w.redis r)) requests := by
    rw [hop]
    rfl
  refine ⟨?_, ?_, h.alone, ?_, ?_, ?_⟩
  · rw [hepoch]
    exact h.nonneg.trans hsuits.le
  · rw [hepoch, serve_requests]
    exact hfits
  · rw [hepoch, serve_requests, ← hlast]
    exact h.next
  · rw [hepoch, serve_requests, serve_client, ← hlast]
    exact h.latest
  · rw [hepoch]
    exact hpast

/-- The bundles that the server sends are of no past epoch. -/
theorem Counted.served (h : Counted me r w pool) (hop : w.requests = op :: requests)
    (howner : ∀ room, findRoom w.redis r = some room →
      ∀ u, RoomService.isOwner room u = true → u = me) :
    Brought r (epochOf w.redis r ≤ ·) w.redis (op.program.run Store.exec w.redis).1 := by
  have hfits := h.fits
  rw [hop] at hfits
  by_cases hkeys : ∃ u, keysOf op = some (u, r)
  · obtain ⟨u, hkeys⟩ := hkeys
    by_cases hu : u = me
    · subst hu
      cases op with
      | rekey owner x e items name =>
          obtain ⟨rfl, rfl⟩ := Prod.mk.inj (Option.some.inj hkeys)
          have he := (hfits.1.rekey e rekeyOf_rekey).1
          exact rekey_brought.mono fun e' he' => by omega
      | sendKeyBundle owner x v e b =>
          obtain ⟨rfl, rfl⟩ := Prod.mk.inj (Option.some.inj hkeys)
          have he := hfits.1.bundle e bundleOf_sendKeyBundle
          exact sendKeyBundle_brought.mono fun e' he' => by omega
      | _ => cases hkeys
    · refine run_of_not_owner (Q := Brought r _ w.redis) hkeys (fun room hfound => ?_) brought_refl
      cases how : RoomService.isOwner room u with
      | false => rfl
      | true => exact absurd (howner room hfound u how) hu
  · exact (run_brought fun u hu => hkeys ⟨u, hu⟩).mono fun e he => he.ge

end Serve

/-! ## Runs -/

section Runs

variable {me r : String} {c c' : State}

theorem wraps_of_not_rekeys {p : Job} (h : p.rekeys r = false) : p.wraps r = false := by
  cases hw : p.wraps r with
  | false => rfl
  | true => cases (rekeys_of_wraps hw).symm.trans h

/-- A hook that has no part in a rekey of the room goes on without one. -/
theorem Counted.idle {w : World} {pool : List Job} {p p' : Job} {i : Nat}
    (h : Counted me r w pool) (hi : pool[i]? = some p) (hp : p.wraps r = false)
    (hp' : p'.rekeys r = false) : Counted me r w (pool.set i p') := by
  refine h.turn hi (fun hrekeys => ?_) ((wraps_of_not_rekeys hp').trans hp.symm)
  cases hp'.symm.trans hrekeys

/-- A hook takes a step. -/
theorem Counted.step {w w' : World} {pool : List Job} {p p' : Job} {i : Nat}
    (h : Counted me r w pool) (hi : pool[i]? = some p) (hg : Careful me r ⟨w, pool⟩ p)
    (hs : step me p w = some (w', p')) : Counted me r w' (pool.set i p') := by
  have hfails : Counted me r { w with client := w.client.failRekey } pool :=
    h.client fun _ he => he
  cases p with
  | memberPubkeys j crypto name =>
      simp only [OwnerEpochs.step] at hs
      split at hs
      · rename_i u roomId publicKeys epoch hsent
        split at hs
        · rename_i hu
          subst hu
          have htaken : Counted u r (w.taken j) pool := h.redis ⟨rfl, fun _ _ he => he⟩
          split at hs
          · rename_i client hclient
            obtain ⟨rfl, rfl⟩ := Prod.mk.inj (Option.some.inj hs)
            refine (htaken.client fun entry he => ?_).idle hi rfl rfl
            rwa [handleMemberPubkeys_entry hclient] at he
          · rename_i client rekey hclient
            obtain ⟨rfl, rfl⟩ := Prod.mk.inj (Option.some.inj hs)
            obtain ⟨rfl, -⟩ := handleMemberPubkeys_cases hclient
            refine htaken.begins hi hclient rfl fun hr => ?_
            exact hg roomId publicKeys epoch rekey hsent (congrArg Prod.snd hclient) hr
        · cases hs
      · cases hs
  | generating rekey crypto name =>
      simp only [OwnerEpochs.step] at hs
      split at hs
      · obtain ⟨rfl, rfl⟩ := Prod.mk.inj (Option.some.inj hs)
        exact h.stores hi
      · obtain ⟨rfl, rfl⟩ := Prod.mk.inj (Option.some.inj hs)
        exact hfails.idle hi rfl rfl
  | wrapping rekey crypto name =>
      by_cases hr : rekey.roomId = r
      · obtain ⟨hmax, item, items, hbundles⟩ := hg hr
        simp only [OwnerEpochs.step, hbundles, hr] at hs
        obtain ⟨rfl, rfl⟩ := Prod.mk.inj (Option.some.inj hs)
        exact hfails.publishes hi hr (by simp [accepted, hmax])
      · have hwraps : Job.wraps r (.wrapping rekey crypto name) = false :=
          beq_eq_false_iff_ne.mpr hr
        have hkeys : ∀ items, keysOf (.rekey me rekey.roomId rekey.newEpoch items name)
            ≠ some (me, r) := fun items he => hr (Prod.mk.inj (Option.some.inj he)).2
        simp only [OwnerEpochs.step] at hs
        split at hs
        · obtain ⟨rfl, rfl⟩ := Prod.mk.inj (Option.some.inj hs)
          refine (hfails.publish (rekeyOf_of_keysOf (hkeys _)) ?_).idle hi hwraps rfl
          exact suits_of_keysOf (hkeys _)
        · obtain ⟨rfl, rfl⟩ := Prod.mk.inj (Option.some.inj hs)
          exact hfails.idle hi hwraps rfl
  | sendBundle roomId internalId publicKey crypto =>
      simp only [OwnerEpochs.step] at hs
      split at hs
      · obtain ⟨rfl, rfl⟩ := Prod.mk.inj (Option.some.inj hs)
        exact h.idle hi rfl rfl
      · obtain ⟨rfl, rfl⟩ := Prod.mk.inj (Option.some.inj hs)
        exact h.idle hi rfl rfl
  | sealing roomId internalId epoch bundle =>
      simp only [OwnerEpochs.step] at hs
      split at hs
      · rename_i bundle
        obtain ⟨rfl, rfl⟩ := Prod.mk.inj (Option.some.inj hs)
        refine (h.publish rfl ⟨fun e he => (by cases he), fun e he => ?_⟩).idle hi rfl rfl
        rw [bundleOf] at he
        split at he
        · rename_i hmine
          obtain rfl := Option.some.inj he
          obtain ⟨hle, hqueue⟩ := hg hmine.2
          rcases last_cases me r (epochOf w.redis r) w.requests with hlast | hlast
          · rw [hlast]
            exact hle
          · exact hqueue _ hlast
        · cases he
      · obtain ⟨rfl, rfl⟩ := Prod.mk.inj (Option.some.inj hs)
        exact h.idle hi rfl rfl
  | ended => cases hs

/-- Something else happens. -/
theorem Counted.env {w w' : World} {pool : List Job} {move : Move} (h : Counted me r w pool)
    (hhonest : Honest me r ⟨w, pool⟩ (.env move)) (hg : Settled me r ⟨w, pool⟩ move)
    (hs : env me move w = some w') : Counted me r w' pool := by
  cases move with
  | request op =>
      obtain rfl := Option.some.inj hs
      exact h.publish (rekeyOf_of_keysOf hhonest) (suits_of_keysOf hhonest)
  | rekeyRoom roomId bootstrap =>
      obtain rfl := Option.some.inj hs
      have hclient : Counted me r
          { w with client := w.client.rekeyRoom roomId bootstrap } pool := h.client fun _ he => he
      have hkeys : keysOf (.getMemberPubkeys me roomId) ≠ some (me, r) := fun he => by cases he
      exact hclient.publish (rekeyOf_of_keysOf hkeys) (suits_of_keysOf hkeys)
  | reset =>
      obtain rfl := Option.some.inj hs
      exact h.client fun _ he => he
  | roomCreated i key =>
      obtain ⟨roomId, hroom, rfl⟩ := Option.map_eq_some_iff.mp hs
      by_cases hr : roomId = r
      · subst hr
        obtain ⟨hzero, hqueue, hno⟩ := hg hroom
        have hlast : last me roomId (epochOf w.redis roomId) w.requests = 0 :=
          (last_eq hqueue).trans hzero
        refine ⟨h.nonneg, h.fits, h.alone, h.next, fun entry he => ?_, h.past⟩
        rw [getGroupKeyEntry_storeGroupKey (le_refl 0) fun old hold => ?_] at he
        · obtain rfl := Option.some.inj he
          simp only [hlast, countP_wraps_eq_zero hno]
          rfl
        · rw [h.latest old hold, hlast, countP_wraps_eq_zero hno]
          exact le_refl _
      · refine ⟨h.nonneg, h.fits, h.alone, h.next, fun entry he => ?_, h.past⟩
        rw [getGroupKeyEntry_of_ne (Ne.symm hr)] at he
        exact h.latest entry he
  | receive i unwrapped =>
      have htaken : Counted me r (w.taken i) pool := h.redis ⟨rfl, fun _ _ he => he⟩
      simp only [OwnerEpochs.env] at hs
      split at hs
      · rename_i u roomId epoch b key hsent
        split at hs
        · rename_i hu
          subst hu
          obtain rfl := Option.some.inj hs
          refine htaken.client fun entry he => ?_
          have hr : r ≠ roomId := by
            rintro rfl
            cases hg epoch b hsent
          rwa [getGroupKeyEntry_of_ne hr] at he
        · obtain rfl := Option.some.inj hs
          exact htaken
      · obtain rfl := Option.some.inj hs
        exact htaken
  | burnGroupKey roomId =>
      obtain rfl := Option.some.inj hs
      refine h.client fun entry he => ?_
      rw [getGroupKeyEntry_burnGroupKey] at he
      split at he
      · cases he
      · exact he
  | burnAllGroupKeys =>
      obtain rfl := Option.some.inj hs
      exact h.client fun entry he => by cases he
  | process =>
      simp only [OwnerEpochs.env] at hs
      split at hs
      · cases hs
      · rename_i op requests hop
        obtain rfl := Option.some.inj hs
        obtain ⟨hburns, howner⟩ := hhonest op requests hop
        exact h.process hop hburns howner (hg op requests hop)
  | tick =>
      obtain rfl := Option.some.inj hs
      exact h.redis faded_tick
  | expire roomId key =>
      obtain rfl := Option.some.inj hs
      refine h.redis (faded_exec fun hr hmem => ?_)
      exact hg hr (List.mem_singleton.mp hmem).symm

theorem counted_preserved :
    (system me).Preserves (Orderly me r) fun c => Counted me r c.store c.pool where
  start c p hc _ hp := by
    refine hc.start ?_
    cases p with
    | memberPubkeys => rfl
    | sendBundle => rfl
    | _ => cases hp
  turn _ _ p _ _ hc hg hi hs := hc.step hi (hg.2 p hi) hs
  env _ _ _ hc hg hs := hc.env hg.1 hg.2 hs

/-- Hooks leave the rooms of the server alone. -/
theorem step_room {w w' : World} {p p' : Job} (hs : step me p w = some (w', p')) :
    w'.redis.room = w.redis.room := by
  cases p with
  | ended => cases hs
  | _ =>
      simp only [OwnerEpochs.step] at hs
      repeat' split at hs
      all_goals first
        | obtain ⟨rfl, -⟩ := Prod.mk.inj (Option.some.inj hs)
          rfl
        | cases hs

theorem env_rises {w w' : World} {pool : List Job} {move : Move} (h : Counted me r w pool)
    (hhonest : Honest me r ⟨w, pool⟩ (.env move)) (hg : Settled me r ⟨w, pool⟩ move)
    (hs : env me move w = some w') : epochOf w.redis r ≤ epochOf w'.redis r := by
  cases move with
  | process =>
      simp only [OwnerEpochs.env] at hs
      split at hs
      · cases hs
      · rename_i op requests hop
        obtain rfl := Option.some.inj hs
        obtain ⟨hburns, howner⟩ := hhonest op requests hop
        obtain ⟨hsuits, -⟩ : Fits me r (epochOf w.redis r) (op :: requests) := hop ▸ h.fits
        rw [(serve_epochs (w := { w with requests := requests }) h.nonneg h.past hsuits hburns
          howner (hg op requests hop)).1]
        exact hsuits.le
  | tick =>
      obtain rfl := Option.some.inj hs
      exact (faded_tick (A := fun _ => True)).epochOf_eq.ge
  | expire roomId key =>
      obtain rfl := Option.some.inj hs
      have hfaded : Faded (fun _ => True) (w.redis.room r)
          ((Store.exec (.del roomId [key]) w.redis).room r) :=
        faded_exec fun hr hmem => hg hr (List.mem_singleton.mp hmem).symm
      exact hfaded.epochOf_eq.ge
  | roomCreated i key =>
      obtain ⟨roomId, -, rfl⟩ := Option.map_eq_some_iff.mp hs
      exact le_refl _
  | receive i unwrapped =>
      simp only [OwnerEpochs.env] at hs
      split at hs
      · split at hs
        · obtain rfl := Option.some.inj hs
          exact le_refl _
        · obtain rfl := Option.some.inj hs
          exact le_refl _
      · obtain rfl := Option.some.inj hs
        exact le_refl _
  | _ =>
      obtain rfl := Option.some.inj hs
      exact le_refl _

theorem rises (h : Counted me r c.store c.pool) (hrun : (system me).Run (Orderly me r) c c') :
    epochOf c.store.redis r ≤ epochOf c'.store.redis r := by
  have hpreserved : (system me).Preserves (Orderly me r) fun d =>
      Counted me r d.store d.pool ∧ epochOf c.store.redis r ≤ epochOf d.store.redis r :=
    { start := fun d p hd hg hp => ⟨counted_preserved.start d p hd.1 hg hp, hd.2⟩
      turn := fun d i p w' p' hd hg hi hs => by
        refine ⟨counted_preserved.turn d i p w' p' hd.1 hg hi hs, hd.2.trans ?_⟩
        rw [epochOf, epochOf, step_room hs]
      env := fun d move w' hd hg hs =>
        ⟨counted_preserved.env d move w' hd.1 hg hs, hd.2.trans (env_rises hd.1 hg.1 hg.2 hs)⟩ }
  exact (hrun.invariant hpreserved ⟨h, le_refl _⟩).2

/-- In every orderly run the counts of the owner and the server agree. -/
theorem epochs_agree {w : World} (hf : Fresh r w)
    (h : (system me).Run (Orderly me r) ⟨w, []⟩ c) : Kept me r (Orderly me r) c := by
  have hc : Counted me r c.store c.pool := h.invariant counted_preserved (.init hf)
  refine ⟨fun c' hrun => rises hc hrun, fun hquiet entry he => ?_, ?_⟩
  · obtain ⟨hqueue, hwraps⟩ := not_or.mp hquiet
    have hzero : c.pool.countP (Job.wraps r) = 0 :=
      List.countP_eq_zero.mpr fun p hp hw => hwraps ⟨p, hp, hw⟩
    rw [hc.latest entry he, hzero, last_eq (not_not.mp hqueue)]
    exact (Int.add_zero _).symm
  · intro owner e items name requests c' hop haccepted hok hg hnext c'' hrun
    -- the owner has asked for the rekey, and it is done
    obtain ⟨room, hroom, how⟩ := owner_of_rekey hok
    have hdone := serve_rekeyed { c.store with requests := requests } me
      haccepted hroom how
    have hc' : Counted me r c'.store c'.pool := counted_preserved.next hc hg hnext
    have hepoch : epochOf c'.store.redis r = e := by
      obtain ⟨w', hw', rfl⟩ := Option.map_eq_some_iff.mp hnext
      have hserved : ({ c.store with requests := requests }.serve me
          (.rekey owner r e items name)) = w' := by
        refine Option.some.inj (hw'.symm.trans ?_).symm
        simp only [system, OwnerEpochs.env, hop]
      rw [epochOf, ← hserved, hdone.epoch, Option.getD_some]
    have hle : e ≤ epochOf c''.store.redis r := hepoch ▸ rises hc' hrun
    have hc'' : Counted me r c''.store c''.pool := hrun.invariant counted_preserved hc'
    refine ⟨fun e' hlt => hc''.past e' (hlt.trans_le hle), ?_⟩
    intro op requests' hop' _ hg' u e' b hmem
    exact hle.trans ((hc''.served hop' (hg'.1 op requests' hop').2).sentBy hmem)

end Runs

/-! ## Two runs -/

def heeds (me r : String) (c : State) : Action Job Move → Bool
  | .env (.request op) => decide (keysOf op ≠ some (me, r))
  | .env .process =>
      match c.store.requests with
      | op :: _ => !AutoBurn.burns op
          && (findRoom c.store.redis r).all fun room => room.ownerInternalId == me
      | [] => true
  | _ => true

theorem honest_of_heeds {me r : String} {c : State} {a : Action Job Move}
    (h : heeds me r c a = true) : Honest me r c a := by
  cases a with
  | start p => trivial
  | turn i => trivial
  | env move =>
      cases move with
      | request op =>
          have hne : keysOf op ≠ some (me, r) := of_decide_eq_true h
          exact hne
      | process =>
          intro op requests hop
          simp only [heeds, hop, Bool.and_eq_true, Bool.not_eq_true'] at h
          refine ⟨h.1, fun room hroom u how => ?_⟩
          rw [hroom, Option.all_some, beq_iff_eq] at h
          rw [RoomService.isOwner, Bool.and_eq_true, beq_iff_eq] at how
          exact how.2.symm.trans h.2
      | _ => trivial

/-- A rekey begins with a key, on its own. -/
def careful (me r : String) (c : State) : Job → Bool
  | .memberPubkeys .. => (c.pool.all fun q => !q.rekeys r)
      && (c.store.client.getGroupKeyEntry r).isSome
  | .wrapping rekey crypto _ => decide (rekey.newEpoch ≤ RoomKeysRepository.MAX_VALUE)
      && match rekey.bundles me crypto.wrapGroupKey with
        | some (_ :: _) => true
        | _ => false
  | .sealing _ _ epoch _ => decide (epochOf c.store.redis r ≤ epoch)
      && (queued me r c.store).all (decide <| · ≤ epoch)
  | _ => true

def settled (me r : String) (c : State) : Move → Bool
  | .roomCreated .. => epochOf c.store.redis r == 0 && (queued me r c.store).isEmpty
      && c.pool.all fun q => !q.rekeys r
  | .receive _ unwrapped => unwrapped.isNone
  | .process => c.store.requests.head?.all fun op => (rekeyOf me r op).isNone
      || (findRoom c.store.redis r).any fun room => RoomService.isOwner room me
  | .expire .. => false
  | _ => true

def orderly (me r : String) (c : State) (a : Action Job Move) : Bool :=
  heeds me r c a &&
    match a with
    | .turn i => c.pool[i]?.all (careful me r c)
    | .env move => settled me r c move
    | .start _ => true

theorem careful_of_careful {me r : String} {c : State} {p : Job}
    (h : careful me r c p = true) : Careful me r c p := by
  cases p with
  | memberPubkeys i crypto name =>
      intro roomId publicKeys epoch rekey _ _ _
      obtain ⟨hno, hsome⟩ := Bool.and_eq_true_iff.mp h
      refine ⟨fun q hq => by simpa using List.all_eq_true.mp hno q hq, fun hnone => ?_⟩
      rw [hnone] at hsome
      cases hsome
  | wrapping rekey crypto name =>
      intro _
      obtain ⟨hmax, hitems⟩ := Bool.and_eq_true_iff.mp h
      refine ⟨of_decide_eq_true hmax, ?_⟩
      split at hitems
      · rename_i item items hbundles
        exact ⟨item, items, hbundles⟩
      · cases hitems
  | sealing roomId internalId epoch bundle =>
      cases bundle with
      | none => trivial
      | some bundle =>
          intro _
          obtain ⟨hle, hall⟩ := Bool.and_eq_true_iff.mp h
          exact ⟨of_decide_eq_true hle,
            fun e he => of_decide_eq_true (List.all_eq_true.mp hall e he)⟩
  | _ => trivial

theorem settled_of_settled {me r : String} {c : State} {move : Move}
    (h : settled me r c move = true) : Settled me r c move := by
  cases move with
  | roomCreated i key =>
      intro _
      simp only [settled, Bool.and_eq_true, beq_iff_eq, List.isEmpty_iff, List.all_eq_true,
        Bool.not_eq_true'] at h
      exact ⟨h.1.1, h.1.2, h.2⟩
  | receive i unwrapped => exact fun _ _ _ => Option.isNone_iff_eq_none.mp h
  | process =>
      intro op requests hop hrekey
      simp only [settled, hop, List.head?_cons, Option.all_some, Bool.or_eq_true] at h
      rcases h with hnone | hany
      · rw [Option.isNone_iff_eq_none] at hnone
        rw [hnone] at hrekey
        cases hrekey
      · exact (Option.any_eq_true ..).mp hany
  | expire roomId key => cases h
  | _ => trivial

theorem orderly_of_orderly {me r : String} {c : State} {a : Action Job Move}
    (h : orderly me r c a = true) : Orderly me r c a := by
  obtain ⟨hheeds, hrest⟩ := Bool.and_eq_true_iff.mp h
  refine ⟨honest_of_heeds hheeds, ?_⟩
  cases a with
  | start p => trivial
  | turn i =>
      intro p hp
      have hall : c.pool[i]?.all (careful me r c) = true := hrest
      rw [hp] at hall
      exact careful_of_careful hall
  | env move => exact settled_of_settled hrest

/-- `o` creates a room, which `u` joins. -/
def joined : List (Action Job Move) :=
  [.env (.request (.createRoom "o" ⟨none, none, .byPassword, "", "", some "ko"⟩ "r" "t" 100)),
    .env .process, .env (.roomCreated 0 1),
    .env (.request (.requestJoin ⟨"u", "t", true, some "ku"⟩)), .env .process]

/-- The owner rekeys the room; the answer of the server is at `i`. -/
def rekeys (i : Nat) (crypto : Crypto) : List (Action Job Move) :=
  [.env (.rekeyRoom "r" false), .env .process, .start (.memberPubkeys i crypto none),
    .turn 0, .turn 0, .turn 0]

def start : World := ⟨.empty, [], [], .empty⟩

theorem fresh_start : Fresh "r" start := ⟨rfl, fun _ => rfl, rfl, rfl⟩

/-- After `u` has left nobody is there to be sent a new key. -/
def deserted : List (Action Job Move) :=
  joined ++ [.env (.request (.leave "u" "r")), .env .process] ++ rekeys 3 ⟨some 2, fun _ => none⟩

/-- `v` joins too and is kicked, and `u` is sent the new key. -/
def rotated : List (Action Job Move) :=
  joined ++ [.env (.request (.requestJoin ⟨"v", "t", true, some "kv"⟩)), .env .process,
    .env (.request (.kick "o" "r" "v")), .env .process]
    ++ rekeys 6 ⟨some 2, fun _ => some ⟨"e", "k", "i"⟩⟩ ++ [.env .process]

theorem rotated_agrees : ∃ c, (system "o").Run (Orderly "o" "r") ⟨start, []⟩ c
    ∧ epochOf c.store.redis "r" = 1 ∧ c.store.client.getGroupKeyEntry "r" = some ⟨1, 2⟩
    ∧ Kept "o" "r" (Orderly "o" "r") c := by
  obtain ⟨c, hrun, hc⟩ := (system "o").exists_run_of_execWhile (orderly "o" "r") ⟨start, []⟩
    rotated (fun c => epochOf c.store.redis "r" == 1
      && c.store.client.getGroupKeyEntry "r" == some ⟨1, 2⟩)
    (fun _ _ h => orderly_of_orderly h) (by decide +kernel)
  simp only [Bool.and_eq_true, beq_iff_eq] at hc
  exact ⟨c, hrun, hc.1, hc.2, epochs_agree fresh_start hrun⟩

theorem counts_part : ¬ ∀ me r w c, Fresh r w → (system me).Run (Honest me r) ⟨w, []⟩ c →
    Kept me r (Honest me r) c := by
  intro hall
  obtain ⟨c, hrun, hc⟩ := (system "o").exists_run_of_execWhile (heeds "o" "r") ⟨start, []⟩ deserted
    (fun c => (queued "o" "r" c.store).isEmpty && (c.pool.all fun p => !p.wraps "r")
      && epochOf c.store.redis "r" == 0
      && c.store.client.getGroupKeyEntry "r" == some ⟨1, 2⟩)
    (fun _ _ h => honest_of_heeds h) (by decide +kernel)
  simp only [Bool.and_eq_true, beq_iff_eq, List.isEmpty_iff, List.all_eq_true] at hc
  obtain ⟨⟨⟨hqueue, hwraps⟩, hepoch⟩, hentry⟩ := hc
  have hquiet : ¬ UnderWay "o" "r" c := by
    rintro (h | ⟨p, hp, hw⟩)
    · exact h hqueue
    · have hno := hwraps p hp
      rw [hw] at hno
      cases hno
  have hsame := (hall "o" "r" start c fresh_start hrun).agrees hquiet _ hentry
  rw [hepoch] at hsame
  exact absurd hsame (by decide)

end OwnerEpochs

end BurnedChats

import BurnedChats.Backend.Flags

/-!
# The key exchange of a session, with both clients

`useHandshake` keeps, for one session, whether a handshake is active, the stage
it shows, and the keys of the key store. A new key pair is published at once;
the server stores it in the session, and the request that finds both keys sends
each to the other side and clears them. A call of the hook is one step: its
`await`s are for key operations on the spot.

A key pair is named by its public key. Submissions and events are on their way
for as long as they like, in any order; a request of the server starts by
receiving a submission.
-/

namespace BurnedChats

open Interleave Sessions

namespace Handshake

/-! ## Keys -/

/-- The platform's operations. `computeSharedSecret` takes a key pair and the
peer's public key; Diffie-Hellman does not depend on the side. -/
structure Crypto where
  computeSharedSecret : String → String → List UInt8
  computeSharedSecret_comm : ∀ x y, computeSharedSecret x y = computeSharedSecret y x
  deriveAESKey : List UInt8 → String
  exportKey : String → List UInt8
  sha256 : List UInt8 → List UInt8

/-- Lexicographic comparison of two byte arrays. -/
def compareByteArrays : List UInt8 → List UInt8 → Int
  | [], ys => -ys.length
  | xs, [] => xs.length
  | x :: xs, y :: ys => if x ≠ y then (x.toNat : Int) - y.toNat else compareByteArrays xs ys

def Crypto.hashSortedPublicKeys (crypto : Crypto) (localKey peerKey : String) : List UInt8 :=
  let localBytes := crypto.exportKey localKey
  let peerBytes := crypto.exportKey peerKey
  crypto.sha256 (if compareByteArrays localBytes peerBytes ≤ 0 then localBytes ++ peerBytes
    else peerBytes ++ localBytes)

/-- Eight groups of five digits from the first sixteen bytes of a hash. -/
def formatSafetyNumber (hash : List UInt8) : String :=
  let group (i : Nat) :=
    let digits := toString ((hash.getD (2 * i) 0).toNat * 256 + (hash.getD (2 * i + 1) 0).toNat)
    "".pushn '0' (5 - digits.length) ++ digits
  String.intercalate " " ((List.range 8).map group)

structure SharedSecret where
  key : String
  fingerprint : String
deriving DecidableEq

def Crypto.sharedSecret (crypto : Crypto) (keyPair peerPublicKey : String) : SharedSecret where
  key := crypto.deriveAESKey (crypto.computeSharedSecret keyPair peerPublicKey)
  fingerprint := formatSafetyNumber (crypto.hashSortedPublicKeys keyPair peerPublicKey)

theorem compareByteArrays_swap (xs ys : List UInt8) :
    compareByteArrays ys xs = -compareByteArrays xs ys := by
  induction xs generalizing ys with
  | nil => cases ys <;> simp [compareByteArrays]
  | cons x xs ih =>
      cases ys with
      | nil => simp [compareByteArrays]
      | cons y ys =>
          simp only [compareByteArrays]
          by_cases h : x = y
          · simp [h, ih]
          · rw [if_pos h, if_pos (Ne.symm h)]
            omega

theorem eq_of_compareByteArrays {xs ys : List UInt8} (h : compareByteArrays xs ys = 0) :
    xs = ys := by
  induction xs generalizing ys with
  | nil =>
      cases ys with
      | nil => rfl
      | cons y ys => simp [compareByteArrays] at h; omega
  | cons x xs ih =>
      cases ys with
      | nil => simp [compareByteArrays] at h; omega
      | cons y ys =>
          simp only [compareByteArrays] at h
          by_cases hxy : x = y
          · rw [if_neg (not_not_intro hxy)] at h
            rw [hxy, ih h]
          · rw [if_pos hxy] at h
            exact absurd (UInt8.toNat_inj.mp (by omega)) hxy

/-- The hash of two keys does not depend on who computes it. -/
theorem Crypto.hashSortedPublicKeys_comm (crypto : Crypto) (x y : String) :
    crypto.hashSortedPublicKeys x y = crypto.hashSortedPublicKeys y x := by
  simp only [hashSortedPublicKeys]
  congr 1
  have hswap := compareByteArrays_swap (crypto.exportKey x) (crypto.exportKey y)
  rcases Int.lt_trichotomy (compareByteArrays (crypto.exportKey x) (crypto.exportKey y)) 0 with
    h | h | h
  · rw [if_pos (by omega), if_neg (by omega)]
  · rw [eq_of_compareByteArrays h]
  · rw [if_neg (by omega), if_pos (by omega)]

theorem Crypto.sharedSecret_comm (crypto : Crypto) (x y : String) :
    crypto.sharedSecret x y = crypto.sharedSecret y x := by
  simp only [sharedSecret, crypto.computeSharedSecret_comm x y,
    crypto.hashSortedPublicKeys_comm x y]

/-! ## The client -/

/-- The stages between two calls of the hook. -/
inductive Stage where
  | idle | waitingPeer | complete | error
deriving DecidableEq

/-- An entry of the key store. -/
structure SessionKeys where
  keyPair : String
  peerPublicKey : Option String := none
  sharedSecret : Option SharedSecret := none
deriving DecidableEq

structure Client where
  active : Bool := false
  stage : Stage := .idle
  keys : Option SessionKeys := none
  pendingPeerKey : Option Event := none
  keyRefresh : Bool := false

/-- `handleError` for the session: its keys are burned. -/
def Client.handleError (c : Client) : Client :=
  { c with keys := none, pendingPeerKey := none, stage := .error, active := false }

/-- `processPeerKey` and `completeHandshake`. -/
def Client.processPeerKey (crypto : Crypto) (data : Event) (c : Client) : Client :=
  match data with
  | .error _ => c.handleError
  | .peerPublicKey key =>
      match c.keys with
      | none => c.handleError
      | some keys =>
          let secret := crypto.sharedSecret keys.keyPair key
          { c with
            keys := some { keys with peerPublicKey := some key, sharedSecret := some secret }
            stage := .complete
            active := false }
  | _ => c

def Client.handlePeerPublicKey (crypto : Crypto) (data : Event) (c : Client) : Client :=
  if c.active then c.processPeerKey crypto data else { c with pendingPeerKey := some data }

def Client.handleKeyRefresh (c : Client) : Client :=
  if c.active then c else { c with keyRefresh := true }

/-- Events of other queues do not reach the hook. -/
def Client.receive (crypto : Crypto) (event : Event) (c : Client) : Client :=
  match event with
  | .peerPublicKey _ => c.handlePeerPublicKey crypto event
  | .error _ => c.handlePeerPublicKey crypto event
  | .keyRefresh => c.handleKeyRefresh
  | _ => c

def Client.isHandshakeComplete (c : Client) : Bool := c.keys.any fun keys => keys.sharedSecret.isSome

/-- `startHandshake`, with the key pair it generates if it comes to that; also
what it publishes. -/
def Client.startHandshake (crypto : Crypto) (isConnected forceRefresh : Bool) (newKey : String)
    (c : Client) : Client × Option String :=
  if !isConnected then ({ c with stage := .error, active := false }, none)
  else
    let c := { c with pendingPeerKey := none }
    if c.active && !forceRefresh then (c, none)
    else
      if !forceRefresh && c.isHandshakeComplete then
        ({ c with active := false, stage := .complete }, none)
      else
        -- what keys there were are burned
        let c := { c with active := true, keys := some { keyPair := newKey }, stage := .waitingPeer }
        match c.pendingPeerKey with
        | some data => ({ c with pendingPeerKey := none }.processPeerKey crypto data, some newKey)
        | none => (c, some newKey)

def Client.cancelHandshake (c : Client) : Client :=
  if c.active then { c with active := false, keys := none, pendingPeerKey := none, stage := .idle }
  else { c with stage := .idle }

def Client.isComplete (c : Client) : Bool := c.stage = .complete

/-! ## The exchange -/

/-- The two participants. A session with oneself is refused when it is requested. -/
structure Parties where
  initiator : String
  responder : String
  initiator_text : isBlank initiator = false
  responder_text : isBlank responder = false
  distinct : initiator ≠ responder

def Parties.id (parties : Parties) : Role → String
  | .initiator => parties.initiator
  | .responder => parties.responder

def Parties.role? (parties : Parties) (user : String) : Option Role :=
  if user = parties.initiator then some .initiator
  else if user = parties.responder then some .responder
  else none

/-- `inbox` are the submissions on their way; `generated` all keys so far. -/
structure Exchange where
  server : Store
  inbox : List (Role × String)
  clients : Role → Client
  generated : List String

/-- A request to `/handshake.key`. -/
inductive Request where
  | receiving (j : Nat)
  | handling (call : Call)

structure System where
  cfg : Config
  crypto : Crypto
  parties : Parties
  isValidBase64Key : String → Bool

inductive Move where
  | startHandshake (role : Role) (isConnected forceRefresh : Bool) (newKey : String)
  | refreshKeys (role : Role) (inChat : Bool) (newKey : String)
  | timeout (role : Role)
  | cancelHandshake (role : Role)
  | reload (role : Role)
  | deliver (j : Nat)
  | tick (ms : Nat)

namespace System

variable (sys : System)

/-- `relayPublicKey`. -/
def receive (role : Role) (key : String) : Call :=
  if sys.isValidBase64Key key then .arriving (.relayKey (sys.parties.id role) key)
  else ⟨[.send (sys.parties.id role) (.error "INVALID_KEY")], none⟩

def step : Request → Exchange → Option (Exchange × Request)
  | .receiving j, e =>
      match e.inbox[j]? with
      | none => none
      | some (role, key) =>
          some ({ e with inbox := e.inbox.eraseIdx j }, .handling (sys.receive role key))
  | .handling call, e =>
      (sys.cfg.step call e.server).map fun r => ({ e with server := r.1 }, .handling r.2)

/-- A client's state after a call of `startHandshake`; the new key is published. -/
def started (e : Exchange) (role : Role) (r : Client × Option String) : Exchange :=
  match r.2 with
  | none => { e with clients := Function.update e.clients role r.1 }
  | some key =>
      { e with
        clients := Function.update e.clients role r.1
        inbox := e.inbox ++ [(role, key)]
        generated := key :: e.generated }

/-- The reaction to a key-refresh notification: only in the open chat. -/
def refreshed (e : Exchange) (role : Role) (inChat : Bool) (newKey : String) :
    Client × Option String :=
  let client := { e.clients role with keyRefresh := false }
  if inChat then client.startHandshake sys.crypto true true newKey else (client, none)

def move (m : Move) (e : Exchange) : Option Exchange :=
  let update (role : Role) (f : Client → Client) : Exchange :=
    { e with clients := Function.update e.clients role (f (e.clients role)) }
  match m with
  | .startHandshake role isConnected forceRefresh newKey =>
      let r := (e.clients role).startHandshake sys.crypto isConnected forceRefresh newKey
      some (started e role r)
  | .refreshKeys role inChat newKey =>
      if (e.clients role).keyRefresh then
        some (started e role (sys.refreshed e role inChat newKey))
      else none
  | .timeout role =>
      if (e.clients role).active then some (update role Client.handleError) else none
  | .cancelHandshake role => some (update role Client.cancelHandshake)
  | .reload role => some (update role fun _ => {})
  | .deliver j =>
      match e.server.outbox[j]? with
      | none => none
      | some (user, event) =>
          let rest := { e with server := { e.server with outbox := e.server.outbox.eraseIdx j } }
          match sys.parties.role? user with
          | none => some rest
          | some role =>
              let client := (e.clients role).receive sys.crypto event
              some { rest with clients := Function.update e.clients role client }
  | .tick ms => some { e with server := { e.server with now := e.server.now + ms } }

def exchange : Server Exchange Request Move where
  opens p := match p with | .receiving _ => true | .handling _ => false
  step := sys.step
  env := sys.move

end System

def Request.isFinished : Request → Bool
  | .receiving _ => true
  | .handling call => call.isFinished

/-- No submission or event is on its way and no request is being processed. -/
def quiet (c : Conf Exchange Request) : Bool :=
  c.pool.all Request.isFinished && c.store.inbox.isEmpty && c.store.server.outbox.isEmpty

end Handshake

end BurnedChats

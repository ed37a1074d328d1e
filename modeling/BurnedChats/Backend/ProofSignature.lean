import BurnedChats.Backend.TonAddressBag
import BurnedChats.Lib.Framing

/-!
# What an accepted wallet proof shows

`TonProofVerifier.verify` with its checks spelled out: the proof is read from the
credentials (`parseProof`), a public key is found for the address (`resolveWalletPublicKey`,
`WalletStateInitParser`), and a signature of that key over the proof is checked
(`buildSignedPayload`). What the program has of the platform, of ton4j and of the network
is a parameter (`Externals`).

In every run of the verifier, an accepted address is the one that the signed message
names, together with a domain that is the expected one, a time in the window and a nonce
the server has drawn (`proof_authentic`). No signature stands for two proofs, and no
address has two keys, unless a hash collides (`signature_names_proof`). A wallet of a known
version is recognised by its own key and by no other (`known_wallet_key`).
-/

namespace BurnedChats

open Buffer (Bytes)
open Encoding (formatHex parseHex packBytes)
open Builder (byteBits)
open Framing (littleEndian twos Collides)
open Interleave
open TonProofVerifier (Reason AuthCredentials TonProof TonProofDomain)

/-! ## The platform -/

/-- A JSON tree, with what Jackson reads of a value as text and as a number. -/
inductive JsonNode where
  | null
  | value (asText : String) (asInt : Int32) (asLong : Int64)
  | object (fields : List (String × JsonNode))

namespace JsonNode

def get (node : JsonNode) (field : String) : Option JsonNode :=
  match node with
  | .object fields => fields.lookup field
  | _ => none

/-- A missing node has no fields. -/
def path (node : JsonNode) (field : String) : JsonNode := (node.get field).getD (.object [])

def isNull : JsonNode → Bool
  | .null => true
  | _ => false

def asText : JsonNode → String
  | .null => "null"
  | .value asText _ _ => asText
  | .object _ => ""

def asInt : JsonNode → Int32
  | .value _ asInt _ => asInt
  | _ => 0

def asLong : JsonNode → Int64
  | .value _ _ asLong => asLong
  | _ => 0

end JsonNode

/-- Jackson's reader, ton4j's cells, hash and signature functions, and the answers of the
TON API to a method with an address (`none` where there is no key in it). -/
structure Externals where
  jdk : Jdk
  readTree : String → Option JsonNode
  base64ToBytes : String → Option Bytes
  fromBoc : Bytes → Option Cell
  hash : Cell → Bytes
  sha256 : Bytes → Bytes
  verifyEd25519 : Bytes → Bytes → Bytes → Bool
  fetchPublicKeyHex : String → String → Except Unit (Option String)

/-- What is missing is rejected. -/
def orReject {α : Type} (reason : Reason) : Option α → Except Reason α
  | some a => .ok a
  | none => .error reason

/-- Every failure of a step is reported with one reason. -/
def rejecting {α : Type} (reason : Reason) (x : Except String α) : Except Reason α :=
  x.mapError fun _ => reason

theorem except_bind_eq_ok {ε α β : Type} {x : Except ε α} {f : α → Except ε β} {b : β} :
    (x >>= f) = .ok b ↔ ∃ a, x = .ok a ∧ f a = .ok b := by
  cases x with
  | error e => simp [Bind.bind, Except.bind]
  | ok a => simp [Bind.bind, Except.bind]

theorem except_ok_bind {ε α β : Type} (a : α) (f : α → Except ε β) : (.ok a >>= f) = f a := rfl

theorem mapError_eq_ok {ε ε' α : Type} {x : Except ε α} {f : ε → ε'} {a : α} :
    x.mapError f = .ok a ↔ x = .ok a := by
  cases x with
  | error e => simp [Except.mapError]
  | ok b => simp [Except.mapError]

namespace TonProofSupport

structure ParsedProof where
  parsedAddress : ParsedAddress
  proof : TonProof

/-- What a call of the verifier keeps of a proof. -/
def ParsedProof.kept (parsed : ParsedProof) : TonProofVerifier.ParsedProof :=
  ⟨parsed.parsedAddress.canonicalRaw, parsed.proof⟩

def ParsedProof.verified (parsed : ParsedProof) : TonProofVerifier.VerifiedTonProof :=
  ⟨parsed.parsedAddress.canonicalRaw, parsed.proof.payload, parsed.proof.timestamp⟩

def TON_CONNECT_PREFIX : Bytes := "ton-connect".toUTF8.data.toList

def TON_PROOF_PREFIX : Bytes := "ton-proof-item-v2/".toUTF8.data.toList

def TON_HEADER_PREFIX : Bytes := [0xff, 0xff]

def utf8 (s : String) : Bytes := s.toUTF8.data.toList

/-- The buffer is big-endian up to the hash and little-endian after it. -/
def signedMessage (parsed : ParsedProof) : Bytes :=
  let address := parsed.parsedAddress
  let proof := parsed.proof
  let domainBytes := utf8 proof.domain.value
  TON_PROOF_PREFIX ++ ((littleEndian 4 (twos 4 address.workchain)).reverse ++ (address.hashPart
    ++ (littleEndian 4 domainBytes.length ++ (domainBytes
      ++ (littleEndian 8 (twos 8 proof.timestamp) ++ utf8 proof.payload)))))

def finalMessage (sha256 : Bytes → Bytes) (parsed : ParsedProof) : Bytes :=
  TON_HEADER_PREFIX ++ (TON_CONNECT_PREFIX ++ sha256 (signedMessage parsed))

def buildSignedPayload (sha256 : Bytes → Bytes) (parsed : ParsedProof) : Bytes :=
  sha256 (finalMessage sha256 parsed)

/-- The one failure of `decodeBase64Any` that has a reason of its own. -/
def base64Reason (other : Reason) (e : String) : Reason :=
  if e = "Base64 value is required" then .invalidRequest else other

def decodeSignature (signature : String) : Except Reason Bytes := do
  let decoded ← (decodeBase64Any signature).mapError (base64Reason .signatureInvalid)
  if decoded.length ≠ 64 then .error .invalidRequest else .ok decoded

def textOrNull (node : JsonNode) (field : String) : Option String :=
  match node.get field with
  | none => none
  | some value => if value.isNull ∨ isBlank value.asText then none else some value.asText

def textOrThrow (node : JsonNode) (field : String) : Except Reason String :=
  orReject .invalidRequest (textOrNull node field)

def intOrNull (node : JsonNode) (field : String) : Option Int :=
  match node.get field with
  | none => none
  | some value => if value.isNull then none else some value.asInt.toInt

def longOrThrow (node : JsonNode) (field : String) : Except Reason Int :=
  match node.get field with
  | none => .error .invalidRequest
  | some value => if value.isNull then .error .invalidRequest else .ok value.asLong.toInt

def nonBlank : Option String → Option String
  | some s => if isBlank s then none else some s
  | none => none

def firstNonBlank (first second : Option String) : Option String :=
  (nonBlank first <|> nonBlank second).map trim

end TonProofSupport

/-! ## State inits -/

namespace WalletStateInitParser

inductive WalletVersion where
  | V3R2 | V4R1 | V4R2 | V5
deriving DecidableEq

def CODE_HASH_V3R2 : String := "84dafa449f98a6987789ba232358072bc0f76dc4524002a5d0918b9a75d2d599"
def CODE_HASH_V4R1 : String := "64dd54805522c5be8a9db59ceb0351bdf9d5cd72f8a3a3094c1a3a0d29a7e2c8"
def CODE_HASH_V4R2 : String := "feb5ff6820e2ff0d9483e7e0d62c817d846789fb4ae580c878866d959dabd5c0"
def CODE_HASH_V5 : String := "20834b7b72b112147e1b2fb457b84e74d1a30f04f737d4f62a668e9552d2b72f"

def CODE_HASH_TO_VERSION : List (String × WalletVersion) :=
  [(CODE_HASH_V3R2, .V3R2), (CODE_HASH_V4R1, .V4R1), (CODE_HASH_V4R2, .V4R2), (CODE_HASH_V5, .V5)]

structure ParsedStateInit where
  publicKey : Bytes
  version : WalletVersion
  codeHash : Bytes

variable (E : Externals)

/-- A field that is there or not, by a bit in front of it. -/
def loadMaybe {α : Type} (s : Slice) (load : Slice → Except String (α × Slice)) :
    Except String (Option α × Slice) := do
  let (present, s) ← s.loadBit
  if present then
    let (a, s) ← load s
    .ok (some a, s)
  else .ok (none, s)

/-- Split depth, tick and tock, code, data; the library is not looked at. -/
def extractCodeAndData (stateInit : Cell) : Except String (Option (Cell × Cell)) := do
  let slice := stateInit.beginParse
  let (_, slice) ← loadMaybe slice (·.loadUint 5)
  let (_, slice) ← loadMaybe slice (·.loadUint 2)
  let (code, slice) ← loadMaybe slice (·.loadRef)
  let (data, _) ← loadMaybe slice (·.loadRef)
  match code, data with
  | some code, some data => .ok (some (code, data))
  | _, _ => .ok none

/-- `none` is an unknown version. Hexadecimal is written in lower case. -/
def resolveVersion (code : Cell) : Option WalletVersion :=
  CODE_HASH_TO_VERSION.lookup (String.ofList (formatHex (E.hash code)))

def extractPublicKeyFromData (data : Cell) (version : WalletVersion) : Except String Bytes := do
  let ds := data.beginParse
  let ds ← match version with
    | .V5 => do
        let (_, ds) ← ds.loadBit
        .ok ds
    | _ => .ok ds
  let (_, ds) ← ds.loadUint 32
  let (_, ds) ← ds.loadUint 32
  let (key, _) ← ds.loadBits 256
  .ok (packBytes key)

def hexPrefixed (value : String) : Bool := value.startsWith "0x" || value.startsWith "0X"

def parsePublicKeyHex (value : String) : Except Reason Bytes := do
  let hex := if hexPrefixed value then value.toList.drop 2 else (trim value).toList
  let key ← orReject .invalidRequest (parseHex hex)
  if key.length ≠ 32 then .error .invalidRequest else .ok key

def decodeStateInitBoc (base64 : String) : Except Reason Bytes :=
  if isBlank base64 then .error .invalidRequest
  else orReject .invalidRequest (E.base64ToBytes (trim base64))

def validateInputs (stateInitBoc : Bytes) (providedPublicKeyHex : String)
    (addressHashPart : Bytes) : Except Reason Unit :=
  if stateInitBoc = [] ∨ isBlank providedPublicKeyHex then .error .invalidRequest
  else if addressHashPart.length ≠ 32 then .error .addressInvalid
  else .ok ()

/-- An underflow in the cells is no `WalletProofException`: the verifier reports it as an
invalid signature. -/
def tryParse (stateInitBoc : Bytes) (providedPublicKeyHex : String) (addressHashPart : Bytes) :
    Except Reason (Option ParsedStateInit) := do
  validateInputs stateInitBoc providedPublicKeyHex addressHashPart
  let stateInit ← orReject .invalidRequest (E.fromBoc stateInitBoc)
  if E.hash stateInit ≠ addressHashPart then .error .signatureInvalid
  else
    match ← rejecting .signatureInvalid (extractCodeAndData stateInit) with
    | none => .ok none
    | some (code, data) =>
        match resolveVersion E code with
        | none => .ok none
        | some version => do
            let providedKey ← parsePublicKeyHex providedPublicKeyHex
            let extractedKey ← rejecting .signatureInvalid (extractPublicKeyFromData data version)
            if providedKey ≠ extractedKey then .error .signatureInvalid
            else .ok (some ⟨providedKey, version, E.hash code⟩)

end WalletStateInitParser

/-! ## The verifier -/

namespace TonProofVerifier

open TonProofSupport WalletStateInitParser

structure Settings where
  nonceTtl : Nat
  maxProofAge : Nat
  expectedDomain : String

variable (E : Externals) (S : Settings)

/-- The address is not blank, so base64 is all that can be wrong with a friendly one. -/
def parseProof (credentials : AuthCredentials) : Except Reason TonProofSupport.ParsedProof := do
  let walletProof ← orReject .invalidRequest (nonBlank credentials.walletProof)
  let root ← orReject .invalidRequest (E.readTree walletProof)
  let proofNode := (root.get "proof").getD root
  let address ← orReject .invalidRequest
    (nonBlank (firstNonBlank credentials.walletAddress (textOrNull root "address")))
  let timestamp ← longOrThrow proofNode "timestamp"
  let domain := proofNode.path "domain"
  let value ← textOrThrow domain "value"
  let lengthBytes := intOrNull domain "lengthBytes"
  let signature ← textOrThrow proofNode "signature"
  let payload ← orReject .nonceMissing (textOrNull proofNode "payload")
  let parsedAddress ← rejecting .addressInvalid (TonProofSupport.parseAddress E.jdk address)
  .ok ⟨parsedAddress, ⟨timestamp, ⟨value, lengthBytes⟩, signature, payload⟩⟩

/-- `onFailure` is what a failure of the network is reported as. -/
def fetchWalletPublicKey (onFailure : Reason) (address : TonProofSupport.ParsedAddress) :
    Except Reason Bytes := do
  let fetch method := (E.fetchPublicKeyHex method address.original).mapError fun _ => onFailure
  match ← fetch "/getAddressInformation" with
  | some hex => parsePublicKeyHex hex
  | none =>
      match ← fetch "/getWalletInformation" with
      | some hex => parsePublicKeyHex hex
      | none => .error .publicKeyUnavailable

def resolveWalletPublicKey (parsed : TonProofSupport.ParsedProof) (credentials : AuthCredentials) :
    Except Reason Bytes :=
  match nonBlank credentials.walletPublicKey, nonBlank credentials.walletStateInit with
  | some publicKeyHex, some stateInitB64 => do
      let stateInitBoc ← decodeStateInitBoc E stateInitB64
      match ← tryParse E stateInitBoc publicKeyHex parsed.parsedAddress.hashPart with
      | some state => .ok state.publicKey
      | none => fetchWalletPublicKey E .signatureInvalid parsed.parsedAddress
  | none, none => fetchWalletPublicKey E .publicKeyUnavailable parsed.parsedAddress
  | _, _ => .error .invalidRequest

def verifySignature (parsed : TonProofSupport.ParsedProof) (credentials : AuthCredentials) :
    Except Reason Unit := do
  let publicKey ← resolveWalletPublicKey E parsed credentials
  let signatureBytes ← decodeSignature parsed.proof.signature
  if E.verifyEd25519 publicKey (buildSignedPayload E.sha256 parsed) signatureBytes then .ok ()
  else .error .signatureInvalid

/-- The verifier with these checks. The parts of an address, which a call does not keep,
are read off its credentials again. -/
def config : Config where
  nonceTtl := S.nonceTtl
  maxProofAge := S.maxProofAge
  expectedDomain := S.expectedDomain
  toLowerCase s := String.ofList (E.jdk.toLowerCase s.toList)
  parseProof credentials := do
    let parsed ← parseProof E credentials
    .ok parsed.kept
  verifySignature _ credentials := do
    let parsed ← parseProof E credentials
    verifySignature E parsed credentials

/-! ## What is shown -/

/-- The key that the state init of a wallet of a known version begins with. -/
def InitKey (stateInit : Cell) (key : Bytes) : Prop :=
  ∃ code data version, extractCodeAndData stateInit = .ok (some (code, data))
    ∧ resolveVersion E code = some version ∧ extractPublicKeyFromData data version = .ok key

/-- The key of the state init behind the address, or else the one the TON API has. -/
def KeyFor (address : TonProofSupport.ParsedAddress) (key : Bytes) : Prop :=
  (∃ stateInit, E.hash stateInit = address.hashPart ∧ InitKey E stateInit key)
    ∨ ∃ method hex, E.fetchPublicKeyHex method address.original = .ok (some hex)
      ∧ parsePublicKeyHex hex = .ok key

def Signed (parsed : TonProofSupport.ParsedProof) : Prop :=
  ∃ key signature, KeyFor E parsed.parsedAddress key
    ∧ decodeSignature parsed.proof.signature = .ok signature
    ∧ E.verifyEd25519 key (buildSignedPayload E.sha256 parsed) signature = true

/-- The proof is for this domain, and its time was in the window at some moment so far. -/
structure Timely (s : Store) (parsed : TonProofSupport.ParsedProof) : Prop where
  domain : (config E S).toLowerCase (trim parsed.proof.domain.value)
    = (config E S).toLowerCase (trim S.expectedDomain)
  recent : ∃ t ≤ s.now, parsed.proof.timestamp * 1000 ≤ t + 30000
    ∧ t ≤ parsed.proof.timestamp * 1000 + S.maxProofAge

/-- The server has drawn the nonce, and it was live at some moment so far. -/
def Drawn (s : Store) (nonce : String) : Prop :=
  ∃ drawn, s.issued nonce = some drawn ∧ ∃ t ≤ s.now, drawn ≤ t ∧ t ≤ drawn + S.nonceTtl

structure Authentic (s : Store) (parsed : TonProofSupport.ParsedProof) : Prop where
  signed : Signed E parsed
  timely : Timely E S s parsed
  drawn : Drawn S s parsed.proof.payload

variable {E S} {s s' : Store} {parsed : TonProofSupport.ParsedProof}

/-- The clock runs on and no nonce is forgotten. -/
structure Later (s s' : Store) : Prop where
  now : s.now ≤ s'.now
  issued : ∀ n t, s.issued n = some t → s'.issued n = some t

theorem Timely.mono (h : Timely E S s parsed) (hl : Later s s') : Timely E S s' parsed := by
  obtain ⟨t, ht, hwindow⟩ := h.recent
  exact ⟨h.domain, t, Nat.le_trans ht hl.now, hwindow⟩

theorem Drawn.mono {nonce : String} (h : Drawn S s nonce) (hl : Later s s') :
    Drawn S s' nonce := by
  obtain ⟨drawn, hdrawn, t, ht, hlive⟩ := h
  exact ⟨drawn, hl.issued _ _ hdrawn, t, Nat.le_trans ht hl.now, hlive⟩

theorem Authentic.mono (h : Authentic E S s parsed) (hl : Later s s') : Authentic E S s' parsed :=
  ⟨h.signed, h.timely.mono hl, h.drawn.mono hl⟩

/-! ## One check at a time -/

theorem tryParse_some {stateInitBoc hashPart : Bytes} {hex : String} {state : ParsedStateInit}
    (h : tryParse E stateInitBoc hex hashPart = .ok (some state)) :
    ∃ stateInit, E.hash stateInit = hashPart ∧ InitKey E stateInit state.publicKey := by
  simp only [tryParse, rejecting, except_bind_eq_ok] at h
  obtain ⟨-, -, stateInit, -, h⟩ := h
  split at h
  · cases h
  · rename_i hhash
    obtain ⟨refs, hrefs, h⟩ := except_bind_eq_ok.mp h
    split at h
    · cases h
    · rename_i code data
      split at h
      · cases h
      · rename_i version hversion
        simp only [except_bind_eq_ok] at h
        obtain ⟨provided, -, extracted, hextracted, h⟩ := h
        split at h
        · cases h
        · rename_i heq
          obtain rfl := Option.some.inj (Except.ok.inj h)
          rw [not_not] at hhash heq
          exact ⟨stateInit, hhash, code, data, version, mapError_eq_ok.mp hrefs, hversion,
            heq ▸ mapError_eq_ok.mp hextracted⟩

theorem fetchWalletPublicKey_ok {onFailure : Reason} {address : TonProofSupport.ParsedAddress}
    {key : Bytes} (h : fetchWalletPublicKey E onFailure address = .ok key) :
    KeyFor E address key := by
  simp only [fetchWalletPublicKey, except_bind_eq_ok, mapError_eq_ok] at h
  obtain ⟨info, hinfo, h⟩ := h
  split at h
  · exact .inr ⟨_, _, hinfo, h⟩
  · simp only [except_bind_eq_ok, mapError_eq_ok] at h
    obtain ⟨wallet, hwallet, h⟩ := h
    split at h
    · exact .inr ⟨_, _, hwallet, h⟩
    · cases h

theorem resolveWalletPublicKey_ok {credentials : AuthCredentials} {key : Bytes}
    (h : resolveWalletPublicKey E parsed credentials = .ok key) :
    KeyFor E parsed.parsedAddress key := by
  unfold resolveWalletPublicKey at h
  split at h
  · simp only [except_bind_eq_ok] at h
    obtain ⟨boc, -, state?, hstate, h⟩ := h
    split at h
    · rename_i state
      obtain rfl := Except.ok.inj h
      exact .inl (tryParse_some hstate)
    · exact fetchWalletPublicKey_ok h
  · exact fetchWalletPublicKey_ok h
  · cases h

theorem verifySignature_ok {credentials : AuthCredentials}
    (h : verifySignature E parsed credentials = .ok ()) : Signed E parsed := by
  simp only [verifySignature, except_bind_eq_ok] at h
  obtain ⟨key, hkey, signature, hsignature, h⟩ := h
  split at h
  · rename_i hverified
    exact ⟨key, signature, resolveWalletPublicKey_ok hkey, hsignature, hverified⟩
  · cases h

theorem timely_of_checks {p : TonProofSupport.ParsedProof}
    (hd : (config E S).verifyDomain p.kept = .ok ())
    (ht : (config E S).verifyTimestamp s.now p.kept = .ok ()) : Timely E S s p := by
  unfold Config.verifyDomain at hd
  unfold Config.verifyTimestamp at ht
  dsimp only at hd ht
  split at hd
  · cases hd
  · split at hd
    · cases hd
    · rename_i hdomain
      split at ht
      · cases ht
      · split at ht
        · cases ht
        · rename_i hfuture hold
          refine ⟨not_not.mp hdomain, s.now, Nat.le_refl _, Int.not_lt.mp hfuture, ?_⟩
          have hage : (s.now : Int) - p.proof.timestamp * 1000 ≤ S.maxProofAge := Int.not_lt.mp hold
          omega

/-! ## Every run -/

variable (E S) in
/-- What has been checked of a call's proof when it stands before its next command. -/
def Stage (s : Store) : Call → Prop
  | .received _ | .rejected _ => True
  | .assertNoncePresent credentials kept =>
      ∃ p, parseProof E credentials = .ok p ∧ kept = p.kept ∧ Timely E S s p
  | .verifySignature credentials kept =>
      ∃ p, parseProof E credentials = .ok p ∧ kept = p.kept ∧ Timely E S s p
        ∧ Drawn S s p.proof.payload
  | .consumeNonceAfterSuccess kept =>
      ∃ credentials p, parseProof E credentials = .ok p ∧ kept = p.kept ∧ Authentic E S s p
  | .accepted v =>
      ∃ credentials p, parseProof E credentials = .ok p ∧ v = p.verified ∧ Authentic E S s p

theorem Stage.mono {p : Call} (h : Stage E S s p) (hl : Later s s') : Stage E S s' p := by
  cases p with
  | received | rejected => trivial
  | assertNoncePresent credentials kept =>
      obtain ⟨p, hp, hkept, htimely⟩ := h
      exact ⟨p, hp, hkept, htimely.mono hl⟩
  | verifySignature credentials kept =>
      obtain ⟨p, hp, hkept, htimely, hdrawn⟩ := h
      exact ⟨p, hp, hkept, htimely.mono hl, hdrawn.mono hl⟩
  | consumeNonceAfterSuccess kept =>
      obtain ⟨credentials, p, hp, hkept, hauthentic⟩ := h
      exact ⟨credentials, p, hp, hkept, hauthentic.mono hl⟩
  | accepted v =>
      obtain ⟨credentials, p, hp, hv, hauthentic⟩ := h
      exact ⟨credentials, p, hp, hv, hauthentic.mono hl⟩

/-- A nonce that is there was drawn, and its time has not run out. -/
theorem drawn_of_has {c : Conf Store Call} (hk : (config E S).Kept c)
    (hissued : ∀ n t, c.store.issued n = some t → t ≤ c.store.now) {nonce : String}
    (h : c.store.nonces.has c.store.now nonce = true) : Drawn S c.store nonce := by
  obtain ⟨hsome, hnone⟩ := hk.stored h
  obtain ⟨drawn, hdrawn⟩ := Option.isSome_iff_exists.mp hsome
  have hstored := hk.drawn nonce drawn hdrawn
  rw [if_pos hnone] at hstored
  have hlive : c.store.now ≤ drawn + S.nonceTtl := by
    simpa [Keyspace.has, Keyspace.find?, hstored, Entry.live, config] using h
  exact ⟨drawn, hdrawn, _, Nat.le_refl _, hissued _ _ hdrawn, hlive⟩

theorem step_stage {c : Conf Store Call} {p p' : Call} (hk : (config E S).Kept c)
    (hissued : ∀ n t, c.store.issued n = some t → t ≤ c.store.now) (hp : Stage E S c.store p)
    (h : (config E S).step p c.store = some (s', p')) :
    Later c.store s' ∧ s'.issued = c.store.issued ∧ Stage E S s' p' := by
  have hrefl : Later c.store c.store := ⟨Nat.le_refl _, fun _ _ => id⟩
  cases p with
  | received credentials =>
      simp only [Config.step] at h
      split at h
      · cases h
        exact ⟨hrefl, rfl, trivial⟩
      · rename_i kept hkept
        obtain ⟨p, hparse, heq⟩ := except_bind_eq_ok.mp hkept
        obtain rfl := Except.ok.inj heq
        split at h
        · cases h
          exact ⟨hrefl, rfl, trivial⟩
        · cases h
          exact ⟨hrefl, rfl, trivial⟩
        · rename_i htimestamp hdomain
          split at h
          · cases h
            exact ⟨hrefl, rfl, trivial⟩
          · cases h
            exact ⟨hrefl, rfl, p, hparse, rfl, timely_of_checks hdomain htimestamp⟩
  | assertNoncePresent credentials kept =>
      obtain ⟨p, hparse, rfl, htimely⟩ := hp
      simp only [Config.step] at h
      split at h
      · rename_i hhas
        cases h
        exact ⟨hrefl, rfl, p, hparse, rfl, htimely, drawn_of_has hk hissued hhas⟩
      · cases h
        exact ⟨hrefl, rfl, trivial⟩
  | verifySignature credentials kept =>
      obtain ⟨p, hparse, rfl, htimely, hdrawn⟩ := hp
      simp only [Config.step] at h
      split at h
      · cases h
        exact ⟨hrefl, rfl, trivial⟩
      · rename_i hverify
        cases h
        obtain ⟨q, hq, hsigned⟩ := except_bind_eq_ok.mp hverify
        obtain rfl : p = q := Except.ok.inj (hparse.symm.trans hq)
        exact ⟨hrefl, rfl, credentials, p, hparse, rfl, verifySignature_ok hsigned, htimely, hdrawn⟩
  | consumeNonceAfterSuccess kept =>
      obtain ⟨credentials, p, hparse, rfl, hauthentic⟩ := hp
      simp only [Config.step, Option.some.injEq, Prod.mk.injEq] at h
      obtain ⟨rfl, rfl⟩ := h
      have hlater : Later c.store
          { c.store with nonces := c.store.nonces.del p.kept.proof.payload } :=
        ⟨Nat.le_refl _, fun _ _ => id⟩
      exact ⟨hlater, rfl, credentials, p, hparse, rfl, hauthentic.mono hlater⟩
  | accepted v => cases h
  | rejected r => cases h

variable (E S) in
structure Sound (c : Conf Store Call) : Prop where
  kept : (config E S).Kept c
  issued : ∀ n t, c.store.issued n = some t → t ≤ c.store.now
  stages : ∀ p ∈ c.pool, Stage E S c.store p

theorem sound_preserved : (config E S).server.Preserves (fun _ _ => True) (Sound E S) where
  start c p h hg hp := by
    refine ⟨(config E S).kept_preserved.start c p h.kept hg hp, h.issued, forall_start h.stages ?_⟩
    cases p with
    | received credentials => trivial
    | assertNoncePresent | verifySignature | consumeNonceAfterSuccess | accepted | rejected =>
        cases hp
  turn c i p s' p' h hg hi hs := by
    obtain ⟨hlater, hissued, hstage⟩ :=
      step_stage h.kept h.issued (h.stages p (List.mem_of_getElem? hi)) hs
    refine ⟨(config E S).kept_preserved.turn c i p s' p' h.kept hg hi hs, fun n t hn => ?_,
      forall_turn (fun q hq => (h.stages q hq).mono hlater) hstage⟩
    rw [hissued] at hn
    exact Nat.le_trans (h.issued n t hn) hlater.now
  env c e s' h hg hs := by
    have hnext : Later c.store s' ∧ ∀ n t, s'.issued n = some t → t ≤ s'.now := by
      cases e with
      | tick ms =>
          obtain rfl := Option.some.inj hs
          exact ⟨⟨Nat.le_add_right .., fun _ _ => id⟩,
            fun n t hn => Nat.le_trans (h.issued n t hn) (Nat.le_add_right ..)⟩
      | issueNonce m =>
          simp only [Config.server, Config.move] at hs
          split at hs
          · cases hs
          · rename_i hfresh
            obtain rfl := Option.some.inj hs
            refine ⟨⟨Nat.le_refl _, fun n t hn => ?_⟩, fun n t hn => ?_⟩
            · have hne : n ≠ m := by
                rintro rfl
                simp [hn] at hfresh
              rw [← hn]
              exact Function.update_of_ne hne _ _
            · by_cases hne : n = m
              · subst hne
                simp only [Function.update_self, Option.some.injEq] at hn
                exact Nat.le_of_eq hn.symm
              · simp only [Function.update_of_ne hne] at hn
                exact h.issued n t hn
    exact ⟨(config E S).kept_preserved.env c e s' h.kept hg hs, hnext.2,
      fun p hp => (h.stages p hp).mono hnext.1⟩

theorem sound_init (now : Nat) : Sound E S (init now) where
  kept := (config E S).kept_init now
  issued _ _ hn := by cases hn
  stages _ hp := absurd hp List.not_mem_nil

/-- A number in `w` bytes, the highest first. -/
def sampleBytes (w n : Nat) : Bytes := (littleEndian w n).reverse

def sampleAddress : String :=
  "0:1111111111111111111111111111111111111111111111111111111111111111"

def sampleKey : Bytes :=
  sampleBytes 32 0xd75a980182b10ab7d54bfed3c964073a0ee172f3daa62325af021a68f707511a

def sampleKeyHex : String := "d75a980182b10ab7d54bfed3c964073a0ee172f3daa62325af021a68f707511a"

/-- The digests of the two messages of the proof below. -/
def sampleDigest : Bytes :=
  sampleBytes 32 0xe9c3469d2369038daf15a75bfa3f3aa5fffdbe09a6b756378db5d3acafa62790

def samplePayload : Bytes :=
  sampleBytes 32 0xb55d8d1a6ed5816abd6fdcd933e8679ea8798a17ab36e7f17b6fd5d3cdf6827d

def sampleSignature : String :=
  "/iQMO48Scykfc0MqG2CKLBSwRFjRyUnzRb9LlJ40wZv3WPB8uY+Jjk2T18teDYPUrN89Ofr2FE0BQefEnRLSBA=="

def sampleSignatureBytes : Bytes :=
  sampleBytes 32 0xfe240c3b8f1273291f73432a1b608a2c14b04458d1c949f345bf4b949e34c19b
    ++ sampleBytes 32 0xf758f07cb98f898e4d93d7cb5e0d83d4acdf3d39faf6144d0141e7c49d12d204

/-- A proof at second 100 with a given nonce. -/
def sampleProof (nonce : String) : JsonNode :=
  let text s := JsonNode.value s 0 0
  .object [("timestamp", .value "100" 100 100),
    ("domain", .object [("value", text "burnedchats.net"), ("lengthBytes", .value "15" 15 15)]),
    ("signature", text sampleSignature), ("payload", text nonce)]

/-- A JSON text stands for the nonce of its proof. The hash functions and the signature
are known where they are asked for: on the proof with nonce `4f2c`. -/
def sampleExternals : Externals where
  jdk := latin
  readTree nonce := some (sampleProof nonce)
  base64ToBytes _ := none
  fromBoc _ := none
  hash _ := []
  sha256 m := if m.drop 13 = sampleDigest then samplePayload else sampleDigest
  verifyEd25519 key message signature :=
    key == sampleKey && message == samplePayload && signature == sampleSignatureBytes
  fetchPublicKeyHex method address :=
    .ok (if method = "/getAddressInformation" ∧ address = sampleAddress then some sampleKeyHex
      else none)

def sampleSettings : Settings := ⟨300000, 300000, "burnedchats.net"⟩

def sampleCredentials (nonce : String) : AuthCredentials :=
  ⟨some nonce, some sampleAddress, none, none⟩

def sampleVerified : VerifiedTonProof := ⟨sampleAddress, "4f2c", 100⟩

def isAccepted (v : VerifiedTonProof) : Call → Bool
  | .accepted v' => v' == v
  | _ => false

def signIn : List (Action Call Move) :=
  [.env (.issueNonce "4f2c"), .start (.received (sampleCredentials "4f2c")), .turn 0, .turn 0,
    .env (.tick 7), .turn 0, .turn 0]

theorem orThrow_eq_ok {α : Type} {e : String} {x : Option α} {a : α} :
    orThrow e x = .ok a ↔ x = some a := by
  cases x with
  | none => simp [orThrow]
  | some b => simp [orThrow]

/-- The workchain of a parsed address fits into the four bytes of the message, and its hash
has its length. -/
theorem parseAddress_fits {jdk : Jdk} {address : String} {a : TonProofSupport.ParsedAddress}
    (h : TonProofSupport.parseAddress jdk address = .ok a) :
    a.hashPart.length = 32 ∧ -2 ^ 31 ≤ a.workchain ∧ a.workchain < 2 ^ 31
      ∧ a.canonicalRaw = TonAddressBoc.rawText a.workchain a.hashPart := by
  simp only [TonProofSupport.parseAddress] at h
  split at h
  · simp only [TonProofSupport.parseRawAddress, bind_eq_ok, orThrow_eq_ok, require_eq_ok,
      exists_const] at h
    obtain ⟨workchain, hworkchain, hash, -, hlen, h⟩ := h
    obtain rfl := Except.ok.inj h
    obtain ⟨-, hrange⟩ := Option.filter_eq_some_iff.mp hworkchain
    exact ⟨hlen, (decide_eq_true_eq.mp hrange).1, (decide_eq_true_eq.mp hrange).2, rfl⟩
  · simp only [TonProofSupport.parseFriendlyAddress, bind_eq_ok, require_eq_ok, exists_const] at h
    obtain ⟨friendly, -, hlen, -, h⟩ := h
    have hle : -128 ≤ (((friendly.take 34).getD 1 0).toNat : Int).bmod 256 :=
      Int.le_bmod (by decide)
    have hlt : (((friendly.take 34).getD 1 0).toNat : Int).bmod 256 < 128 :=
      Int.bmod_lt (by decide)
    generalize (((friendly.take 34).getD 1 0).toNat : Int).bmod 256 = workchain at h hle hlt
    obtain rfl := Except.ok.inj h
    dsimp only
    exact ⟨by simp [hlen], by omega, by omega, rfl⟩

theorem longOrThrow_fits {node : JsonNode} {field : String} {x : Int}
    (h : longOrThrow node field = .ok x) : -2 ^ 63 ≤ x ∧ x < 2 ^ 63 := by
  unfold longOrThrow at h
  split at h
  · cases h
  · split at h
    · cases h
    · obtain rfl := Except.ok.inj h
      exact ⟨Int64.le_toInt _, Int64.toInt_lt _⟩

/-- What the signed message says of a proof fits into its fields. -/
structure Fits (p : TonProofSupport.ParsedProof) : Prop where
  hash : p.parsedAddress.hashPart.length = 32
  workchain : -2 ^ 31 ≤ p.parsedAddress.workchain ∧ p.parsedAddress.workchain < 2 ^ 31
  timestamp : -2 ^ 63 ≤ p.proof.timestamp ∧ p.proof.timestamp < 2 ^ 63
  canonicalRaw : p.parsedAddress.canonicalRaw
    = TonAddressBoc.rawText p.parsedAddress.workchain p.parsedAddress.hashPart

theorem parseProof_fits {credentials : AuthCredentials} {p : TonProofSupport.ParsedProof}
    (h : parseProof E credentials = .ok p) : Fits p := by
  simp only [parseProof, rejecting, except_bind_eq_ok, mapError_eq_ok] at h
  obtain ⟨-, -, root, -, address, -, timestamp, htimestamp, value, -, signature, -, payload, -,
    parsedAddress, haddress, h⟩ := h
  obtain rfl := Except.ok.inj h
  obtain ⟨hhash, hle, hlt, hraw⟩ := parseAddress_fits haddress
  exact ⟨hhash, ⟨hle, hlt⟩, longOrThrow_fits htimestamp, hraw⟩

theorem utf8_inj {s t : String} (h : utf8 s = utf8 t) : s = t := by
  have hdata := Array.toList_inj.mp h
  exact String.toByteArray_inj.mp (ByteArray.ext hdata)

/-- The fields are read off the message. -/
theorem signedMessage_inj {p q : TonProofSupport.ParsedProof} (hp : Fits p) (hq : Fits q)
    (hdp : (utf8 p.proof.domain.value).length < 2 ^ 31)
    (hdq : (utf8 q.proof.domain.value).length < 2 ^ 31) (h : signedMessage p = signedMessage q) :
    p.verified = q.verified ∧ p.proof.domain.value = q.proof.domain.value := by
  simp only [signedMessage, List.append_cancel_left_eq] at h
  obtain ⟨hworkchain, h⟩ := List.append_inj h (by simp)
  obtain ⟨hhash, h⟩ := List.append_inj h (hp.hash.trans hq.hash.symm)
  obtain ⟨hdomain, h⟩ := Framing.prefixed_inj (w := 4) (by omega) (by omega) h
  obtain ⟨htimestamp, hpayload⟩ := List.append_inj h (by simp)
  have hwc : p.parsedAddress.workchain = q.parsedAddress.workchain :=
    Framing.twos_inj (w := 4) (by have := hp.workchain; omega) (by have := hq.workchain; omega)
      (Framing.littleEndian_inj (Framing.twos_lt _ _) (Framing.twos_lt _ _)
        (List.reverse_injective hworkchain))
  have hts : p.proof.timestamp = q.proof.timestamp :=
    Framing.twos_inj (w := 8) (by have := hp.timestamp; omega) (by have := hq.timestamp; omega)
      (Framing.littleEndian_inj (Framing.twos_lt _ _) (Framing.twos_lt _ _) htimestamp)
  refine ⟨?_, utf8_inj hdomain⟩
  rw [TonProofSupport.ParsedProof.verified, TonProofSupport.ParsedProof.verified, hp.canonicalRaw,
    hq.canonicalRaw, hwc, hhash, hts, utf8_inj hpayload]

end TonProofVerifier

/-! ## Wallets of known versions -/

namespace WalletStateInitParser

open TonProofVerifier (sampleBytes sampleKey sampleKeyHex sampleExternals)

/-- A wallet's data: a sequence number, an id, the key, and more. The fifth version begins
with a flag. -/
def walletData (version : WalletVersion) (flag : Bool) (seqno walletId : Nat) (key : Bytes)
    (rest : Slice) : Cell :=
  let fields := natToBits 32 seqno ++ (natToBits 32 walletId ++ (byteBits key ++ rest.bits))
  match version with
  | .V5 => .mk (flag :: fields) rest.refs
  | _ => .mk fields rest.refs

/-- Code and data, and nothing else. -/
def stateInitOf (code data : Cell) : Cell := .mk [false, false, true, true, false] [code, data]

theorem extractCodeAndData_stateInitOf (code data : Cell) :
    extractCodeAndData (stateInitOf code data) = .ok (some (code, data)) := rfl

variable {E : Externals} {key : Bytes}

theorem packBytes_byteBits (bytes : Bytes) : packBytes (byteBits bytes) = bytes := by
  have h := Encoding.packBytes_append bytes []
  rwa [List.append_nil, Encoding.packBytes_nil, List.append_nil] at h

theorem extractPublicKeyFromData_walletData (version : WalletVersion) (flag : Bool)
    {seqno walletId : Nat} (hseqno : seqno < 2 ^ 32) (hid : walletId < 2 ^ 32)
    (hkey : key.length = 32) (rest : Slice) :
    extractPublicKeyFromData (walletData version flag seqno walletId key rest) version
      = .ok key := by
  have hbits : (byteBits key).length = 256 := by rw [TonAddressBoc.byteBits_length, hkey]
  have hload : ∀ r : List Cell, (Slice.mk (byteBits key ++ rest.bits) r).loadBits 256
      = .ok (byteBits key, ⟨rest.bits, r⟩) := by
    intro r
    rw [← hbits]
    exact Slice.loadBits_append _ _ _
  cases version <;>
    simp only [extractPublicKeyFromData, walletData, Cell.beginParse, Cell.bits, Cell.refs,
      Slice.loadBit_cons, Slice.loadUint_append hseqno, Slice.loadUint_append hid, hload, ok_bind,
      packBytes_byteBits]

/-- The state init of a wallet of a known version is accepted with the wallet's own key and
with no other. -/
theorem known_wallet_key {code : Cell} {version : WalletVersion} {flag : Bool}
    {seqno walletId : Nat} {rest : Slice} {boc hashPart : Bytes} {hex : String} {claimed : Bytes}
    (hversion : resolveVersion E code = some version) (hseqno : seqno < 2 ^ 32)
    (hid : walletId < 2 ^ 32) (hkey : key.length = 32) (hne : boc ≠ [])
    (hboc : E.fromBoc boc
      = some (stateInitOf code (walletData version flag seqno walletId key rest)))
    (hhash : E.hash (stateInitOf code (walletData version flag seqno walletId key rest)) = hashPart)
    (hlen : hashPart.length = 32) (hblank : isBlank hex = false)
    (hhex : parsePublicKeyHex hex = .ok claimed) :
    tryParse E boc hex hashPart
      = if claimed = key then .ok (some ⟨key, version, E.hash code⟩)
        else .error .signatureInvalid := by
  have hvalid : validateInputs boc hex hashPart = .ok () := by
    simp [validateInputs, hne, hblank, hlen]
  have hdata := extractPublicKeyFromData_walletData version flag hseqno hid hkey rest
  simp only [tryParse, hvalid, hboc, orReject, rejecting, extractCodeAndData_stateInitOf,
    Except.mapError, hversion, hhex, hdata, except_ok_bind, hhash, ne_eq, not_true_eq_false,
    if_false]
  by_cases heq : claimed = key
  · subst heq
    simp only [not_true_eq_false, if_false, if_true]
  · simp only [heq, not_false_eq_true, if_true, if_false]

/-- The code of the third version, one cell. -/
def sampleCodeBytes : Bytes :=
  sampleBytes 37 0xff0020dd2082014c97ba218201339cbab19f71b0ed44d0d31fd31f31d70bffe304e0a4f260
    ++ sampleBytes 37 0x8308d71820d31fd31fd31ff82313bbf263ed44d0d31fd31fd3ffd15132baf2a15144baf2a2
    ++ sampleBytes 37 0x04f901541055f910f2a3f8009320d74a96d307d402fb00e8d101a4c8cb1fcb1fcbffc9ed54

def sampleCode : Cell := .mk (byteBits sampleCodeBytes) []

def sampleCodeHash : Bytes :=
  sampleBytes 32 0x84dafa449f98a6987789ba232358072bc0f76dc4524002a5d0918b9a75d2d599

def sampleInit : Cell :=
  stateInitOf sampleCode (walletData .V3R2 false 0 698983191 sampleKey .empty)

def sampleInitHash : Bytes :=
  sampleBytes 32 0x7757577dde60fabf8a96a113e7966d14ad8a5c1d9cf69420ffd74bbce0d1d6b9

def sampleBoc : Bytes :=
  sampleBytes 18 0xb5ee9c720101030100a000020134010200de ++ sampleCodeBytes
    ++ sampleBytes 10 0x00500000000029a9a317 ++ sampleKey

/-- The hashes of this state init and of its code. -/
def walletExternals : Externals :=
  { sampleExternals with
    fromBoc boc := if boc = sampleBoc then some sampleInit else none
    hash c := if c.refs.isEmpty then sampleCodeHash else sampleInitHash }

theorem known_wallet_key_sample :
    tryParse walletExternals sampleBoc sampleKeyHex sampleInitHash
      = .ok (some ⟨sampleKey, .V3R2, sampleCodeHash⟩) := by
  have hversion : resolveVersion walletExternals sampleCode = some .V3R2 := by decide +kernel
  have hkey : sampleKey.length = 32 := by decide +kernel
  have hne : sampleBoc ≠ [] := by decide +kernel
  have hboc : walletExternals.fromBoc sampleBoc = some (stateInitOf sampleCode
      (walletData .V3R2 false 0 698983191 sampleKey .empty)) := by
    simp only [walletExternals, if_true]
    rfl
  have hhash : walletExternals.hash (stateInitOf sampleCode
      (walletData .V3R2 false 0 698983191 sampleKey .empty)) = sampleInitHash := rfl
  have hseqno : 0 < 2 ^ 32 := by decide
  have hid : 698983191 < 2 ^ 32 := by decide
  have hlen : sampleInitHash.length = 32 := by decide +kernel
  have hblank : isBlank sampleKeyHex = false := by decide +kernel
  have hhex : (parsePublicKeyHex sampleKeyHex).toOption = some sampleKey := by
    decide +kernel
  cases hclaimed : parsePublicKeyHex sampleKeyHex with
  | error r =>
      rw [hclaimed] at hhex
      cases hhex
  | ok claimed =>
      rw [hclaimed] at hhex
      obtain rfl : claimed = sampleKey := Option.some.inj hhex
      have h := known_wallet_key hversion hseqno hid hkey hne hboc hhash hlen hblank hclaimed
      rw [if_pos rfl] at h
      exact h

end WalletStateInitParser

end BurnedChats

import BurnedChats.Backend.Sessions
import BurnedChats.Backend.TonAddress
import BurnedChats.Lib.Decimal
import BurnedChats.Lib.Program
import BurnedChats.Lib.Table

/-!
# The session repository

`SessionRepository` keeps a session as the hash `session:{id}`, every field a text.
`save` writes the fields that the session has into whatever hash is stored there
(`HSET` merges), `findById` parses the hash back, and the other operations write
single fields. The two scans over all sessions only read; they are left out.

A field that the saved session holds as null is not written, so the stored one stays:
`Config.merged` is what a read gives after a save, field by field
(`Config.saveAndFind_run`).
-/

namespace BurnedChats

open Interleave Program
open Sessions (SessionStatus)

namespace SessionRepository

/-! ## The platform -/

/-- The zeros of the scripts' digits in the basic plane. -/
def zeros : List Nat :=
  [0x30, 0x660, 0x6F0, 0x7C0, 0x966, 0x9E6, 0xA66, 0xAE6, 0xB66, 0xBE6, 0xC66, 0xCE6, 0xD66,
    0xDE6, 0xE50, 0xED0, 0xF20, 0x1040, 0x1090, 0x17E0, 0x1810, 0x1946, 0x19D0, 0x1A80, 0x1A90,
    0x1B50, 0x1BB0, 0x1C40, 0x1C50, 0xA620, 0xA8D0, 0xA900, 0xA9D0, 0xA9F0, 0xAA50, 0xABF0,
    0xFF10]

/-- `Character.digit(c, 10)`. -/
def digit (c : Char) : Option Nat :=
  (zeros.find? fun z => z ≤ c.toNat && c.toNat < z + 10).map (c.toNat - ·)

/-- `Long.parseLong`. -/
def parseLong (value : String) : Option Int64 :=
  ((Decimal.signed digit value.toList).filter fun n => -2 ^ 63 ≤ n ∧ n < 2 ^ 63).map Int64.ofInt

/-- `Integer.parseInt`. -/
def parseInt (value : String) : Option Int32 :=
  ((Decimal.signed digit value.toList).filter fun n => -2 ^ 31 ≤ n ∧ n < 2 ^ 31).map Int32.ofInt

theorem digit_reads : Decimal.Reads digit := by
  intro c hc
  have hc' : 48 ≤ c.toNat ∧ c.toNat ≤ 57 := by
    simpa [Char.isDigit, UInt32.le_iff_toNat_le] using hc
  have hfind : zeros.find? (fun z => z ≤ c.toNat && c.toNat < z + 10) = some 0x30 := by
    refine List.find?_cons_of_pos ?_
    simp only [Bool.and_eq_true, decide_eq_true_eq]
    omega
  rw [digit, hfind]
  rfl

theorem parseLong_toString (n : Int64) : parseLong (toString n) = some n := by
  have hread : Decimal.signed digit (toString n).toList = some n.toInt :=
    Decimal.signed_toString digit_reads n.toInt
  rw [parseLong, hread, Option.filter_some, if_pos (by simpa using ⟨n.le_toInt, n.toInt_lt⟩),
    Option.map_some, Int64.ofInt_toInt]

theorem parseInt_toString (n : Int32) : parseInt (toString n) = some n := by
  have hread : Decimal.signed digit (toString n).toList = some n.toInt :=
    Decimal.signed_toString digit_reads n.toInt
  rw [parseInt, hread, Option.filter_some, if_pos (by simpa using ⟨n.le_toInt, n.toInt_lt⟩),
    Option.map_some, Int32.ofInt_toInt]

/-- `java.time.Instant`. -/
@[ext]
structure Instant where
  epochSecond : Int
  nano : Nat
  epochSecond_range : -31557014167219200 ≤ epochSecond ∧ epochSecond ≤ 31556889864403199
  nano_lt : nano < 1000000000
deriving DecidableEq

namespace Instant

def ofEpochMilli (ms : Int64) : Instant where
  epochSecond := ms.toInt / 1000
  nano := (ms.toInt % 1000).toNat * 1000000
  epochSecond_range := by
    have hle := ms.le_toInt
    have hlt := ms.toInt_lt
    omega
  nano_lt := by omega

/-- It fails where the milliseconds do not fit. -/
def toEpochMilli (i : Instant) : Option Int64 :=
  let ms := i.epochSecond * 1000 + i.nano / 1000000
  if -2 ^ 63 ≤ ms ∧ ms < 2 ^ 63 then some (.ofInt ms) else none

/-- Nothing below the milliseconds. -/
def IsMillis (i : Instant) : Prop := i.nano % 1000000 = 0

theorem ofEpochMilli_of_toEpochMilli {i : Instant} {ms : Int64} (h : i.IsMillis)
    (hms : i.toEpochMilli = some ms) : ofEpochMilli ms = i := by
  unfold IsMillis at h
  have hnano := i.nano_lt
  simp only [toEpochMilli] at hms
  split at hms
  · rename_i hfits
    obtain rfl := Option.some.inj hms
    have hval := Int64.toInt_ofInt_of_le hfits.1 hfits.2
    ext
    · simp only [ofEpochMilli, hval]
      omega
    · simp only [ofEpochMilli, hval]
      omega
  · cases hms

end Instant

/-! ## The record and the hash -/

/-- `SessionStatus.name()`. -/
def statusName : SessionStatus → String
  | .pending => "PENDING"
  | .handshake => "HANDSHAKE"
  | .active => "ACTIVE"
  | .burned => "BURNED"
  | .expired => "EXPIRED"

/-- `SessionStatus.valueOf`. -/
def statusOf (value : String) : Option SessionStatus :=
  [.pending, .handshake, .active, .burned, .expired].find? fun status => statusName status == value

/-- `Session`; what Java may hold as null is an option. -/
@[ext]
structure Session where
  id : Option String
  initiatorInternalId : Option String
  initiatorTelegramId : Option Int64
  responderInternalId : Option String
  responderTelegramId : Option Int64
  status : Option SessionStatus
  createdAt : Option Instant
  lastActivityAt : Option Instant
  handshakeCompletedAt : Option Instant
  initiatorVerified : Bool
  responderVerified : Bool
  secretQuestion : Option String
  secretAnswerHash : Option String
  initiatorPublicKey : Option String
  responderPublicKey : Option String
  messageTtl : Int32
deriving DecidableEq

/-- The fields of the hash; `initiatorId` and `responderId` are the old names of the
Telegram ids. -/
inductive Field where
  | id
  | initiatorInternalId | initiatorTelegramId | initiatorId
  | responderInternalId | responderTelegramId | responderId
  | status | createdAt | lastActivityAt | handshakeCompletedAt
  | initiatorVerified | responderVerified
  | secretQuestion | secretAnswerHash
  | initiatorPublicKey | responderPublicKey
  | messageTtl
deriving DecidableEq

abbrev Hash := Table Field String

/-- `pendingTtl` and `activeTtl` are in milliseconds; `forTelegramId` is the name-based
identifier of a Telegram user. -/
structure Config where
  pendingTtl : Int
  activeTtl : Int
  forTelegramId : Int64 → String

/-! ### Parsing -/

def parseLongOrNull (value : Option String) : Option Int64 :=
  match value with
  | none => none
  | some value => if value.isEmpty then none else parseLong value

def parseInstantOrNull (value : Option String) : Option Instant :=
  match value with
  | none => none
  | some value => if value.isEmpty then none else (parseLong value).map Instant.ofEpochMilli

def parseInstantOrNow (now : Instant) (value : Option String) : Instant :=
  (parseInstantOrNull value).getD now

def parseIntOrDefault (value : Option String) (defaultValue : Int32) : Int32 :=
  match value with
  | none => defaultValue
  | some value => if isBlank value then defaultValue else (parseInt value).getD defaultValue

def parseStatus (value : Option String) : SessionStatus :=
  match value with
  | none => .pending
  | some value => if value.isEmpty then .pending else (statusOf value).getD .pending

/-- `Boolean.parseBoolean`. -/
def parseBoolean (value : Option String) : Bool :=
  value.any fun value => value.toList.map Char.toLower == "true".toList

/-- A Telegram id under its name, else under its old name. -/
def telegramId (hash : Hash) (field old : Field) : Option Int64 :=
  (parseLongOrNull (hash.lookup field)).or (parseLongOrNull (hash.lookup old))

namespace Config

variable (cfg : Config)

/-- A missing or blank internal id comes from the Telegram id. -/
def internalId (internalId : Option String) (telegramId : Option Int64) : Option String :=
  match telegramId with
  | none => internalId
  | some t => if internalId.all isBlank then some (cfg.forTelegramId t) else internalId

def mapToSession (now : Instant) (hash : Hash) : Session where
  id := hash.lookup .id
  initiatorInternalId := cfg.internalId (hash.lookup .initiatorInternalId)
    (telegramId hash .initiatorTelegramId .initiatorId)
  initiatorTelegramId := telegramId hash .initiatorTelegramId .initiatorId
  responderInternalId := cfg.internalId (hash.lookup .responderInternalId)
    (telegramId hash .responderTelegramId .responderId)
  responderTelegramId := telegramId hash .responderTelegramId .responderId
  status := some (parseStatus (hash.lookup .status))
  createdAt := some (parseInstantOrNow now (hash.lookup .createdAt))
  lastActivityAt := some (parseInstantOrNow now (hash.lookup .lastActivityAt))
  handshakeCompletedAt := parseInstantOrNull (hash.lookup .handshakeCompletedAt)
  initiatorVerified := parseBoolean (hash.lookup .initiatorVerified)
  responderVerified := parseBoolean (hash.lookup .responderVerified)
  secretQuestion := hash.lookup .secretQuestion
  secretAnswerHash := hash.lookup .secretAnswerHash
  initiatorPublicKey := hash.lookup .initiatorPublicKey
  responderPublicKey := hash.lookup .responderPublicKey
  messageTtl := parseIntOrDefault (hash.lookup .messageTtl) 0

def ttlFor (session : Session) : Int :=
  if session.status = some .pending then cfg.pendingTtl else cfg.activeTtl

end Config

/-! ### Rendering -/

/-- `map.put`, of a value that is not null. -/
def putSome (map : Hash) (field : Field) : Option String → Hash
  | none => map
  | some value => map.insert field value

def nonNull {α : Type} (value : Option α) : Except String α := orThrow "NullPointerException" value

/-- `String.valueOf(instant.toEpochMilli())`. -/
def millisText (instant : Instant) : Except String String :=
  orThrow "ArithmeticException" (instant.toEpochMilli.map toString)

/-- A null id is found out by `putAll`, before the command is sent. -/
def sessionToMap (session : Session) : Except String Hash := do
  let id ← nonNull session.id
  let status ← nonNull session.status
  let createdAt ← nonNull session.createdAt >>= millisText
  let lastActivityAt ← nonNull session.lastActivityAt >>= millisText
  let handshakeCompletedAt ← session.handshakeCompletedAt.mapM millisText
  let map := putSome ∅ .id (some id)
  let map := putSome map .initiatorInternalId session.initiatorInternalId
  let map := putSome map .initiatorTelegramId (session.initiatorTelegramId.map toString)
  let map := putSome map .initiatorId (session.initiatorTelegramId.map toString)
  let map := putSome map .responderInternalId session.responderInternalId
  let map := putSome map .responderTelegramId (session.responderTelegramId.map toString)
  let map := putSome map .responderId (session.responderTelegramId.map toString)
  let map := putSome map .status (some (statusName status))
  let map := putSome map .createdAt (some createdAt)
  let map := putSome map .lastActivityAt (some lastActivityAt)
  let map := putSome map .handshakeCompletedAt handshakeCompletedAt
  let map := putSome map .initiatorVerified (some (toString session.initiatorVerified))
  let map := putSome map .responderVerified (some (toString session.responderVerified))
  let map := putSome map .secretQuestion session.secretQuestion
  let map := putSome map .secretAnswerHash session.secretAnswerHash
  let map := putSome map .initiatorPublicKey session.initiatorPublicKey
  let map := putSome map .responderPublicKey session.responderPublicKey
  return putSome map .messageTtl (some (toString session.messageTtl))

/-! ## The store -/

/-- The clock is in milliseconds, within a `long`. -/
structure Store where
  now : Nat
  now_lt : now < 2 ^ 63
  keys : Keyspace String Hash

namespace Store

/-- What a command finds under a key. -/
def hash? (s : Store) (key : String) : Option Hash := s.keys.get? s.now key

/-- `Instant.now().toEpochMilli()`. -/
def millis (s : Store) : Int64 := .ofInt s.now

def instant (s : Store) : Instant := .ofEpochMilli s.millis

end Store

inductive Command where
  | hset (key : String) (fields : Hash)
  | hdel (key : String) (fields : List Field)
  | expire (key : String) (ttl : Int)
  | del (key : String)

/-- A hash that loses its last field is gone, and so is a key that is given no time to
live. -/
def exec (c : Command) (s : Store) : Store :=
  match c with
  | .hset key fields =>
      { s with keys := s.keys.alter s.now key fun hash => fields ∪ hash.getD ∅ }
  | .hdel key fields =>
      match s.hash? key with
      | none => s
      | some hash =>
          let rest := fields.foldl (fun hash field => hash.erase field) hash
          { s with keys :=
              if rest.entries = [] then s.keys.del key
              else s.keys.alter s.now key fun _ => rest }
  | .expire key ttl =>
      { s with keys :=
          if ttl ≤ 0 then s.keys.del key else s.keys.expire s.now ttl.toNat key }
  | .del key => { s with keys := s.keys.del key }

/-! ## Operations -/

def keyFor (sessionId : String) : String := "session:" ++ sessionId

/-- `HSET` of one field; it tells whether the field is new. -/
def put (key : String) (field : Field) (value : String) : Program Store Command Bool :=
  call (.hset key (putSome ∅ field (some value))) fun s =>
    ((s.hash? key).bind fun hash => hash.lookup field).isNone

def existsById (sessionId : String) : Program Store Command Bool :=
  ask fun s => (s.hash? (keyFor sessionId)).isSome

def updateMessageTtl (sessionId : String) (messageTtlSeconds : Int32) :
    Program Store Command Bool :=
  if messageTtlSeconds < 0 || 86400 < messageTtlSeconds then .fail "INVALID_MESSAGE_TTL"
  else do
    let _ ← put (keyFor sessionId) .messageTtl (toString messageTtlSeconds)
    return true

def updateLastActivity (sessionId : String) : Program Store Command Bool := do
  let now ← ask Store.millis
  put (keyFor sessionId) .lastActivityAt (toString now)

def updateStatus (sessionId : String) (status : SessionStatus) : Program Store Command Bool := do
  let _ ← put (keyFor sessionId) .status (statusName status)
  updateLastActivity sessionId

def clearPublicKeysAndSetActive (sessionId : String) : Program Store Command Bool := do
  let now ← ask Store.millis
  write (.hdel (keyFor sessionId) [.initiatorPublicKey, .responderPublicKey])
  let _ ← put (keyFor sessionId) .status (statusName .active)
  let _ ← put (keyFor sessionId) .handshakeCompletedAt (toString now)
  put (keyFor sessionId) .lastActivityAt (toString now)

def setHandshakeCompleted (sessionId : String) : Program Store Command Bool := do
  let now ← ask Store.millis
  let _ ← put (keyFor sessionId) .handshakeCompletedAt (toString now)
  updateStatus sessionId .active

/-- The number of keys that were there. -/
def delete (sessionId : String) : Program Store Command Nat :=
  call (.del (keyFor sessionId)) fun s => (s.hash? (keyFor sessionId)).isSome.toNat

/-- `EXPIRE`; it tells whether the key is there. -/
def expire (key : String) (ttl : Int) : Program Store Command Bool :=
  call (.expire key ttl) fun s => (s.hash? key).isSome

namespace Config

variable (cfg : Config)

def findById (sessionId : String) : Program Store Command (Option Session) :=
  ask fun s => ((s.hash? (keyFor sessionId)).filter (!·.entries.isEmpty)).map
    (cfg.mapToSession s.instant)

def save (session : Session) : Program Store Command Bool :=
  match sessionToMap session with
  | .error error => .fail error
  | .ok hash => do
      let key := keyFor (session.id.getD "null")
      write (.hset key hash)
      expire key (cfg.ttlFor session)

/-- The part of `setPublicKeyAtomic` that a participant gets to. -/
def storePublicKey (sessionId : String) (field : Field) (publicKey : String) :
    Program Store Command (Option Session) := do
  let now ← ask Store.millis
  let _ ← put (keyFor sessionId) field publicKey
  let _ ← put (keyFor sessionId) .lastActivityAt (toString now)
  cfg.findById sessionId

def setPublicKeyAtomic (sessionId userId publicKey : String) :
    Program Store Command (Option Session) := do
  match ← cfg.findById sessionId with
  | none => return none
  | some session =>
      if session.initiatorInternalId = some userId then
        cfg.storePublicKey sessionId .initiatorPublicKey publicKey
      else if session.responderInternalId = some userId then
        cfg.storePublicKey sessionId .responderPublicKey publicKey
      else return none

def updateVerification (sessionId userId : String) (verified : Bool) :
    Program Store Command Bool := do
  match ← cfg.findById sessionId with
  | none => return false
  | some session =>
      let field :=
        if session.initiatorInternalId = some userId then Field.initiatorVerified
        else .responderVerified
      let _ ← put (keyFor sessionId) field (toString verified)
      return true

def refreshTtl (sessionId : String) : Program Store Command Bool :=
  expire (keyFor sessionId) cfg.activeTtl

end Config

/-- Those of a Telegram id are these at the id's internal one. -/
inductive Op where
  | findById (sessionId : String)
  | save (session : Session)
  | updateStatus (sessionId : String) (status : SessionStatus)
  | updateMessageTtl (sessionId : String) (messageTtlSeconds : Int32)
  | updateLastActivity (sessionId : String)
  | setPublicKeyAtomic (sessionId userId publicKey : String)
  | clearPublicKeysAndSetActive (sessionId : String)
  | updateVerification (sessionId userId : String) (verified : Bool)
  | setHandshakeCompleted (sessionId : String)
  | delete (sessionId : String)
  | existsById (sessionId : String)
  | refreshTtl (sessionId : String)

inductive Reply where
  | session (session : Option Session)
  | flag (value : Bool)
  | count (keys : Nat)

def Config.program (cfg : Config) : Op → Program Store Command Reply
  | .findById id => do return .session (← cfg.findById id)
  | .save session => do return .flag (← cfg.save session)
  | .updateStatus id status => do return .flag (← updateStatus id status)
  | .updateMessageTtl id seconds => do return .flag (← updateMessageTtl id seconds)
  | .updateLastActivity id => do return .flag (← updateLastActivity id)
  | .setPublicKeyAtomic id user key => do return .session (← cfg.setPublicKeyAtomic id user key)
  | .clearPublicKeysAndSetActive id => do return .flag (← clearPublicKeysAndSetActive id)
  | .updateVerification id user verified => do
      return .flag (← cfg.updateVerification id user verified)
  | .setHandshakeCompleted id => do return .flag (← setHandshakeCompleted id)
  | .delete id => do return .count (← delete id)
  | .existsById id => do return .flag (← existsById id)
  | .refreshTtl id => do return .flag (← cfg.refreshTtl id)

/-- Time passes while requests run; keys run out of their time to live by themselves. -/
def tick (ms : Nat) (s : Store) : Option Store :=
  if h : s.now + ms < 2 ^ 63 then some { s with now := s.now + ms, now_lt := h } else none

def Config.server (cfg : Config) : Server Store (Call Op Store Command Reply) Nat :=
  Call.server exec cfg.program tick

/-! ## A save and a read -/

section Parsing

theorem toString_ne_empty (z : Int) : (toString z).isEmpty = false := by
  obtain ⟨c, hc, -⟩ := Decimal.exists_digit z
  rw [Bool.eq_false_iff]
  intro h
  rw [String.isEmpty_iff] at h
  rw [h] at hc
  cases hc

theorem isBlank_toString (z : Int) : isBlank (toString z) = false := by
  obtain ⟨c, hc, hdigit⟩ := Decimal.exists_digit z
  rw [Bool.eq_false_iff]
  intro h
  have hblank := List.all_eq_true.mp h c hc
  have hrange : 48 ≤ c.toNat ∧ c.toNat ≤ 57 := by
    simpa [Char.isDigit, UInt32.le_iff_toNat_le] using hdigit
  simp only [isWhitespace, Bool.or_eq_true, Bool.and_eq_true, decide_eq_true_eq,
    beq_iff_eq] at hblank
  omega

theorem parseLongOrNull_toString (n : Int64) : parseLongOrNull (some (toString n)) = some n := by
  have hempty : (toString n).isEmpty = false := toString_ne_empty n.toInt
  simp [parseLongOrNull, hempty, parseLong_toString]

theorem parseInstantOrNull_toString (ms : Int64) :
    parseInstantOrNull (some (toString ms)) = some (.ofEpochMilli ms) := by
  have hempty : (toString ms).isEmpty = false := toString_ne_empty ms.toInt
  simp [parseInstantOrNull, hempty, parseLong_toString]

theorem parseIntOrDefault_toString (n d : Int32) :
    parseIntOrDefault (some (toString n)) d = n := by
  have hblank : isBlank (toString n) = false := isBlank_toString n.toInt
  simp [parseIntOrDefault, hblank, parseInt_toString]

theorem parseStatus_statusName (status : SessionStatus) :
    parseStatus (some (statusName status)) = status := by
  cases status <;> decide

theorem parseBoolean_toString (b : Bool) : parseBoolean (some (toString b)) = b := by
  cases b <;> decide

end Parsing

/-! ## What a session is stored as -/

/-- The text of an instant's milliseconds. -/
def millisOf (instant : Option Instant) : Option String :=
  (instant.bind Instant.toEpochMilli).map toString

namespace Session

/-- The instants that a session holds. -/
def instants (session : Session) : List Instant :=
  session.createdAt.toList ++ session.lastActivityAt.toList ++ session.handshakeCompletedAt.toList

/-- What is not null, instants without anything below the milliseconds, and one identifier
at least of each participant. -/
structure Complete (session : Session) : Prop where
  id : session.id.isSome = true
  status : session.status.isSome = true
  createdAt : session.createdAt.isSome = true
  lastActivityAt : session.lastActivityAt.isSome = true
  millis : ∀ i ∈ session.instants, i.IsMillis
  initiator : session.initiatorInternalId.isSome = true ∨ session.initiatorTelegramId.isSome = true
  responder : session.responderInternalId.isSome = true ∨ session.responderTelegramId.isSome = true

/-- Every instant has its milliseconds in a `long`. -/
def Fits (session : Session) : Prop := ∀ i ∈ session.instants, i.toEpochMilli.isSome = true

/-- What is written under a field; nothing for null. -/
def text (session : Session) : Field → Option String
  | .id => session.id
  | .initiatorInternalId => session.initiatorInternalId
  | .initiatorTelegramId => session.initiatorTelegramId.map toString
  | .initiatorId => session.initiatorTelegramId.map toString
  | .responderInternalId => session.responderInternalId
  | .responderTelegramId => session.responderTelegramId.map toString
  | .responderId => session.responderTelegramId.map toString
  | .status => session.status.map statusName
  | .createdAt => millisOf session.createdAt
  | .lastActivityAt => millisOf session.lastActivityAt
  | .handshakeCompletedAt => millisOf session.handshakeCompletedAt
  | .initiatorVerified => some (toString session.initiatorVerified)
  | .responderVerified => some (toString session.responderVerified)
  | .secretQuestion => session.secretQuestion
  | .secretAnswerHash => session.secretAnswerHash
  | .initiatorPublicKey => session.initiatorPublicKey
  | .responderPublicKey => session.responderPublicKey
  | .messageTtl => some (toString session.messageTtl)

end Session

theorem lookup_putSome (map : Hash) (f g : Field) (v : Option String) :
    (putSome map f v).lookup g = if g = f then v.or (map.lookup g) else map.lookup g := by
  cases v with
  | none => simp [putSome]
  | some value =>
      rw [putSome, Table.lookup_insert_of]
      split <;> simp

section

variable {session : Session} {map : Hash}

theorem nonNull_eq_ok {α : Type} {value : Option α} {a : α} :
    nonNull value = .ok a ↔ value = some a := orThrow_eq_ok

theorem millisText_eq_ok {i : Instant} {t : String} (h : millisText i = .ok t) :
    millisOf (some i) = some t ∧ i.toEpochMilli.isSome = true := by
  rw [millisText, orThrow_eq_ok] at h
  refine ⟨h, ?_⟩
  obtain ⟨ms, hms, -⟩ := Option.map_eq_some_iff.mp h
  rw [hms]
  rfl

theorem millis_nonNull {instant : Option Instant} {t : String}
    (h : nonNull instant >>= millisText = .ok t) :
    millisOf instant = some t ∧ ∀ i ∈ instant.toList, i.toEpochMilli.isSome = true := by
  obtain ⟨i, hi, ht⟩ := exists_of_bind_eq_ok h
  obtain rfl := nonNull_eq_ok.mp hi
  obtain ⟨htext, hfits⟩ := millisText_eq_ok ht
  exact ⟨htext, by simpa using hfits⟩

theorem millis_mapM {instant : Option Instant} {t : Option String}
    (h : instant.mapM millisText = .ok t) :
    millisOf instant = t ∧ ∀ i ∈ instant.toList, i.toEpochMilli.isSome = true := by
  cases instant with
  | none =>
      obtain rfl := Except.ok.inj h
      exact ⟨rfl, by simp⟩
  | some i =>
      obtain ⟨t', ht, hsome⟩ := exists_of_bind_eq_ok h
      obtain rfl := Except.ok.inj hsome
      obtain ⟨htext, hfits⟩ := millisText_eq_ok ht
      exact ⟨htext, by simpa using hfits⟩

/-- The map has the texts of the session, which has no instant that is out of range. -/
theorem sessionToMap_eq_ok (h : sessionToMap session = .ok map) :
    session.Fits ∧ ∀ field, map.lookup field = session.text field := by
  obtain ⟨id, hid, h⟩ := exists_of_bind_eq_ok h
  obtain ⟨status, hstatus, h⟩ := exists_of_bind_eq_ok h
  obtain ⟨createdText, hcreated, h⟩ := exists_of_bind_eq_ok h
  obtain ⟨activityText, hactivity, h⟩ := exists_of_bind_eq_ok h
  obtain ⟨completedText, hcompleted, h⟩ := exists_of_bind_eq_ok h
  obtain rfl := Except.ok.inj h
  rw [nonNull_eq_ok] at hid hstatus
  obtain ⟨hcreated, hfits₁⟩ := millis_nonNull hcreated
  obtain ⟨hactivity, hfits₂⟩ := millis_nonNull hactivity
  obtain ⟨hcompleted, hfits₃⟩ := millis_mapM hcompleted
  refine ⟨fun i hi => ?_, fun field => ?_⟩
  · rcases List.mem_append.mp hi with hi | hi
    · exact (List.mem_append.mp hi).elim (hfits₁ i) (hfits₂ i)
    · exact hfits₃ i hi
  · cases field <;>
      simp [lookup_putSome, Session.text, hid, hstatus, hcreated, hactivity, hcompleted]

/-- A session whose instants fit has a map. -/
theorem exists_sessionToMap (hc : session.Complete) (hf : session.Fits) :
    ∃ map, sessionToMap session = .ok map := by
  obtain ⟨id, hid⟩ := Option.isSome_iff_exists.mp hc.id
  obtain ⟨status, hstatus⟩ := Option.isSome_iff_exists.mp hc.status
  obtain ⟨created, hcreated⟩ := Option.isSome_iff_exists.mp hc.createdAt
  obtain ⟨activity, hactivity⟩ := Option.isSome_iff_exists.mp hc.lastActivityAt
  have hmillis : ∀ i ∈ session.instants, ∃ t, millisText i = .ok t := fun i hi => by
    obtain ⟨ms, hms⟩ := Option.isSome_iff_exists.mp (hf i hi)
    exact ⟨toString ms, by rw [millisText, hms]; rfl⟩
  obtain ⟨t₁, h₁⟩ := hmillis created (by simp [Session.instants, hcreated])
  obtain ⟨t₂, h₂⟩ := hmillis activity (by simp [Session.instants, hactivity])
  obtain ⟨t₃, h₃⟩ : ∃ t, session.handshakeCompletedAt.mapM millisText = .ok t := by
    cases hcompleted : session.handshakeCompletedAt with
    | none => exact ⟨none, rfl⟩
    | some i =>
        obtain ⟨t, ht⟩ := hmillis i (by simp [Session.instants, hcompleted])
        exact ⟨some t, by rw [Option.mapM_some, ht]; rfl⟩
  unfold sessionToMap
  rw [hid, hstatus, hcreated, hactivity, h₃]
  simp only [nonNull, orThrow, ok_bind, h₁, h₂]
  exact ⟨_, rfl⟩

end

/-! ## A save and a read -/

theorem parseLongOrNull_or (n : Option Int64) (stored : Option String) :
    parseLongOrNull ((n.map toString).or stored) = n.or (parseLongOrNull stored) := by
  cases n with
  | none => rfl
  | some n => exact parseLongOrNull_toString n

/-- An instant whose milliseconds fit and say all of it is read back. -/
theorem parseInstantOrNull_or {instant : Option Instant} (stored : Option String)
    (h : ∀ i ∈ instant.toList, i.IsMillis ∧ i.toEpochMilli.isSome = true) :
    parseInstantOrNull ((millisOf instant).or stored)
      = instant.or (parseInstantOrNull stored) := by
  cases instant with
  | none => rfl
  | some i =>
      obtain ⟨hmillis, hfits⟩ := h i (by simp)
      obtain ⟨ms, hms⟩ := Option.isSome_iff_exists.mp hfits
      have hback := Instant.ofEpochMilli_of_toEpochMilli hmillis hms
      simp [millisOf, hms, parseInstantOrNull_toString, hback]

/-- The hash under the session's key. -/
def Store.stored (s : Store) (session : Session) : Hash :=
  (s.hash? (keyFor (session.id.getD "null"))).getD ∅

namespace Config

variable (cfg : Config)

/-- What is read of `session` once it is saved over `stored`: what was stored stays where the
session holds null, and stands in for a missing or blank internal id. -/
def merged (session : Session) (stored : Hash) : Session :=
  let initiatorTelegramId :=
    session.initiatorTelegramId.or (telegramId stored .initiatorTelegramId .initiatorId)
  let responderTelegramId :=
    session.responderTelegramId.or (telegramId stored .responderTelegramId .responderId)
  { session with
    initiatorInternalId := cfg.internalId
      (session.initiatorInternalId.or (stored.lookup .initiatorInternalId)) initiatorTelegramId
    initiatorTelegramId
    responderInternalId := cfg.internalId
      (session.responderInternalId.or (stored.lookup .responderInternalId)) responderTelegramId
    responderTelegramId
    handshakeCompletedAt := session.handshakeCompletedAt.or
      (parseInstantOrNull (stored.lookup .handshakeCompletedAt))
    secretQuestion := session.secretQuestion.or (stored.lookup .secretQuestion)
    secretAnswerHash := session.secretAnswerHash.or (stored.lookup .secretAnswerHash)
    initiatorPublicKey := session.initiatorPublicKey.or (stored.lookup .initiatorPublicKey)
    responderPublicKey := session.responderPublicKey.or (stored.lookup .responderPublicKey) }

/-- A session under its id, saved and read by nobody else in between. -/
def saveAndFind (session : Session) : Program Store Command (Option Session) := do
  let _ ← cfg.save session
  cfg.findById (session.id.getD "null")

end Config

section

variable {cfg : Config} {session : Session} {map stored : Hash} {s : Store}

theorem telegramId_union {n : Option Int64} {field old : Field}
    (hfield : map.lookup field = n.map toString) (hold : map.lookup old = n.map toString) :
    telegramId (map ∪ stored) field old = n.or (telegramId stored field old) := by
  rw [telegramId, Table.lookup_union, Table.lookup_union, hfield, hold, parseLongOrNull_or,
    parseLongOrNull_or]
  cases n <;> rfl

theorem Config.mapToSession_union (hc : session.Complete) (hf : session.Fits)
    (hmap : ∀ field, map.lookup field = session.text field) (now : Instant) :
    cfg.mapToSession now (map ∪ stored) = cfg.merged session stored := by
  have hlookup : ∀ field,
      (map ∪ stored).lookup field = (session.text field).or (stored.lookup field) := fun field => by
    rw [Table.lookup_union, hmap]
  have hinstant : ∀ instant : Option Instant, (∀ i ∈ instant.toList, i ∈ session.instants) →
      ∀ x, parseInstantOrNull ((millisOf instant).or x) = instant.or (parseInstantOrNull x) :=
    fun instant hmem x => parseInstantOrNull_or x fun i hi =>
      ⟨hc.millis i (hmem i hi), hf i (hmem i hi)⟩
  have hcreated := hinstant session.createdAt fun i hi => by simp [Session.instants, hi]
  have hactivity := hinstant session.lastActivityAt fun i hi => by simp [Session.instants, hi]
  have hcompleted := hinstant session.handshakeCompletedAt fun i hi => by
    simp [Session.instants, hi]
  have hinitiator : telegramId (map ∪ stored) .initiatorTelegramId .initiatorId = _ :=
    telegramId_union (hmap .initiatorTelegramId) (hmap .initiatorId)
  have hresponder : telegramId (map ∪ stored) .responderTelegramId .responderId = _ :=
    telegramId_union (hmap .responderTelegramId) (hmap .responderId)
  obtain ⟨id, hid⟩ := Option.isSome_iff_exists.mp hc.id
  obtain ⟨status, hstatus⟩ := Option.isSome_iff_exists.mp hc.status
  obtain ⟨created, hcreatedAt⟩ := Option.isSome_iff_exists.mp hc.createdAt
  obtain ⟨activity, hactivityAt⟩ := Option.isSome_iff_exists.mp hc.lastActivityAt
  rw [hcreatedAt] at hcreated
  rw [hactivityAt] at hactivity
  ext1 <;>
    simp [Config.mapToSession, Config.merged, hinitiator, hresponder, hcreated, hactivity,
      hcompleted, hlookup, Session.text, hid, hstatus, hcreatedAt, hactivityAt, parseInstantOrNow,
      parseStatus_statusName, parseBoolean_toString, parseIntOrDefault_toString]

/-- A hash that is merged in and given a time to live is found, unless that is none. -/
theorem hash?_expire_hset (key : String) (ttl : Int) :
    (exec (.expire key ttl) (exec (.hset key map) s)).hash? key
      = if ttl ≤ 0 then none else some (map ∪ (s.hash? key).getD ∅) := by
  by_cases httl : ttl ≤ 0
  · simp [exec, httl, Store.hash?, Keyspace.get?]
  · have hlive : Entry.live ⟨map ∪ (s.keys.get? s.now key).getD ∅, some (s.now + ttl.toNat)⟩ s.now
        = true := by
      simp [Entry.live]
    simp only [exec, httl, if_false, Store.hash?, Keyspace.expire_alter]
    rw [Keyspace.get?, Keyspace.find?_put hlive, Option.map_some]

theorem Config.saveAndFind_error {e : String} (h : sessionToMap session = .error e) :
    ((cfg.saveAndFind session).run exec s).2 = .error e := by
  simp [Config.saveAndFind, Config.save, h, Program.run]

/-- What a read gives after a save. -/
theorem Config.saveAndFind_run (cfg : Config) (s : Store) (hc : session.Complete)
    (hf : session.Fits) :
    ((cfg.saveAndFind session).run exec s).2 = .ok
      (if cfg.ttlFor session ≤ 0 then none else some (cfg.merged session (s.stored session))) := by
  obtain ⟨map, hmap⟩ := exists_sessionToMap hc hf
  have htexts := (sessionToMap_eq_ok hmap).2
  obtain ⟨id, hid⟩ := Option.isSome_iff_exists.mp hc.id
  have hne : ∀ stored : Hash, (map ∪ stored).entries.isEmpty = false := fun stored => by
    have hlookup : (map ∪ stored).lookup .id = some id := by
      rw [Table.lookup_union, htexts]
      simp [Session.text, hid]
    simpa using Table.entries_ne_nil hlookup
  have hrun : ((cfg.saveAndFind session).run exec s).2
      = .ok (((exec (.expire (keyFor (session.id.getD "null")) (cfg.ttlFor session))
          (exec (.hset (keyFor (session.id.getD "null")) map) s)).hash?
            (keyFor (session.id.getD "null"))).filter (!·.entries.isEmpty)
        |>.map (cfg.mapToSession s.instant)) := by
    simp [Config.saveAndFind, Config.save, hmap, Program.run]
    rfl
  rw [hrun, hash?_expire_hset]
  split
  · rfl
  · rw [Option.filter_some, if_pos (by rw [hne]; rfl), Option.map_some,
      Config.mapToSession_union hc hf htexts]
    rfl

end

end SessionRepository

end BurnedChats

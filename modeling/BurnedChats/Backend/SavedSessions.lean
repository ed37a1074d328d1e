import BurnedChats.Backend.SessionRepository

/-!
# Saved sessions

When a session that was saved is the one that is read. What a save leaves of an older
hash is what the operations have put there, so first comes what they can put there:
`Regular` hashes, command by command (`Store.Sound.exec`) and from there in every
interleaving of the operations (`Config.sound_of_reach`). In a regular hash a field that
is there is read as something, so nothing of an older hash shows through exactly where the
fields that the session leaves out are absent (`Config.Overwrites`).
-/

namespace BurnedChats

open Interleave Program
open Sessions (SessionStatus)

namespace SessionRepository

/-! ## What the operations store -/

/-- A text that some operation writes under the field. -/
def Field.Legible : Field → String → Prop
  | .initiatorTelegramId, value => ∃ n : Int64, value = toString n
  | .initiatorId, value => ∃ n : Int64, value = toString n
  | .responderTelegramId, value => ∃ n : Int64, value = toString n
  | .responderId, value => ∃ n : Int64, value = toString n
  | .status, value => ∃ status, value = statusName status
  | .createdAt, value => ∃ ms : Int64, value = toString ms
  | .lastActivityAt, value => ∃ ms : Int64, value = toString ms
  | .handshakeCompletedAt, value => ∃ ms : Int64, value = toString ms
  | .initiatorVerified, value => ∃ b : Bool, value = toString b
  | .responderVerified, value => ∃ b : Bool, value = toString b
  | .messageTtl, value => ∃ n : Int32, value = toString n
  | _, _ => True

def Field.namesTelegramId : Field → Bool
  | .initiatorTelegramId => true
  | .initiatorId => true
  | .responderTelegramId => true
  | .responderId => true
  | _ => false

/-- Every text is one that is written under its field, and a Telegram id is there under both
of its names or under none. -/
structure Regular (hash : Hash) : Prop where
  legible : ∀ field value, hash.lookup field = some value → field.Legible value
  initiator : hash.lookup .initiatorId = hash.lookup .initiatorTelegramId
  responder : hash.lookup .responderId = hash.lookup .responderTelegramId

/-- Commands that keep hashes regular. -/
def Command.Sound : Command → Prop
  | .hset _ fields => Regular fields
  | .hdel _ fields => ∀ field ∈ fields, field = .initiatorPublicKey ∨ field = .responderPublicKey
  | .expire _ _ => True
  | .del _ => True

def Store.Sound (s : Store) : Prop := ∀ key e, s.keys key = some e → Regular e.value

section

variable {map hash : Hash} {s : Store} {key : String} {field : Field} {value : String}

theorem regular_empty : Regular (∅ : Hash) where
  legible _ _ h := by simp at h
  initiator := rfl
  responder := rfl

theorem Regular.union (hm : Regular map) (hs : Regular hash) : Regular (map ∪ hash) where
  legible field value h := by
    rw [Table.lookup_union] at h
    rcases Option.or_eq_some_iff.mp h with h | ⟨-, h⟩
    · exact hm.legible field value h
    · exact hs.legible field value h
  initiator := by rw [Table.lookup_union, Table.lookup_union, hm.initiator, hs.initiator]
  responder := by rw [Table.lookup_union, Table.lookup_union, hm.responder, hs.responder]

theorem Regular.erase (h : Regular hash)
    (hfield : field = .initiatorPublicKey ∨ field = .responderPublicKey) :
    Regular (hash.erase field) where
  legible g value hg := by
    rw [Table.lookup_erase_of] at hg
    split at hg
    · cases hg
    · exact h.legible g value hg
  initiator := by rcases hfield with rfl | rfl <;> simpa [Table.lookup_erase_of] using h.initiator
  responder := by rcases hfield with rfl | rfl <;> simpa [Table.lookup_erase_of] using h.responder

theorem Regular.eraseAll {fields : List Field}
    (hfields : ∀ field ∈ fields, field = .initiatorPublicKey ∨ field = .responderPublicKey) :
    ∀ {hash : Hash}, Regular hash →
      Regular (fields.foldl (fun hash field => hash.erase field) hash) := by
  induction fields with
  | nil => exact fun h => h
  | cons field fields ih =>
      intro hash h
      exact ih (fun f hf => hfields f (List.mem_cons_of_mem _ hf))
        (h.erase (hfields field List.mem_cons_self))

/-- One field, other than a Telegram id. -/
theorem regular_single (hvalue : field.Legible value) (hfield : field.namesTelegramId = false) :
    Regular (putSome ∅ field (some value)) where
  legible g v h := by
    rw [lookup_putSome] at h
    split at h
    · subst g
      simp only [Option.some_or, Option.some.injEq] at h
      exact h ▸ hvalue
    · simp at h
  initiator := by cases field <;> simp_all [lookup_putSome, Field.namesTelegramId]
  responder := by cases field <;> simp_all [lookup_putSome, Field.namesTelegramId]

theorem legible_map {α : Type} [ToString α] {o : Option α} (h : o.map toString = some value) :
    ∃ a : α, value = toString a := by
  obtain ⟨a, -, rfl⟩ := Option.map_eq_some_iff.mp h
  exact ⟨a, rfl⟩

theorem regular_of_texts {session : Session} (h : ∀ field, map.lookup field = session.text field) :
    Regular map where
  legible field value hv := by
    rw [h] at hv
    cases field with
    | status =>
        obtain ⟨status, -, rfl⟩ := Option.map_eq_some_iff.mp hv
        exact ⟨status, rfl⟩
    | initiatorVerified | responderVerified | messageTtl => exact ⟨_, (Option.some.inj hv).symm⟩
    | initiatorTelegramId | initiatorId | responderTelegramId | responderId | createdAt
    | lastActivityAt | handshakeCompletedAt => exact legible_map hv
    | _ => trivial
  initiator := by rw [h, h]; rfl
  responder := by rw [h, h]; rfl

theorem Store.Sound.hash? (h : s.Sound) (hs : s.hash? key = some hash) : Regular hash := by
  obtain ⟨e, he, rfl⟩ := Option.map_eq_some_iff.mp hs
  exact h key e (Keyspace.find?_eq_some.mp he).1

theorem Store.Sound.stored_regular (h : s.Sound) (session : Session) :
    Regular (s.stored session) := by
  unfold Store.stored
  cases hs : s.hash? (keyFor (session.id.getD "null")) with
  | none => exact regular_empty
  | some hash => exact h.hash? hs

theorem Store.Sound.alter {f : Option Hash → Hash} (h : s.Sound) (hf : Regular (f (s.hash? key))) :
    ({ s with keys := s.keys.alter s.now key f } : Store).Sound := by
  intro key' e he
  by_cases hkey : key' = key
  · subst hkey
    rcases Keyspace.alter_eq_some he with ⟨hnone, rfl⟩ | ⟨e', hsome, rfl⟩
    · simpa [Store.hash?, Keyspace.get?, hnone] using hf
    · simpa [Store.hash?, Keyspace.get?, hsome] using hf
  · exact h key' e ((Keyspace.alter_other _ _ hkey).symm.trans he)

theorem Store.Sound.del (h : s.Sound) : ({ s with keys := s.keys.del key } : Store).Sound := by
  intro key' e he
  by_cases hkey : key' = key
  · subst hkey
    exact absurd he (by simp)
  · exact h key' e ((Keyspace.del_other hkey).symm.trans he)

theorem Store.Sound.expire {ttl : Nat} (h : s.Sound) :
    ({ s with keys := s.keys.expire s.now ttl key } : Store).Sound := by
  intro key' e he
  by_cases hkey : key' = key
  · subst hkey
    rcases Keyspace.expire_eq_some he with ⟨-, hsome⟩ | ⟨e', hsome, rfl⟩
    · exact h key' e hsome
    · exact h key' e' (Keyspace.find?_eq_some.mp hsome).1
  · exact h key' e ((Keyspace.expire_other _ _ hkey).symm.trans he)

/-- One command. -/
theorem Store.Sound.exec {c : Command} (h : s.Sound) (hc : c.Sound) : (exec c s).Sound := by
  cases c with
  | hset key fields =>
      refine h.alter (Regular.union hc ?_)
      cases hs : s.hash? key with
      | none => exact regular_empty
      | some hash => exact h.hash? hs
  | hdel key fields =>
      simp only [SessionRepository.exec]
      cases hs : s.hash? key with
      | none => exact h
      | some hash =>
          simp only
          split
          · exact h.del
          · exact h.alter (Regular.eraseAll hc (h.hash? hs))
  | expire key ttl =>
      simp only [SessionRepository.exec]
      split
      · exact h.del
      · exact h.expire
  | del key => exact h.del

end

/-! ### The commands of the operations -/

section

variable {α : Type}

/-- A write of a legible text, and what follows it. -/
theorem put_bind_sound {key : String} {field : Field} {value : String}
    {next : Bool → Program Store Command α} (hvalue : field.Legible value)
    (hfield : field.namesTelegramId = false)
    (hnext : ∀ b, (next b).All Command.Sound) : (put key field value >>= next).All Command.Sound :=
  ⟨regular_single hvalue hfield, fun _ _ => hnext _⟩

theorem put_sound {key : String} {field : Field} {value : String} (hvalue : field.Legible value)
    (hfield : field.namesTelegramId = false) :
    (put key field value).All Command.Sound :=
  ⟨regular_single hvalue hfield, fun _ _ => trivial⟩

theorem updateLastActivity_sound (id : String) : (updateLastActivity id).All Command.Sound := by
  intro s _
  exact put_sound ⟨_, rfl⟩ rfl

theorem updateStatus_sound (id : String) (status : SessionStatus) :
    (updateStatus id status).All Command.Sound :=
  put_bind_sound ⟨status, rfl⟩ rfl fun _ => updateLastActivity_sound id

end

section

variable {cfg : Config}

theorem updateMessageTtl_sound (id : String) (seconds : Int32) :
    (updateMessageTtl id seconds).All Command.Sound := by
  unfold updateMessageTtl
  split
  · trivial
  · exact put_bind_sound ⟨seconds, rfl⟩ rfl fun _ => trivial

theorem clearPublicKeysAndSetActive_sound (id : String) :
    (clearPublicKeysAndSetActive id).All Command.Sound := by
  intro s _
  refine ⟨by simp [Command.Sound], fun _ _ => ?_⟩
  refine put_bind_sound ⟨.active, rfl⟩ rfl fun _ => ?_
  exact put_bind_sound ⟨_, rfl⟩ rfl fun _ => put_sound ⟨_, rfl⟩ rfl

theorem setHandshakeCompleted_sound (id : String) :
    (setHandshakeCompleted id).All Command.Sound := by
  intro s _
  exact put_bind_sound ⟨_, rfl⟩ rfl fun _ => updateStatus_sound id .active

/-- A read, and what follows it. -/
theorem Config.findById_bind_sound {α : Type} {id : String}
    {next : Option Session → Program Store Command α}
    (h : ∀ found, (next found).All Command.Sound) :
    (cfg.findById id >>= next).All Command.Sound := fun _ _ => h _

theorem Config.save_sound (session : Session) : (cfg.save session).All Command.Sound := by
  unfold Config.save
  split
  · trivial
  · rename_i map hmap
    exact ⟨regular_of_texts (sessionToMap_eq_ok hmap).2, fun _ _ => ⟨trivial, fun _ _ => trivial⟩⟩

theorem Config.storePublicKey_sound {field : Field} (id publicKey : String)
    (hfield : field = .initiatorPublicKey ∨ field = .responderPublicKey) :
    (cfg.storePublicKey id field publicKey).All Command.Sound := by
  intro s _
  refine put_bind_sound (by rcases hfield with rfl | rfl <;> trivial)
    (by rcases hfield with rfl | rfl <;> rfl) fun _ => ?_
  exact put_bind_sound ⟨_, rfl⟩ rfl fun _ _ _ => trivial

theorem Config.setPublicKeyAtomic_sound (id user publicKey : String) :
    (cfg.setPublicKeyAtomic id user publicKey).All Command.Sound := by
  refine Config.findById_bind_sound fun found => ?_
  cases found with
  | none => trivial
  | some session =>
      simp only
      split
      · exact Config.storePublicKey_sound id publicKey (.inl rfl)
      · split
        · exact Config.storePublicKey_sound id publicKey (.inr rfl)
        · trivial

theorem Config.updateVerification_sound (id user : String) (verified : Bool) :
    (cfg.updateVerification id user verified).All Command.Sound := by
  refine Config.findById_bind_sound fun found => ?_
  cases found with
  | none => trivial
  | some session =>
      refine put_bind_sound ?_ ?_ fun _ => trivial
      · split <;> exact ⟨verified, rfl⟩
      · split <;> rfl

/-- Whatever an operation comes to, it only executes commands that keep hashes regular. -/
theorem Config.program_sound (op : Op) : (cfg.program op).All Command.Sound := by
  have hreply : ∀ {α : Type} {p : Program Store Command α} (reply : α → Reply),
      p.All Command.Sound → (p >>= fun a => pure (reply a)).All Command.Sound :=
    fun reply h => (ensures_bind ..).mpr h
  cases op with
  | findById id => exact hreply _ fun _ _ => trivial
  | save session => exact hreply _ (Config.save_sound session)
  | updateStatus id status => exact hreply _ (updateStatus_sound id status)
  | updateMessageTtl id seconds => exact hreply _ (updateMessageTtl_sound id seconds)
  | updateLastActivity id => exact hreply _ (updateLastActivity_sound id)
  | setPublicKeyAtomic id user key => exact hreply _ (Config.setPublicKeyAtomic_sound id user key)
  | clearPublicKeysAndSetActive id => exact hreply _ (clearPublicKeysAndSetActive_sound id)
  | updateVerification id user verified =>
      exact hreply _ (Config.updateVerification_sound id user verified)
  | setHandshakeCompleted id => exact hreply _ (setHandshakeCompleted_sound id)
  | delete id => exact hreply _ ⟨trivial, fun _ _ => trivial⟩
  | existsById id => exact hreply _ fun _ _ => trivial
  | refreshTtl id => exact hreply _ ⟨trivial, fun _ _ => trivial⟩

theorem Config.sound_preserved : cfg.server.Preserves (fun _ _ => True)
    fun c => c.store.Sound ∧ ∀ p ∈ c.pool, p.Obeys cfg.program fun _ => Command.Sound := by
  refine Call.preserves (fun _ op _ => Config.program_sound op)
    (fun _ _ _ _ _ hs _ _ _ hc => hs.exec hc) fun c ms s' hs _ he => ?_
  simp only [tick] at he
  split at he
  · obtain rfl := Option.some.inj he
    exact hs
  · cases he

/-- Nothing is stored, at any time. -/
def Store.IsFresh (s : Store) : Prop := s.keys = Keyspace.empty

/-- Whatever operations run in whatever order, every stored hash is regular. -/
theorem Config.sound_of_reach {s₀ : Store} {c : Conf Store (Call Op Store Command Reply)}
    (h₀ : s₀.IsFresh) (h : cfg.server.Reach ⟨s₀, []⟩ c) : c.store.Sound := by
  refine (h.invariant Config.sound_preserved ⟨fun key e he => ?_, fun _ hp => by cases hp⟩).1
  rw [h₀] at he
  cases he

end

/-! ## When the saved session is the one that is read -/

namespace Config

variable (cfg : Config)

/-- The session as it is to be read: absent internal ids come from the Telegram ids. -/
def completed (session : Session) : Session :=
  { session with
    initiatorInternalId := session.initiatorInternalId.or
      (session.initiatorTelegramId.map cfg.forTelegramId)
    responderInternalId := session.responderInternalId.or
      (session.responderTelegramId.map cfg.forTelegramId) }

/-- A read after the save gives the session that was saved. -/
def StoresExactly (s : Store) (session : Session) : Prop :=
  ((cfg.saveAndFind session).run exec s).2 = .ok (some (cfg.completed session))

/-- The identifiers of a participant come out as they went in. An absent Telegram id must not
be stored; an absent internal id may only be stored as blank or as what the Telegram id stands
for; and an internal id that is blank itself would be replaced by that. -/
@[mk_iff]
structure KeepsIds (internalId : Option String) (telegramId : Option Int64)
    (storedInternalId storedTelegramId : Option String) : Prop where
  absentTelegram : telegramId = none → storedTelegramId = none
  absentInternal : internalId = none → ∀ t ∈ telegramId, ∀ i ∈ storedInternalId,
    isBlank i = true ∨ i = cfg.forTelegramId t
  blankInternal : ∀ i ∈ internalId, ∀ t ∈ telegramId, isBlank i = true → cfg.forTelegramId t = i

/-- Nothing stays of what was stored. -/
@[mk_iff]
structure Overwrites (session : Session) (stored : Hash) : Prop where
  initiator : cfg.KeepsIds session.initiatorInternalId session.initiatorTelegramId
    (stored.lookup .initiatorInternalId) (stored.lookup .initiatorTelegramId)
  responder : cfg.KeepsIds session.responderInternalId session.responderTelegramId
    (stored.lookup .responderInternalId) (stored.lookup .responderTelegramId)
  handshakeCompletedAt :
    session.handshakeCompletedAt = none → stored.lookup .handshakeCompletedAt = none
  secretQuestion : session.secretQuestion = none → stored.lookup .secretQuestion = none
  secretAnswerHash : session.secretAnswerHash = none → stored.lookup .secretAnswerHash = none
  initiatorPublicKey : session.initiatorPublicKey = none → stored.lookup .initiatorPublicKey = none
  responderPublicKey : session.responderPublicKey = none → stored.lookup .responderPublicKey = none

end Config

section

variable {cfg : Config} {session : Session} {stored : Hash} {s : Store}

theorem or_eq_self_iff {α : Type} {a b : Option α} : a.or b = a ↔ (a = none → b = none) := by
  cases a <;> simp

/-- What is stored of a regular field is read as nothing only where it is absent. -/
theorem telegramId_eq_none {field old : Field}
    (hnames : stored.lookup old = stored.lookup field)
    (hlegible : ∀ v, stored.lookup field = some v → ∃ n : Int64, v = toString n) :
    telegramId stored field old = none ↔ stored.lookup field = none := by
  rw [telegramId, hnames]
  cases hv : stored.lookup field with
  | none => simp [parseLongOrNull]
  | some v =>
      obtain ⟨n, rfl⟩ := hlegible v hv
      simp [parseLongOrNull_toString]

theorem Regular.handshakeCompletedAt_eq_none (h : Regular stored) :
    parseInstantOrNull (stored.lookup .handshakeCompletedAt) = none
      ↔ stored.lookup .handshakeCompletedAt = none := by
  cases hv : stored.lookup .handshakeCompletedAt with
  | none => simp [parseInstantOrNull]
  | some v =>
      obtain ⟨ms, rfl⟩ := h.legible .handshakeCompletedAt v hv
      simp [parseInstantOrNull_toString]

/-- One participant. -/
theorem Config.readIds_iff (cfg : Config) {internalId : Option String}
    {telegramId storedTelegramId : Option Int64} (storedInternalId : Option String)
    {storedText : Option String}
    (hsome : internalId.isSome = true ∨ telegramId.isSome = true)
    (hstored : storedTelegramId = none ↔ storedText = none) :
    cfg.internalId (internalId.or storedInternalId) (telegramId.or storedTelegramId)
          = internalId.or (telegramId.map cfg.forTelegramId)
        ∧ telegramId.or storedTelegramId = telegramId
      ↔ cfg.KeepsIds internalId telegramId storedInternalId storedText := by
  rw [or_eq_self_iff, hstored]
  cases telegramId with
  | none =>
      obtain ⟨i, rfl⟩ := Option.isSome_iff_exists.mp (hsome.resolve_right (by simp))
      constructor
      · rintro ⟨-, h⟩
        exact ⟨h, by simp, by simp⟩
      · intro h
        obtain rfl := hstored.mpr (h.absentTelegram rfl)
        exact ⟨rfl, h.absentTelegram⟩
  | some t =>
      have hread : cfg.internalId (internalId.or storedInternalId) (some t)
          = if (internalId.or storedInternalId).all isBlank then some (cfg.forTelegramId t)
            else internalId.or storedInternalId := rfl
      rw [Option.some_or, hread]
      cases internalId with
      | none =>
          cases storedInternalId with
          | none => simp [Config.keepsIds_iff]
          | some i =>
            by_cases hb : isBlank i = true
            · simp [Config.keepsIds_iff, hb]
            · simp [Config.keepsIds_iff, hb]
      | some i =>
          by_cases hb : isBlank i = true
          · simp [Config.keepsIds_iff, hb]
          · simp [Config.keepsIds_iff, hb]

/-- Over a regular hash. -/
theorem Config.merged_eq_iff (hc : session.Complete) (hr : Regular stored) :
    cfg.merged session stored = cfg.completed session ↔ cfg.Overwrites session stored := by
  have hinitiator := cfg.readIds_iff (stored.lookup .initiatorInternalId) hc.initiator
    (telegramId_eq_none hr.initiator (hr.legible .initiatorTelegramId))
  have hresponder := cfg.readIds_iff (stored.lookup .responderInternalId) hc.responder
    (telegramId_eq_none hr.responder (hr.legible .responderTelegramId))
  rw [Config.overwrites_iff, ← hinitiator, ← hresponder, ← hr.handshakeCompletedAt_eq_none,
    Session.ext_iff]
  simp only [Config.merged, Config.completed, or_eq_self_iff, true_and, and_true, and_assoc]

/-- A save is read back exactly where nothing of what was stored shows through, the instants
fit, and the key is given time to live. -/
theorem Config.storesExactly_iff (hc : session.Complete) (hr : Regular (s.stored session)) :
    cfg.StoresExactly s session
      ↔ session.Fits ∧ 0 < cfg.ttlFor session ∧ cfg.Overwrites session (s.stored session) := by
  unfold Config.StoresExactly
  by_cases hf : session.Fits
  · rw [cfg.saveAndFind_run s hc hf, ← Config.merged_eq_iff hc hr]
    by_cases httl : cfg.ttlFor session ≤ 0
    · simp [httl, not_lt.mpr httl]
    · simp [httl, hf, not_le.mp httl]
  · have hrun : ∃ e, sessionToMap session = .error e := by
      cases h : sessionToMap session with
      | error e => exact ⟨e, rfl⟩
      | ok map => exact absurd (sessionToMap_eq_ok h).1 hf
    obtain ⟨e, he⟩ := hrun
    simp [Config.saveAndFind_error he, hf]

/-- A session is read back as it was saved exactly if nothing stored before shows through: every
field that it holds as null is absent from the stored hash, internal ids may be filled in from
the Telegram ids alone; its instants must fit, and its status must give the key time to live.
This is so whatever operations have run before. -/
theorem saved_session_is_read (cfg : Config) {s₀ : Store}
    {c : Conf Store (Call Op Store Command Reply)} (h₀ : s₀.IsFresh)
    (hreach : cfg.server.Reach ⟨s₀, []⟩ c) {session : Session} (hc : session.Complete) :
    cfg.StoresExactly c.store session
      ↔ session.Fits ∧ 0 < cfg.ttlFor session
        ∧ cfg.Overwrites session (c.store.stored session) :=
  Config.storesExactly_iff hc ((Config.sound_of_reach h₀ hreach).stored_regular session)

end

/-! ### A key that a save does not clear -/

/-- In a handshake, with the public key of the initiator or without one. -/
def sampleSession (initiatorPublicKey : Option String) : Session where
  id := some "s1"
  initiatorInternalId := some "ann"
  initiatorTelegramId := none
  responderInternalId := some "bob"
  responderTelegramId := none
  status := some .handshake
  createdAt := some (.ofEpochMilli 1000)
  lastActivityAt := some (.ofEpochMilli 2000)
  handshakeCompletedAt := none
  initiatorVerified := false
  responderVerified := false
  secretQuestion := none
  secretAnswerHash := none
  initiatorPublicKey
  responderPublicKey := none
  messageTtl := 0

def sampleConfig : Config := ⟨300000, 3600000, fun t => toString t⟩

def sampleStore : Store := ⟨3000, by decide, Keyspace.empty⟩

theorem sampleStore_fresh : sampleStore.IsFresh := rfl

theorem sampleSession_instants {key : Option String} {i : Instant}
    (h : i ∈ (sampleSession key).instants) : i = .ofEpochMilli 1000 ∨ i = .ofEpochMilli 2000 := by
  simpa [Session.instants, sampleSession] using h

theorem sampleSession_complete (key : Option String) : (sampleSession key).Complete where
  id := rfl
  status := rfl
  createdAt := rfl
  lastActivityAt := rfl
  millis i hi := by rcases sampleSession_instants hi with rfl | rfl <;> rfl
  initiator := .inl rfl
  responder := .inl rfl

theorem sampleSession_fits (key : Option String) : (sampleSession key).Fits := by
  intro i hi
  rcases sampleSession_instants hi with rfl | rfl <;> rfl

/-- The only thing in the stored hash that the session may lack is a public key of the
initiator. -/
def storedKey (s : Store) (key : String) : Bool :=
  let stored := s.stored (sampleSession none)
  [.initiatorTelegramId, .responderTelegramId, .handshakeCompletedAt, .secretQuestion,
      .secretAnswerHash, .responderPublicKey].all (fun field => (stored.lookup field).isNone)
    && stored.lookup .initiatorPublicKey == some key

/-- The session is saved, and `ann` sends her key. -/
theorem sample_reached : ∃ c, sampleConfig.server.Reach ⟨sampleStore, []⟩ c
    ∧ storedKey c.store "pk" = true :=
  sampleConfig.server.exists_reach_of_exec ⟨sampleStore, []⟩
    [.start (.arriving (.save (sampleSession none))), .turn 0, .turn 0, .turn 0,
      .start (.arriving (.setPublicKeyAtomic "s1" "ann" "pk")), .turn 1, .turn 1, .turn 1, .turn 1,
      .turn 1, .turn 1]
    (fun c => storedKey c.store "pk") (by decide)

theorem storedKey_iff {s : Store} {key : String} (h : storedKey s key = true) :
    (∀ field ∈ [.initiatorTelegramId, .responderTelegramId, .handshakeCompletedAt,
          .secretQuestion, .secretAnswerHash, .responderPublicKey],
        (s.stored (sampleSession none)).lookup field = none)
      ∧ (s.stored (sampleSession none)).lookup .initiatorPublicKey = some key := by
  simpa only [storedKey, Bool.and_eq_true, List.all_eq_true, Option.isNone_iff_eq_none,
    beq_iff_eq] using h

/-- The session is saved again without her key, as it is once the keys are cleared, and the key
is read. -/
theorem cleared_key_is_read : ∃ c, sampleConfig.server.Reach ⟨sampleStore, []⟩ c
    ∧ (sampleSession none).Complete
    ∧ (∃ found, ((sampleConfig.saveAndFind (sampleSession none)).run exec c.store).2
        = .ok (some found) ∧ found.initiatorPublicKey = some "pk")
    ∧ ¬ sampleConfig.StoresExactly c.store (sampleSession none) := by
  obtain ⟨c, hreach, hkey⟩ := sample_reached
  have hc := sampleSession_complete none
  have hrun := sampleConfig.saveAndFind_run c.store hc (sampleSession_fits none)
  have hfound : (sampleConfig.merged (sampleSession none) (c.store.stored (sampleSession none))
      ).initiatorPublicKey = some "pk" := (storedKey_iff hkey).2
  refine ⟨c, hreach, hc, ⟨_, hrun, hfound⟩, fun h => ?_⟩
  have hregular := (Config.sound_of_reach sampleStore_fresh hreach).stored_regular
    (sampleSession none)
  have hoverwrites := ((Config.storesExactly_iff hc hregular).mp h).2.2
  have hnone := hoverwrites.initiatorPublicKey rfl
  rw [(storedKey_iff hkey).2] at hnone
  cases hnone

/-- A session with another key is read as it is. -/
theorem saved_session_is_read_key : ∃ c, sampleConfig.server.Reach ⟨sampleStore, []⟩ c
    ∧ sampleConfig.StoresExactly c.store (sampleSession (some "other")) := by
  obtain ⟨c, hreach, hkey⟩ := sample_reached
  have habsent := (storedKey_iff hkey).1
  refine ⟨c, hreach, (saved_session_is_read sampleConfig sampleStore_fresh hreach
    (sampleSession_complete _)).mpr ⟨sampleSession_fits _, by decide, ?_⟩⟩
  exact {
    initiator := ⟨fun _ => habsent _ (by simp), nofun, nofun⟩
    responder := ⟨fun _ => habsent _ (by simp), nofun, nofun⟩
    handshakeCompletedAt := fun _ => habsent _ (by simp)
    secretQuestion := fun _ => habsent _ (by simp)
    secretAnswerHash := fun _ => habsent _ (by simp)
    initiatorPublicKey := nofun
    responderPublicKey := fun _ => habsent _ (by simp) }

end SessionRepository

end BurnedChats

import BurnedChats.Backend.DmInvite
import BurnedChats.Backend.Sessions
import BurnedChats.Lib.Table

/-!
# Creations and the scan over all sessions

`createSession` refuses a user who is in a live session, and so does the redemption of a
personal invite, which ends in a creation. There is no index of the sessions of a user:
`findActiveByParticipant` lists the keys and reads them one at a time, for the initiator
and then for the recipient, and the new session is saved several commands later.

A request to one session is a call of its handlers on its hash, so what is said here is
about all sessions and all handlers at once. `Call.unseen` is what a creation has still to
look at before it can be sure of a user. Nothing live may escape it, which is what the
steps keep (`Covered`) and what makes the save of a creation safe (`in_one_session`).
-/

namespace BurnedChats

namespace LiveSessions

open Interleave
open Sessions (Session SessionHash SessionStatus Role Command Handler hasText)

/-! ## Creations -/

/-- The internal id of a user is never blank. -/
abbrev InternalId := { text : String // isBlank text = false }

structure ParticipantContext where
  internalId : InternalId
  telegramId : Option Int

structure CreateSessionRequest where
  recipientInternalId : Option String := none
  recipientId : Option Int := none
  secretQuestion : Option String := none
  secretExpectedAnswer : Option String := none

/-- `forTelegramId` is the name-based identifier of a Telegram user, `hash` the digest of
a secret answer. -/
structure Config where
  pendingTtl : Nat
  forTelegramId : Int → InternalId
  hash : String → String

/-- What a creation is told by other keys and by the platform: the account that is linked
to the recipient's Telegram id, the Telegram id in the recipient's record, whether a chat
request is waiting, the id of the new session, and the order in which the keys of a scan
are read. -/
structure Answers where
  findByTelegramId : Option InternalId
  telegramId : Option Int
  existsBetween : Bool
  randomUUID : String
  order : Role → List String → List String
  order_perm : ∀ role keys, (order role keys).Perm keys

/-- A creation that has been validated. -/
structure Draft where
  initiator : ParticipantContext
  recipient : InternalId
  secretQuestion : Option String
  secretExpectedAnswer : Option String
  answers : Answers

def Draft.user (draft : Draft) : Role → InternalId
  | .initiator => draft.initiator.internalId
  | .responder => draft.recipient

def isHexDigit (c : Char) : Bool :=
  c.isDigit || ('a' ≤ c && c ≤ 'f') || ('A' ≤ c && c ≤ 'F')

/-- `UUID_PATTERN`. -/
def isUuid (text : String) : Bool :=
  text.toList.length = 36 && text.toList.zipIdx.all fun (c, i) =>
    if i ∈ [8, 13, 18, 23] then c = '-' else isHexDigit c

/-- `String.length`, in UTF-16 units. -/
def utf16Length (text : String) : Nat :=
  (text.toList.map fun c => if c.toNat < 0x10000 then 1 else 2).sum

def normalizeOptionalText (value : Option String) : Option String :=
  (value.map trim).filter (!·.isEmpty)

theorem not_isWhitespace_of_isHexDigit {c : Char} (h : isHexDigit c = true) :
    isWhitespace c = false := by
  have hbounds : 48 ≤ c.toNat ∧ c.toNat ≤ 57 ∨ 97 ≤ c.toNat ∧ c.toNat ≤ 102
      ∨ 65 ≤ c.toNat ∧ c.toNat ≤ 70 := by
    simpa [isHexDigit, Char.isDigit, UInt32.le_iff_toNat_le, Char.le_def, or_assoc] using h
  simp only [isWhitespace, Bool.or_eq_false_iff, Bool.and_eq_false_iff, decide_eq_false_iff_not,
    beq_eq_false_iff_ne]
  omega

theorem isBlank_of_isUuid {text : String} (h : isUuid text = true) : isBlank text = false := by
  obtain ⟨hlength, hall⟩ := Bool.and_eq_true_iff.mp h
  rw [isBlank]
  cases hl : text.toList with
  | nil =>
      rw [hl] at hlength
      simp at hlength
  | cons c rest =>
      rw [hl, List.zipIdx_cons, List.all_cons] at hall
      have hc : isHexDigit c = true := by simpa using (Bool.and_eq_true_iff.mp hall).1
      rw [List.all_cons, not_isWhitespace_of_isHexDigit hc, Bool.false_and]

namespace Config

variable (cfg : Config)

def sessions : Sessions.Config where
  pendingTtl := cfg.pendingTtl
  forTelegramId t := (cfg.forTelegramId t).val

def resolveRecipientInternalId (request : CreateSessionRequest) (answers : Answers) :
    Option InternalId :=
  match request.recipientInternalId.filter (!isBlank ·) with
  | some text =>
      if h : isUuid (trim text) = true then some ⟨trim text, isBlank_of_isUuid h⟩ else none
  | none =>
      request.recipientId.map fun t => answers.findByTelegramId.getD (cfg.forTelegramId t)

/-- `createSession`, up to the first scan. -/
def validate (initiator : ParticipantContext) (request : CreateSessionRequest)
    (answers : Answers) : Except String Draft :=
  let secretQuestion := normalizeOptionalText request.secretQuestion
  let secretExpectedAnswer := normalizeOptionalText request.secretExpectedAnswer
  match cfg.resolveRecipientInternalId request answers with
  | none => .error "INVALID_RECIPIENT"
  | some recipient =>
      if initiator.internalId = recipient then .error "SELF_REQUEST"
      else if secretQuestion.isSome && secretExpectedAnswer.isNone then
        .error "EXPECTED_ANSWER_REQUIRED"
      else if secretQuestion.isSome && secretExpectedAnswer.any (256 < utf16Length ·) then
        .error "EXPECTED_ANSWER_TOO_LONG"
      else .ok ⟨initiator, recipient, secretQuestion, secretExpectedAnswer, answers⟩

def newPendingSession (draft : Draft) (now : Nat) : Session where
  id := some draft.answers.randomUUID
  initiatorInternalId := some draft.initiator.internalId.val
  initiatorTelegramId := draft.initiator.telegramId
  responderInternalId := some draft.recipient.val
  responderTelegramId := draft.answers.telegramId
  status := .pending
  createdAt := now
  lastActivityAt := now
  handshakeCompletedAt := none
  initiatorVerified := false
  responderVerified := false
  secretQuestion := draft.secretQuestion
  secretAnswerHash :=
    if draft.secretQuestion.isSome then draft.secretExpectedAnswer.map cfg.hash else none
  initiatorPublicKey := none
  responderPublicKey := none
  messageTtl := 0

end Config

/-! ## All sessions -/

/-- The hashes `session:{id}` and the keys of the personal invites. -/
structure Store where
  now : Nat
  sessions : Table String SessionHash
  invites : DmInvite.Store

namespace Store

/-- One session, as its handlers see it. -/
def view (s : Store) (sessionId : String) : Sessions.Store :=
  ⟨s.now, s.sessions.lookup sessionId, [], false⟩

def put (s : Store) (sessionId : String) (hash : Option SessionHash) : Store :=
  { s with
    sessions :=
      match hash with
      | none => s.sessions.erase sessionId
      | some hash => s.sessions.insert sessionId hash }

def exec (s : Store) (sessionId : String) (command : Command) : Store :=
  s.put sessionId ((s.view sessionId).exec command).hash

theorem lookup_put {s : Store} {sessionId id : String} {hash : Option SessionHash} :
    (s.put sessionId hash).sessions.lookup id
      = if id = sessionId then hash else s.sessions.lookup id := by
  by_cases h : id = sessionId
  · subst h
    cases hash with
    | none => simp [put]
    | some hash => simp [put]
  · cases hash with
    | none => simp [put, h]
    | some hash => simp [put, h]

end Store

namespace Config

variable (cfg : Config)

def isLogicallyExpiredPending (session : Session) (now : Nat) : Bool :=
  session.status = .pending && session.isExpired cfg.pendingTtl now

/-- The filter of `findActiveByParticipant`. -/
def isActive (now : Nat) (userId : String) (hash : SessionHash) : Bool :=
  let session := cfg.sessions.mapToSession now hash
  session.isParticipant userId && session.status ≠ .burned && session.status ≠ .expired
    && !cfg.isLogicallyExpiredPending session now

/-- The user is in the session, and the session is live. -/
def active (s : Store) (userId sessionId : String) : Bool :=
  (s.sessions.lookup sessionId).any (cfg.isActive s.now userId)

end Config

/-! ## Requests -/

/-- A request by its next command: a call of the handlers of one session, a personal invite
that is minted or redeemed, or a creation, stage by stage. The limits in front of a creation
only turn requests away. -/
inductive Call where
  | request (sessionId : String) (call : Sessions.Call)
  | invite (call : DmInvite.Call) (participant : ParticipantContext) (answers : Answers)
  | createSession (initiator : ParticipantContext) (request : CreateSessionRequest)
      (answers : Answers)
  | findActiveByParticipant (role : Role) (draft : Draft)
  | scan (role : Role) (draft : Draft) (keys : List String)
  | existsBetween (draft : Draft)
  | loadParticipants (draft : Draft)
  | save (draft : Draft) (now : Nat)
  | failed (code : String)

/-- What is said when a scan finds a live session. -/
def code : Role → String
  | .initiator => "ALREADY_HAS_SESSION"
  | .responder => "RECIPIENT_HAS_SESSION"

def Config.step (cfg : Config) : Call → Store → Option (Store × Call)
  | .request sessionId call, s =>
      (cfg.sessions.step call (s.view sessionId)).map fun r =>
        (s.put sessionId r.1.hash, .request sessionId r.2)
  | .invite (.createSession _ token) redeemer answers, s =>
      some (s, .createSession redeemer { recipientInternalId := token.ownerInternalId } answers)
  | .invite call participant answers, s =>
      (DmInvite.step call { s.invites with now := s.now }).map fun r =>
        ({ s with invites := r.1 }, .invite r.2 participant answers)
  | .createSession initiator request answers, s =>
      match cfg.validate initiator request answers with
      | .error error => some (s, .failed error)
      | .ok draft => some (s, .findActiveByParticipant .initiator draft)
  | .findActiveByParticipant role draft, s =>
      some (s, .scan role draft (draft.answers.order role s.sessions.keys))
  | .scan role draft (key :: keys), s =>
      if cfg.active s (draft.user role).val key then some (s, .failed (code role))
      else some (s, .scan role draft keys)
  | .scan .initiator draft [], s => some (s, .findActiveByParticipant .responder draft)
  | .scan .responder draft [], s => some (s, .existsBetween draft)
  | .existsBetween draft, s =>
      if draft.answers.existsBetween then some (s, .failed "PENDING_REQUEST_EXISTS")
      else some (s, .loadParticipants draft)
  | .loadParticipants draft, s => some (s, .save draft s.now)
  | .save draft now, s =>
      some (s.exec draft.answers.randomUUID (.save (cfg.newPendingSession draft now)),
        .request draft.answers.randomUUID ⟨[.expire, .elsewhere, .elsewhere], none⟩)
  | .failed _, _ => none

/-- Time passes, or the key of a session runs out of its time to live. -/
inductive Move where
  | tick (ms : Nat)
  | lapse (sessionId : String)

def Config.server (cfg : Config) : Server Store Call Move where
  opens p :=
    match p with
    | .request _ call => call.todo.isEmpty && call.next.any Handler.opens
    | .invite (.save ..) _ _ => true
    | .invite (.redeem redeemer _) participant _ => redeemer = participant.internalId.val
    | .createSession .. => true
    | _ => false
  step := cfg.step
  env m s :=
    match m with
    | .tick ms => some { s with now := s.now + ms }
    | .lapse sessionId => some (s.put sessionId none)

abbrev State := Conf Store Call

/-! ## What creations have still to look at -/

/-- A creation that has begun to look for a live session of the user, and the keys that
it has still to read. -/
def Call.unseen (userId : String) : Call → Option (List String)
  | .scan .initiator draft keys =>
      if draft.initiator.internalId.val = userId then some keys else none
  | .findActiveByParticipant .responder draft =>
      if draft.initiator.internalId.val = userId then some [] else none
  | .scan .responder draft keys =>
      if draft.initiator.internalId.val = userId then some []
      else if draft.recipient.val = userId then some keys else none
  | .existsBetween draft | .loadParticipants draft | .save draft _ =>
      if draft.initiator.internalId.val = userId ∨ draft.recipient.val = userId then some []
      else none
  | _ => none

/-- No user is in two live sessions. -/
def InOneSession (cfg : Config) (s : Store) : Prop :=
  ∀ u id id', cfg.active s u id = true → cfg.active s u id' = true → id = id'

/-- No live session escapes a creation under way. -/
structure Covered (cfg : Config) (c : State) : Prop where
  single : InOneSession cfg c.store
  unseen : ∀ p ∈ c.pool, ∀ u keys, p.unseen u = some keys →
    ∀ id, cfg.active c.store u id = true → id ∈ keys

/-! ## Orderly runs -/

/-- No other creation has begun to look for a live session of the user. -/
def Unwatched (c : State) (i : Nat) (userId : String) : Prop :=
  ∀ j q, j ≠ i → c.pool[j]? = some q → q.unseen userId = none

/-- The commands of handlers that can make a session live. -/
def revives : Command → Bool
  | .save _ => true
  | .setStatus status => status ≠ .burned && status ≠ .expired
  | _ => false

/-- The hash that a command leaves names the user. -/
def Config.names (cfg : Config) (s : Store) (sessionId : String) (command : Command)
    (userId : String) : Bool :=
  command.fields.any fun fields =>
    (cfg.sessions.mapToSession s.now
      (fields.merge ((s.sessions.lookup sessionId).getD {}))).isParticipant userId

/-- A new session is saved while no other creation with one of its participants is under
way; where a handler writes a whole session or sets it active, the session is still live
for its participants, or they have no other and no creation looks for one. -/
def Orderly (cfg : Config) (c : State) : Action Call Move → Prop
  | .turn i => ∀ p, c.pool[i]? = some p →
      match p with
      | .save draft _ => ∀ role, Unwatched c i (draft.user role).val
      | .request sessionId ⟨command :: _, _⟩ => revives command = true →
          ∀ u, cfg.names c.store sessionId command u = true →
            cfg.active c.store u sessionId = true
              ∨ (∀ id, cfg.active c.store u id = true → id = sessionId) ∧ Unwatched c i u
      | _ => True
  | _ => True

/-! ## What commands do to live sessions -/

section Commands

variable {cfg : Config} {s : Store} {u id sessionId : String} {command : Command}

theorem isActive_congr {now : Nat} {hash hash' : SessionHash}
    (hi : hash'.initiatorInternalId = hash.initiatorInternalId)
    (hit : hash'.initiatorTelegramId = hash.initiatorTelegramId)
    (hio : hash'.initiatorId = hash.initiatorId)
    (hr : hash'.responderInternalId = hash.responderInternalId)
    (hrt : hash'.responderTelegramId = hash.responderTelegramId)
    (hro : hash'.responderId = hash.responderId) (hs : hash'.status = hash.status)
    (hc : hash'.createdAt = hash.createdAt) :
    cfg.isActive now u hash' = cfg.isActive now u hash := by
  cases hash
  cases hash'
  dsimp only at *
  subst_vars
  rfl

theorem active_put_of_ne {hash : Option SessionHash} (h : id ≠ sessionId) :
    cfg.active (s.put sessionId hash) u id = cfg.active s u id := by
  rw [Config.active, Store.lookup_put, if_neg h, Config.active]
  rfl

theorem active_put_self {hash : Option SessionHash} :
    cfg.active (s.put sessionId hash) u sessionId = hash.any (cfg.isActive s.now u) := by
  rw [Config.active, Store.lookup_put, if_pos rfl]
  rfl

/-- A hash that names nobody is nobody's live session. -/
theorem isActive_nobody {now : Nat} {hash : SessionHash} (hi : hash.initiatorInternalId = none)
    (hit : hash.initiatorTelegramId = none) (hio : hash.initiatorId = none)
    (hr : hash.responderInternalId = none) (hrt : hash.responderTelegramId = none)
    (hro : hash.responderId = none) : cfg.isActive now u hash = false := by
  simp [Config.isActive, Session.isParticipant, Session.isInitiator, Session.isResponder,
    Sessions.Config.mapToSession, Sessions.Config.internalId, hi, hit, hio, hr, hrt, hro, hasText]

/-- The fields that say whose session it is and whether it is live. -/
def vital (fields : SessionHash) : Bool :=
  fields.initiatorInternalId.isSome || fields.initiatorTelegramId.isSome
    || fields.initiatorId.isSome || fields.responderInternalId.isSome
    || fields.responderTelegramId.isSome || fields.responderId.isSome || fields.status.isSome
    || fields.createdAt.isSome

/-- A write of other fields makes no session live. -/
theorem isActive_merge {now : Nat} {fields : SessionHash} {hash : Option SessionHash}
    (hv : vital fields = false) (h : cfg.isActive now u (fields.merge (hash.getD {})) = true) :
    hash.any (cfg.isActive now u) = true := by
  simp only [vital, Bool.or_eq_false_iff, Option.isSome_eq_false_iff, Option.isNone_iff_eq_none] at hv
  obtain ⟨⟨⟨⟨⟨⟨⟨hi, hit⟩, hio⟩, hr⟩, hrt⟩, hro⟩, hs⟩, hc⟩ := hv
  cases hash with
  | none =>
      rw [isActive_nobody (by simp [SessionHash.merge, hi]) (by simp [SessionHash.merge, hit])
        (by simp [SessionHash.merge, hio]) (by simp [SessionHash.merge, hr])
        (by simp [SessionHash.merge, hrt]) (by simp [SessionHash.merge, hro])] at h
      cases h
  | some hash =>
      have heq : cfg.isActive now u (fields.merge hash) = cfg.isActive now u hash :=
        isActive_congr (by simp [SessionHash.merge, hi]) (by simp [SessionHash.merge, hit])
          (by simp [SessionHash.merge, hio]) (by simp [SessionHash.merge, hr])
          (by simp [SessionHash.merge, hrt]) (by simp [SessionHash.merge, hro])
          (by simp [SessionHash.merge, hs]) (by simp [SessionHash.merge, hc])
      rw [Option.getD_some, heq] at h
      exact h

/-- A session that is live after a command was so before, or the command revives it. -/
theorem active_exec (h : cfg.active (s.exec sessionId command) u id = true) :
    cfg.active s u id = true
      ∨ id = sessionId ∧ revives command = true ∧ cfg.names s sessionId command u = true := by
  by_cases hid : id = sessionId
  case neg =>
    rw [Store.exec, active_put_of_ne hid] at h
    exact .inl h
  subst hid
  rw [Store.exec, active_put_self] at h
  have hnames : ∀ fields, command.fields = some fields →
      cfg.names s id command u = true := by
    intro fields hf
    simp only [Sessions.Store.exec, hf, Option.any_some, Config.isActive, Bool.and_eq_true] at h
    simp only [Config.names, hf, Option.any_some]
    exact h.1.1.1
  have hother : ∀ fields, command.fields = some fields → vital fields = false →
      cfg.active s u id = true := by
    intro fields hf hv
    simp only [Sessions.Store.exec, hf, Option.any_some] at h
    exact isActive_merge hv h
  cases command with
  | save session => exact .inr ⟨rfl, rfl, hnames _ rfl⟩
  | setStatus status =>
      by_cases hdead : status = .burned ∨ status = .expired
      · exfalso
        rcases hdead with rfl | rfl <;>
          simp [Sessions.Store.exec, Command.fields, Config.isActive,
            Sessions.Config.mapToSession, SessionHash.merge] at h
      · exact .inr ⟨rfl, by simpa [revives] using not_or.mp hdead, hnames _ rfl⟩
  | setPublicKey role key => cases role <;> exact .inl (hother _ rfl rfl)
  | setVerified role verified => cases role <;> exact .inl (hother _ rfl rfl)
  | setLastActivity | setHandshakeCompleted | setMessageTtl => exact .inl (hother _ rfl rfl)
  | clearPublicKeys =>
      simp only [Sessions.Store.exec, Command.fields, Store.view] at h
      obtain ⟨hash', hhash', hactive⟩ := (Option.any_eq_true _ _).mp h
      obtain ⟨hash, hhash, hclear⟩ := Option.bind_eq_some_iff.mp hhash'
      refine .inl ?_
      rw [Config.active, hhash, Option.any_some]
      simp only [SessionHash.clearPublicKeys] at hclear
      split at hclear
      · cases hclear
      · obtain rfl := Option.some.inj hclear
        exact hactive
  | delete burn =>
      simp [Sessions.Store.exec, Command.fields] at h
  | expire | send | elsewhere => exact .inl h

/-- Time makes no session live. -/
theorem active_tick {ms : Nat}
    (h : cfg.active { s with now := s.now + ms } u id = true) : cfg.active s u id = true := by
  obtain ⟨hash, hhash, hactive⟩ := (Option.any_eq_true _ _).mp h
  rw [Config.active, show s.sessions.lookup id = some hash from hhash, Option.any_some]
  simp only [Config.isActive, Config.isLogicallyExpiredPending, Bool.and_eq_true] at hactive ⊢
  refine ⟨hactive.1, ?_⟩
  have hpending := hactive.2
  simp only [Sessions.Config.mapToSession, Session.isExpired, Bool.not_eq_true',
    Bool.and_eq_false_iff] at hpending ⊢
  refine hpending.imp_right fun hle => decide_eq_false fun hlt => of_decide_eq_false hle ?_
  rcases Option.eq_none_or_eq_some hash.createdAt with hcreated | ⟨t, hcreated⟩
  · rw [hcreated, Option.getD_none] at hlt
    omega
  · rw [hcreated, Option.getD_some] at hlt ⊢
    exact Nat.lt_of_lt_of_le hlt (Nat.le_add_right s.now ms)

theorem active_lapse (h : cfg.active (s.put sessionId none) u id = true) :
    cfg.active s u id = true := by
  by_cases hid : id = sessionId
  · subst hid
    rw [active_put_self] at h
    cases h
  · rwa [active_put_of_ne hid] at h

theorem mem_keys_of_active (h : cfg.active s u id = true) : id ∈ s.sessions.keys := by
  obtain ⟨hash, hhash, -⟩ := (Option.any_eq_true _ _).mp h
  exact AList.mem_keys.mpr (AList.lookup_isSome.mp (by rw [hhash]; rfl))

/-- A new session is live for its two participants only. -/
theorem names_newPendingSession {draft : Draft} {now : Nat}
    (h : cfg.names s sessionId (.save (cfg.newPendingSession draft now)) u = true) :
    ∃ role, (draft.user role).val = u := by
  have hi : hasText (some draft.initiator.internalId.val) = true := by
    simp [hasText, draft.initiator.internalId.2]
  have hr : hasText (some draft.recipient.val) = true := by
    simp [hasText, draft.recipient.2]
  have hor : ∀ (text : String) (old : Option String), (some text <|> old) = some text :=
    fun _ _ => rfl
  simp only [Config.names, Command.fields, Option.any_some, Session.toMap, SessionHash.merge,
    Config.newPendingSession, Sessions.Config.mapToSession, Sessions.Config.internalId,
    Session.isParticipant, Session.isInitiator, Session.isResponder, hor, hi, hr,
    if_true, Bool.or_eq_true, beq_iff_eq, Option.some.injEq] at h
  rcases h with h | h
  · exact ⟨.initiator, h⟩
  · exact ⟨.responder, h⟩

end Commands

/-! ## Steps -/

section Steps

variable {cfg : Config} {c : State} {s' : Store} {i : Nat} {p p' : Call} {u : String}

/-- A step that may make a session live for users who have no other, and for whom nobody
else looks. -/
theorem Covered.turn (h : Covered cfg c) (hi : c.pool[i]? = some p) (sessionId : String)
    (hs : ∀ u id, cfg.active s' u id = true → cfg.active c.store u id = true
      ∨ id = sessionId ∧ (∀ id', cfg.active c.store u id' = true → id' = sessionId)
        ∧ Unwatched c i u)
    (hp' : ∀ u keys, p'.unseen u = some keys → ∀ id, cfg.active s' u id = true → id ∈ keys) :
    Covered cfg ⟨s', c.pool.set i p'⟩ where
  single := by
    intro u id id' hid hid'
    rcases hs u id hid with hold | ⟨rfl, hnew, -⟩
    · rcases hs u id' hid' with hold' | ⟨rfl, hnew', -⟩
      · exact h.single u id id' hold hold'
      · exact hnew' id hold
    · rcases hs u id' hid' with hold' | ⟨rfl, -, -⟩
      · exact (hnew id' hold').symm
      · rfl
  unseen := by
    intro q hq u keys hkeys id hid
    obtain ⟨j, hj⟩ := List.mem_iff_getElem?.mp hq
    by_cases hji : j = i
    · subst hji
      rw [List.getElem?_set_self (List.getElem?_eq_some_iff.mp hi).1] at hj
      obtain rfl := Option.some.inj hj
      exact hp' u keys hkeys id hid
    · rw [List.getElem?_set_ne (Ne.symm hji)] at hj
      rcases hs u id hid with hold | ⟨-, -, hun⟩
      · exact h.unseen q (List.mem_of_getElem? hj) u keys hkeys id hold
      · rw [hun j q hji hj] at hkeys
        cases hkeys

/-- A step that makes no session live. -/
theorem Covered.quiet (h : Covered cfg c) (hi : c.pool[i]? = some p)
    (hs : ∀ u id, cfg.active s' u id = true → cfg.active c.store u id = true)
    (hp' : ∀ u keys, p'.unseen u = some keys →
      ∀ id, cfg.active c.store u id = true → id ∈ keys) :
    Covered cfg ⟨s', c.pool.set i p'⟩ :=
  h.turn hi "" (fun u id hid => .inl (hs u id hid)) fun u keys hkeys id hid =>
    hp' u keys hkeys id (hs u id hid)

theorem Covered.mono (h : Covered cfg c)
    (hs : ∀ u id, cfg.active s' u id = true → cfg.active c.store u id = true) :
    Covered cfg ⟨s', c.pool⟩ where
  single u id id' hid hid' := h.single u id id' (hs u id hid) (hs u id' hid')
  unseen q hq u keys hkeys id hid := h.unseen q hq u keys hkeys id (hs u id hid)

/-- A creation takes a step on; what it still had to look at is behind it or before it. -/
theorem Covered.carry (h : Covered cfg c) (hi : c.pool[i]? = some p)
    (hp' : ∀ u keys, p'.unseen u = some keys → ∃ old, p.unseen u = some old
      ∧ ∀ id ∈ old, cfg.active c.store u id = true → id ∈ keys) :
    Covered cfg ⟨c.store, c.pool.set i p'⟩ := by
  refine h.quiet hi (fun _ _ hid => hid) fun u keys hkeys id hid => ?_
  obtain ⟨old, hold, hsub⟩ := hp' u keys hkeys
  exact hsub id (h.unseen p (List.mem_of_getElem? hi) u old hold id hid) hid

theorem Covered.request {sessionId : String} {call : Sessions.Call} (h : Covered cfg c)
    (hg : Orderly cfg c (.turn i)) (hi : c.pool[i]? = some (.request sessionId call))
    (hs : cfg.step (.request sessionId call) c.store = some (s', p')) :
    Covered cfg ⟨s', c.pool.set i p'⟩ := by
  obtain ⟨⟨t, call'⟩, hstep, heq⟩ := Option.map_eq_some_iff.mp hs
  obtain ⟨rfl, rfl⟩ := Prod.mk.inj heq
  obtain ⟨todo, next⟩ := call
  cases todo with
  | cons command todo =>
      obtain ⟨rfl, -⟩ := Prod.mk.inj (Option.some.inj hstep)
      refine h.turn hi sessionId (fun u id hid => ?_) fun _ _ hkeys => by cases hkeys
      rcases active_exec hid with hold | ⟨rfl, hrevives, hnames⟩
      · exact .inl hold
      · exact (hg _ hi hrevives u hnames).imp_right fun hnew => ⟨rfl, hnew⟩
  | nil =>
      cases next with
      | none => cases hstep
      | some handler =>
          obtain ⟨rfl, -⟩ := Prod.mk.inj (Option.some.inj hstep)
          refine h.quiet hi (fun u id hid => ?_) fun _ _ hkeys => by cases hkeys
          by_cases hsame : id = sessionId
          · subst hsame
            rwa [active_put_self] at hid
          · rwa [active_put_of_ne hsame] at hid

theorem step_invite {call : DmInvite.Call} {participant : ParticipantContext} {answers : Answers}
    {s : Store} (hs : cfg.step (.invite call participant answers) s = some (s', p')) :
    (∀ u id, cfg.active s' u id = cfg.active s u id) ∧ ∀ u, p'.unseen u = none := by
  cases call with
  | createSession redeemer token =>
      obtain ⟨rfl, rfl⟩ := Prod.mk.inj (Option.some.inj hs)
      exact ⟨fun _ _ => rfl, fun _ => rfl⟩
  | _ =>
      rw [Config.step] at hs
      · obtain ⟨r, -, heq⟩ := Option.map_eq_some_iff.mp hs
        obtain ⟨rfl, rfl⟩ := Prod.mk.inj heq
        exact ⟨fun _ _ => rfl, fun _ => rfl⟩
      · exact fun _ _ h => by cases h

theorem Covered.scan {role : Role} {draft : Draft} {keys : List String} (h : Covered cfg c)
    (hi : c.pool[i]? = some (.scan role draft keys))
    (hs : cfg.step (.scan role draft keys) c.store = some (s', p')) :
    Covered cfg ⟨s', c.pool.set i p'⟩ := by
  cases keys with
  | nil =>
      cases role with
      | initiator =>
          obtain ⟨rfl, rfl⟩ := Prod.mk.inj (Option.some.inj hs)
          exact h.carry hi fun u keys hkeys => ⟨keys, hkeys, fun _ hid _ => hid⟩
      | responder =>
          obtain ⟨rfl, rfl⟩ := Prod.mk.inj (Option.some.inj hs)
          refine h.carry hi fun u keys hkeys => ⟨[], ?_, fun _ hid _ => by cases hid⟩
          simp only [Call.unseen] at hkeys ⊢
          grind
  | cons key keys =>
      simp only [Config.step] at hs
      split at hs
      · obtain ⟨rfl, rfl⟩ := Prod.mk.inj (Option.some.inj hs)
        exact h.carry hi fun u keys hkeys => by cases hkeys
      · rename_i hdead
        obtain ⟨rfl, rfl⟩ := Prod.mk.inj (Option.some.inj hs)
        -- the key just read is not live for the user
        have hrest : ∀ id ∈ key :: keys,
            cfg.active c.store (draft.user role).val id = true → id ∈ keys := by
          intro id hid hlive
          rcases List.mem_cons.mp hid with rfl | hid
          · exact absurd hlive hdead
          · exact hid
        refine h.carry hi fun u keys' hkeys => ?_
        cases role with
        | initiator =>
            simp only [Call.unseen] at hkeys ⊢
            split at hkeys
            · rename_i hu
              obtain rfl := Option.some.inj hkeys
              exact ⟨_, if_pos hu, hu ▸ hrest⟩
            · cases hkeys
        | responder =>
            simp only [Call.unseen] at hkeys ⊢
            split at hkeys
            · rename_i hu
              exact ⟨_, if_pos hu, fun _ hid => by cases hid⟩
            · rename_i hu
              split at hkeys
              · rename_i hu'
                obtain rfl := Option.some.inj hkeys
                exact ⟨_, by rw [if_neg hu, if_pos hu'], hu' ▸ hrest⟩
              · cases hkeys

theorem Covered.step (h : Covered cfg c) (hg : Orderly cfg c (.turn i))
    (hi : c.pool[i]? = some p) (hs : cfg.step p c.store = some (s', p')) :
    Covered cfg ⟨s', c.pool.set i p'⟩ := by
  cases p with
  | request sessionId call => exact h.request hg hi hs
  | invite call participant answers =>
      obtain ⟨hactive, hunseen⟩ := step_invite hs
      refine h.quiet hi (fun u id hid => hactive u id ▸ hid) fun u keys hkeys => ?_
      rw [hunseen] at hkeys
      cases hkeys
  | createSession initiator request answers =>
      simp only [Config.step] at hs
      split at hs <;>
        (obtain ⟨rfl, rfl⟩ := Prod.mk.inj (Option.some.inj hs)
         exact h.carry hi fun u keys hkeys => by cases hkeys)
  | findActiveByParticipant role draft =>
      obtain ⟨rfl, rfl⟩ := Prod.mk.inj (Option.some.inj hs)
      -- a session that is live now is among the keys
      have hlisted : ∀ u id, cfg.active c.store u id = true →
          id ∈ draft.answers.order role c.store.sessions.keys := fun u id hid =>
        (draft.answers.order_perm role _).mem_iff.mpr (mem_keys_of_active hid)
      refine h.quiet hi (fun _ _ hid => hid) fun u keys hkeys id hid => ?_
      cases role with
      | initiator =>
          simp only [Call.unseen] at hkeys
          split at hkeys
          · obtain rfl := Option.some.inj hkeys
            exact hlisted u id hid
          · cases hkeys
      | responder =>
          simp only [Call.unseen] at hkeys
          split at hkeys
          · rename_i hu
            exact h.unseen _ (List.mem_of_getElem? hi) u keys (hkeys ▸ if_pos hu) id hid
          · split at hkeys
            · obtain rfl := Option.some.inj hkeys
              exact hlisted u id hid
            · cases hkeys
  | scan role draft keys => exact h.scan hi hs
  | existsBetween draft =>
      simp only [Config.step] at hs
      split at hs
      · obtain ⟨rfl, rfl⟩ := Prod.mk.inj (Option.some.inj hs)
        exact h.carry hi fun u keys hkeys => by cases hkeys
      · obtain ⟨rfl, rfl⟩ := Prod.mk.inj (Option.some.inj hs)
        exact h.carry hi fun u keys hkeys => ⟨keys, hkeys, fun _ hid _ => hid⟩
  | loadParticipants draft =>
      obtain ⟨rfl, rfl⟩ := Prod.mk.inj (Option.some.inj hs)
      exact h.carry hi fun u keys hkeys => ⟨keys, hkeys, fun _ hid _ => hid⟩
  | save draft now =>
      obtain ⟨rfl, rfl⟩ := Prod.mk.inj (Option.some.inj hs)
      refine h.turn hi draft.answers.randomUUID (fun u id hid => ?_) fun _ _ hkeys => by cases hkeys
      rcases active_exec hid with hold | ⟨rfl, -, hnames⟩
      · exact .inl hold
      · obtain ⟨role, rfl⟩ := names_newPendingSession hnames
        refine .inr ⟨rfl, fun id' hid' => ?_, hg _ hi role⟩
        -- the scans are over and have found nothing
        have hnone := h.unseen _ (List.mem_of_getElem? hi) (draft.user role).val []
          (if_pos (by cases role <;> simp [Draft.user])) id' hid'
        cases hnone
  | failed code => cases hs

theorem covered_preserved (cfg : Config) : cfg.server.Preserves (Orderly cfg) (Covered cfg) where
  start c p h _ hp := by
    refine ⟨h.single, forall_start h.unseen fun u keys hkeys => ?_⟩
    cases p with
    | request | invite | createSession => cases hkeys
    | _ => cases hp
  turn c i p s' p' h hg hi hs := h.step hg hi hs
  env c e s' h _ hs := by
    cases e with
    | tick ms =>
        obtain rfl := Option.some.inj hs
        exact h.mono fun _ _ => active_tick
    | lapse sessionId =>
        obtain rfl := Option.some.inj hs
        exact h.mono fun _ _ => active_lapse

/-- No user comes to be in two live sessions. -/
theorem in_one_session {s : Store} (hs : InOneSession cfg s)
    (h : cfg.server.Run (Orderly cfg) ⟨s, []⟩ c) : InOneSession cfg c.store :=
  (h.invariant (covered_preserved cfg) ⟨hs, fun _ hp => by cases hp⟩).single

end Steps

/-! ## Creations one after the other, and crossing ones -/

def Config.participants (cfg : Config) (s : Store) (sessionId : String) (command : Command) :
    List String :=
  match command.fields with
  | none => []
  | some fields =>
      let session := cfg.sessions.mapToSession s.now
        (fields.merge ((s.sessions.lookup sessionId).getD {}))
      session.initiatorInternalId.toList ++ session.responderInternalId.toList

/-- Enough for a step to be orderly. -/
def heeds (cfg : Config) (c : State) : Action Call Move → Bool
  | .turn i =>
      match c.pool[i]? with
      | some (.save draft _) => (c.pool.eraseIdx i).all fun q =>
          (q.unseen draft.initiator.internalId.val).isNone && (q.unseen draft.recipient.val).isNone
      | some (.request sessionId ⟨command :: _, _⟩) => !revives command
          || (cfg.participants c.store sessionId command).all (cfg.active c.store · sessionId)
      | _ => true
  | _ => true

theorem mem_participants {cfg : Config} {s : Store} {sessionId u : String} {command : Command}
    (h : cfg.names s sessionId command u = true) : u ∈ cfg.participants s sessionId command := by
  obtain ⟨fields, hfields, hu⟩ := (Option.any_eq_true _ _).mp h
  simp only [Config.participants, hfields]
  simpa [Session.isParticipant, Session.isInitiator, Session.isResponder] using hu

theorem orderly_of_heeds {cfg : Config} {c : State} {a : Action Call Move}
    (h : heeds cfg c a = true) : Orderly cfg c a := by
  cases a with
  | turn i =>
      intro p hi
      simp only [heeds, hi] at h
      cases p with
      | save draft now =>
          intro role j q hj hq
          have hmem : q ∈ c.pool.eraseIdx i :=
            List.mem_eraseIdx_iff_getElem?.mpr ⟨j, hj, hq⟩
          have hnone := Bool.and_eq_true_iff.mp (List.all_eq_true.mp h q hmem)
          cases role with
          | initiator => exact Option.isNone_iff_eq_none.mp hnone.1
          | responder => exact Option.isNone_iff_eq_none.mp hnone.2
      | request sessionId call =>
          obtain ⟨todo, next⟩ := call
          cases todo with
          | nil => trivial
          | cons command todo =>
              intro hrevives u hu
              have hall : ∀ v ∈ cfg.participants c.store sessionId command,
                  cfg.active c.store v sessionId = true := by
                simpa [hrevives] using h
              exact .inl (hall u (mem_participants hu))
      | _ => trivial
  | _ => trivial

def sampleConfig : Config := ⟨300000, fun _ => ⟨"tg", by decide⟩, id⟩

def ada : ParticipantContext := ⟨⟨"ada", by decide⟩, some 1⟩

def ben : ParticipantContext := ⟨⟨"ben", by decide⟩, some 2⟩

def emptyStore : Store := ⟨0, ∅, (DmInvite.init 0).store⟩

theorem inOneSession_emptyStore : InOneSession sampleConfig emptyStore :=
  fun _ _ _ h => by cases h

/-- A creation arrives and takes as many steps. -/
def creates (initiator recipient : ParticipantContext) (sessionId : String) (i steps : Nat) :
    List (Action Call Move) :=
  .start (.createSession initiator { recipientId := recipient.telegramId }
      ⟨some recipient.internalId, recipient.telegramId, false, sessionId, fun _ keys => keys,
        fun _ _ => .refl _⟩)
    :: List.replicate steps (.turn i)

/-- `ada` invites `ben`, who accepts and then invites `ada` himself. -/
def inTurn : List (Action Call Move) :=
  creates ada ben "s1" 0 11
    ++ .start (.request "s1" (.arriving (.accept "ben" (some false) none)))
      :: List.replicate 3 (.turn 1)
    ++ creates ben ada "s2" 2 3

theorem refused_while_in_session : ∃ c,
    sampleConfig.server.Run (Orderly sampleConfig) ⟨emptyStore, []⟩ c
      ∧ (c.pool[2]?.any fun p => match p with
        | .failed error => error = "ALREADY_HAS_SESSION"
        | _ => false) = true
      ∧ InOneSession sampleConfig c.store := by
  obtain ⟨c, hrun, hc⟩ := sampleConfig.server.exists_run_of_execWhile (heeds sampleConfig)
    ⟨emptyStore, []⟩ inTurn (fun c => c.pool[2]?.any fun p => match p with
      | .failed error => error = "ALREADY_HAS_SESSION"
      | _ => false) (fun _ _ => orderly_of_heeds) (by decide +kernel)
  exact ⟨c, hrun, hc, in_one_session inOneSession_emptyStore hrun⟩

/-- Creations, redemptions, accepting, rejecting and burning; and keys expire. -/
def arrives : Action Call Move → Bool
  | .start (.request _ call) =>
      match call.next with
      | some (.accept ..) => true
      | some (.reject ..) => true
      | some (.burn ..) => true
      | _ => false
  | _ => true

/-- `ada` and `ben` invite each other, and both scans are over before a session is saved. -/
def crossing : List (Action Call Move) :=
  creates ada ben "s1" 0 7 ++ creates ben ada "s2" 1 7 ++ [.turn 0, .turn 1]

theorem in_two_sessions : ¬ ∀ cfg s c, InOneSession cfg s →
    cfg.server.Run (fun _ a => arrives a = true) ⟨s, []⟩ c → InOneSession cfg c.store := by
  intro hall
  obtain ⟨c, hrun, hc⟩ := sampleConfig.server.exists_run_of_execWhile (fun _ => arrives)
    ⟨emptyStore, []⟩ crossing (fun c => sampleConfig.active c.store "ada" "s1"
      && sampleConfig.active c.store "ada" "s2") (fun _ _ h => h) (by decide +kernel)
  obtain ⟨hfirst, hsecond⟩ := Bool.and_eq_true_iff.mp hc
  have heq : "s1" = "s2" := hall sampleConfig emptyStore c inOneSession_emptyStore hrun
    "ada" "s1" "s2" hfirst hsecond
  exact absurd heq (by decide)

end LiveSessions

end BurnedChats

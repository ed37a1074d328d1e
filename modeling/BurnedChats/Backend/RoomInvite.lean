import BurnedChats.Backend.DmInvite

/-!
# Room invites

`RoomJoinService.requestJoin` validates the invite first, then checks password,
membership and bans, writes the membership or the join request, and counts the
use last, whatever the count says. A call that was validated therefore joins
even when the uses have run out in the meantime; and when the token is gone by
then, it joins without being counted at all.

`join_within_max_uses` says when the limit holds: every call that comes to
count its use finds the token with a use left. That only calls which succeed
consume a use holds in all runs.
-/

namespace BurnedChats

open Interleave

namespace RoomInvite

open DmInvite (shown)

/-- The hash under `invite:{token}`; an absent field is `none`, and so is an
empty `maxUses`. -/
structure InviteHash where
  token : Option String
  roomId : Option String
  createdAt : Option Nat
  expiresAt : Option Nat
  maxUses : Option Int
  usedCount : Option Int

structure InviteToken where
  token : Option String
  roomId : Option String
  expiresAt : Nat
  maxUses : Option Int
  usedCount : Int

/-- `fromHashToStored`; a missing `expiresAt` does not parse, and the token is
not found. -/
def InviteHash.parse (hash : InviteHash) : Option InviteToken :=
  hash.expiresAt.map fun expiresAt =>
    ⟨hash.token, hash.roomId, expiresAt, hash.maxUses, hash.usedCount.getD 0⟩

def isUnlimited (maxUses : Option Int) : Bool :=
  match maxUses with
  | none => true
  | some n => n ≤ 0

def isExhausted (token : InviteToken) : Bool :=
  match token.maxUses with
  | none => false
  | some n => !isUnlimited (some n) && n ≤ token.usedCount

/-- `normalizeMaxUses`. -/
def normalizeMaxUses (maxUses : Option Int) : Option Int :=
  if isUnlimited maxUses then none else maxUses

/-! ## Rooms -/

inductive JoinMode where
  | byPassword | byRequest
deriving DecidableEq

structure Room where
  id : String
  ownerInternalId : Option String
  passwordProofHash : Option String
  joinMode : JoinMode

/-- The keys of rooms that a join reads or writes. Their times to live, and what
other requests do to them, are moves of the surroundings. -/
structure Rooms where
  room : String → Option Room
  members : String → List String
  bans : String → List String
  requests : List (String × String)
  publicKeys : List (String × String × String)
  passwordFails : String → Nat

/-- The writes of a join; `touch` is a command that only sets a time to live, or
reads the room to choose one. -/
inductive Write where
  | member (roomId user : String)
  | publicKey (roomId user key : String)
  | request (roomId user : String)
  | touch

def Rooms.apply (rooms : Rooms) : Write → Rooms
  | .member roomId user =>
      let members := user :: (rooms.members roomId).erase user
      { rooms with members := Function.update rooms.members roomId members }
  | .publicKey roomId user key =>
      { rooms with publicKeys := (roomId, user, key) :: rooms.publicKeys }
  | .request roomId user => { rooms with requests := (roomId, user) :: rooms.requests }
  | .touch => rooms

structure JoinAttempt where
  senderInternalId : String
  inviteToken : String
  passwordProof : Option String
  senderPublicKey : Option String

/-- `joinByPassword`: membership in both directions with its times to live, the
public key, the room and the bans. -/
def joinByPassword (room : Room) (a : JoinAttempt) : List Write :=
  ([.member room.id a.senderInternalId, .touch, .touch, .touch] : List Write)
    ++ (match a.senderPublicKey with
      | none => []
      | some key => if isBlank key then [] else [.publicKey room.id a.senderInternalId key, .touch])
    ++ ([.touch, .touch, .touch] : List Write)

/-- `joinByRequest`, once no request is pending: the hash, its index and their
times to live. -/
def joinByRequest (room : Room) (a : JoinAttempt) : List Write :=
  [.request room.id a.senderInternalId, .touch, .touch, .touch]

/-! ## Requests -/

inductive JoinError where
  | invalidToken | inviteExpired | inviteExhausted | wrongPassword | alreadyMember | userBanned
  | requestPending | rateLimited
deriving DecidableEq

inductive JoinResult where
  | approved (roomId : String) | pending (roomId : String)
deriving DecidableEq

/-- `passwordFailLimit` is the budget of `ROOM_PASSWORD_FAIL`; `verifyProof` is
the digest comparison. -/
structure Config where
  passwordFailLimit : Nat
  verifyProof : String → String → Bool

/-- `tokens` are the keys `invite:{token}`. `minted` remembers the limit of a
token, `consumed` the uses taken from it. -/
structure Store where
  now : Nat
  tokens : Keyspace String InviteHash
  rooms : Rooms
  minted : String → Option (Option Int)
  consumed : String → Nat

/-- A call of `requestJoin`, by its next command, or an invite being saved.
`returned` remembers whether the call has consumed a use. -/
inductive Call where
  | save (token roomId : String) (expiresAt : Nat) (maxUses : Option Int)
  | saveExpire (token : String) (expiresAt : Nat)
  | saved
  | requestJoin (a : JoinAttempt)
  | validateInviteToken (a : JoinAttempt) (token : InviteToken)
  | refuse (a : JoinAttempt) (token : InviteToken) (error : JoinError)
  | refuseIndex (a : JoinAttempt) (error : JoinError)
  | findRoom (a : JoinAttempt) (token : InviteToken)
  | checkRateLimit (a : JoinAttempt) (room : Room) (proofHash : String)
  | resetRateLimit (a : JoinAttempt) (room : Room)
  | isMember (a : JoinAttempt) (room : Room)
  | ensureNotBanned (a : JoinAttempt) (room : Room)
  | requestExists (a : JoinAttempt) (room : Room)
  | writing (a : JoinAttempt) (todo : List Write) (result : JoinResult)
  | consumeInviteUse (a : JoinAttempt) (result : JoinResult)
  | incrementUseCount (a : JoinAttempt) (token : InviteToken) (result : JoinResult)
  | deleteToken (a : JoinAttempt) (result : JoinResult)
  | deleteIndex (a : JoinAttempt) (result : JoinResult)
  | returned (a : JoinAttempt) (result : JoinResult) (counted : Bool)
  | failed (a : JoinAttempt) (error : JoinError)

/-- `HINCRBY usedCount 1`. -/
def bump (hash : Option InviteHash) : InviteHash :=
  match hash with
  | some h => { h with usedCount := some (h.usedCount.getD 0 + 1) }
  | none => ⟨none, none, none, none, none, some 1⟩

def passwordFailKey (roomId senderInternalId : String) : String :=
  roomId ++ ":" ++ senderInternalId

def Store.findByToken (s : Store) (token : String) : Option InviteToken :=
  (s.tokens.get? s.now token).bind InviteHash.parse

/-- The first command of `deleteTokenAndIndex`; the second removes the token from
`room_invites:{roomId}`, which no join reads. -/
def Store.deleteToken (s : Store) (token : String) : Store :=
  { s with tokens := s.tokens.del token }

def Config.step (cfg : Config) : Call → Store → Option (Store × Call)
  | .save token roomId expiresAt maxUses, s =>
      -- the token is random: never one saved before
      if (s.minted token).isSome then none
      else
        let normalized := normalizeMaxUses maxUses
        some ({ s with
          tokens := s.tokens.alter s.now token fun _ =>
            ⟨some token, some roomId, some s.now, some expiresAt, normalized, some 0⟩
          minted := Function.update s.minted token (some normalized) },
          .saveExpire token expiresAt)
  | .saveExpire token expiresAt, s =>
      some ({ s with tokens := s.tokens.expire s.now (max 1000 (expiresAt - s.now)) token }, .saved)
  | .saved, _ => none
  | .requestJoin a, s =>
      match s.findByToken a.inviteToken with
      | none => some (s, .failed a .invalidToken)
      | some token => some (s, .validateInviteToken a token)
  | .validateInviteToken a token, s =>
      if token.expiresAt < s.now then some (s, .refuse a token .inviteExpired)
      else if isExhausted token then some (s, .refuse a token .inviteExhausted)
      else some (s, .findRoom a token)
  | .refuse a token error, s =>
      some (s.deleteToken (shown token.token), .refuseIndex a error)
  | .refuseIndex a error, s => some (s, .failed a error)
  | .findRoom a token, s =>
      match s.rooms.room (shown token.roomId) with
      | none => some (s, .failed a .invalidToken)
      | some room =>
          match room.passwordProofHash with
          | none => some (s, .isMember a room)
          | some hash =>
              if isBlank hash then some (s, .isMember a room)
              else some (s, .checkRateLimit a room hash)
  | .checkRateLimit a room hash, s =>
      let key := passwordFailKey room.id a.senderInternalId
      let count := s.rooms.passwordFails key + 1
      let s' := { s with rooms := { s.rooms with
        passwordFails := Function.update s.rooms.passwordFails key count } }
      if cfg.passwordFailLimit < count then some (s', .failed a .rateLimited)
      else
        match a.passwordProof with
        | none => some (s', .failed a .wrongPassword)
        | some proof =>
            if isBlank proof || !cfg.verifyProof proof hash then
              some (s', .failed a .wrongPassword)
            else some (s', .resetRateLimit a room)
  | .resetRateLimit a room, s =>
      let key := passwordFailKey room.id a.senderInternalId
      some ({ s with rooms := { s.rooms with
        passwordFails := Function.update s.rooms.passwordFails key 0 } }, .isMember a room)
  | .isMember a room, s =>
      if (s.rooms.members room.id).contains a.senderInternalId then
        some (s, .failed a .alreadyMember)
      else some (s, .ensureNotBanned a room)
  | .ensureNotBanned a room, s =>
      if (s.rooms.bans room.id).contains a.senderInternalId then some (s, .failed a .userBanned)
      else
        match room.joinMode with
        | .byPassword => some (s, .writing a (joinByPassword room a) (.approved room.id))
        | .byRequest => some (s, .requestExists a room)
  | .requestExists a room, s =>
      if s.rooms.requests.contains (room.id, a.senderInternalId) then
        some (s, .failed a .requestPending)
      else some (s, .writing a (joinByRequest room a) (.pending room.id))
  | .writing a [] result, s => some (s, .consumeInviteUse a result)
  | .writing a (w :: todo) result, s =>
      some ({ s with rooms := s.rooms.apply w }, .writing a todo result)
  | .consumeInviteUse a result, s =>
      match s.findByToken a.inviteToken with
      | none => some (s, .returned a result false)
      | some token =>
          if isUnlimited token.maxUses then some (s, .returned a result false)
          else some (s, .incrementUseCount a token result)
  | .incrementUseCount a token result, s =>
      let newCount := (bump (s.tokens.get? s.now a.inviteToken)).usedCount.getD 0
      let s' := { s with
        tokens := s.tokens.alter s.now a.inviteToken bump
        consumed := Function.update s.consumed a.inviteToken (s.consumed a.inviteToken + 1) }
      if newCount < 0 then some (s', .returned a result true)
      else if token.maxUses.getD 0 ≤ newCount then some (s', .deleteToken a result)
      else some (s', .returned a result true)
  | .deleteToken a result, s =>
      some (s.deleteToken a.inviteToken, .deleteIndex a result)
  | .deleteIndex a result, s => some (s, .returned a result true)
  | .returned _ _ _, _ => none
  | .failed _ _, _ => none

/-- Other requests: an invite is revoked, rooms and memberships change. -/
inductive Move where
  | tick (ms : Nat)
  | revoke (token : String)
  | others (rooms : Rooms)

def Config.server (cfg : Config) : Server Store Call Move where
  opens p :=
    match p with
    | .save .. => true
    | .requestJoin _ => true
    | _ => false
  step := cfg.step
  env m s :=
    match m with
    | .tick ms => some { s with now := s.now + ms }
    | .revoke token => some (s.deleteToken token)
    | .others rooms => some { s with rooms := rooms }

def init (now : Nat) (rooms : Rooms) : Conf Store Call :=
  ⟨⟨now, .empty, rooms, fun _ => none, fun _ => 0⟩, []⟩

/-! ## What is counted -/

/-- The call has returned `Approved` or `Pending` through the token. -/
def admitted (token : String) : Call → Bool
  | .returned a _ _ => a.inviteToken == token
  | _ => false

/-- The call has consumed a use of the token; all that is left for it to do is
to delete the token and to return. -/
def counted (token : String) : Call → Bool
  | .deleteToken a _ => a.inviteToken == token
  | .deleteIndex a _ => a.inviteToken == token
  | .returned a _ counted => a.inviteToken == token && counted
  | _ => false

/-- The call has returned without consuming a use. -/
def uncounted (token : String) : Call → Bool
  | .returned a _ counted => a.inviteToken == token && !counted
  | _ => false

/-- A call that comes to count its use, in either command, finds the token with
a use left. -/
def usesLeft (c : Conf Store Call) : Action Call Move → Bool
  | .turn i =>
      match c.pool[i]? with
      | some (.consumeInviteUse a _) =>
          (c.store.findByToken a.inviteToken).any fun t => !isExhausted t
      | some (.incrementUseCount a _ _) =>
          (c.store.findByToken a.inviteToken).any fun t => !isExhausted t
      | _ => true
  | _ => true

/-! ## One command -/

/-- Values of stored tokens stay, and nothing is counted. -/
structure Calm (s s' : Store) (p p' : Call) : Prop where
  tokens : ∀ token e', s'.tokens token = some e' →
    ∃ e, s.tokens token = some e ∧ e'.value = e.value
  minted : s'.minted = s.minted
  consumed : s'.consumed = s.consumed
  counted : ∀ token, counted token p' = counted token p
  uncounted : ∀ token, uncounted token p' = uncounted token p

theorem Calm.of_same {s s' : Store} {p p' : Call} (ht : s'.tokens = s.tokens)
    (hm : s'.minted = s.minted) (hc : s'.consumed = s.consumed)
    (h₁ : ∀ token, RoomInvite.counted token p' = RoomInvite.counted token p)
    (h₂ : ∀ token, RoomInvite.uncounted token p' = RoomInvite.uncounted token p) :
    Calm s s' p p' :=
  ⟨fun _ e' he => ⟨e', ht ▸ he, rfl⟩, hm, hc, h₁, h₂⟩

theorem Calm.of_delete {s : Store} {p p' : Call} (key : String)
    (h₁ : ∀ token, RoomInvite.counted token p' = RoomInvite.counted token p)
    (h₂ : ∀ token, RoomInvite.uncounted token p' = RoomInvite.uncounted token p) :
    Calm s (s.deleteToken key) p p' := by
  refine ⟨fun token e' he => ?_, rfl, rfl, h₁, h₂⟩
  have hne : token ≠ key := by
    rintro rfl
    simp [Store.deleteToken] at he
  simp only [Store.deleteToken, Keyspace.del_other hne] at he
  exact ⟨e', he, rfl⟩

/-- A save, one of the two commands that count a use, or a calm step. -/
theorem Config.step_cases {cfg : Config} {p p' : Call} {s s' : Store}
    (hs : cfg.step p s = some (s', p')) :
    (∃ token roomId expiresAt maxUses, p = .save token roomId expiresAt maxUses)
      ∨ (∃ a result, p = .consumeInviteUse a result)
      ∨ (∃ a token result, p = .incrementUseCount a token result)
      ∨ Calm s s' p p' := by
  have done : ∀ {x : Store × Call}, some x = some (s', p') → s' = x.1 ∧ p' = x.2 :=
    fun h => by cases h; exact ⟨rfl, rfl⟩
  cases p with
  | save token roomId expiresAt maxUses => exact .inl ⟨_, _, _, _, rfl⟩
  | consumeInviteUse a result => exact .inr (.inl ⟨_, _, rfl⟩)
  | incrementUseCount a token result => exact .inr (.inr (.inl ⟨_, _, _, rfl⟩))
  | saveExpire token expiresAt =>
      obtain ⟨rfl, rfl⟩ := done hs
      refine .inr (.inr (.inr ⟨fun token' e' he => ?_, rfl, rfl, fun _ => rfl, fun _ => rfl⟩))
      dsimp only at he
      by_cases hne : token' = token
      · subst hne
        rcases Keyspace.expire_eq_some he with ⟨-, he⟩ | ⟨e, hfind, rfl⟩
        · exact ⟨e', he, rfl⟩
        · exact ⟨e, (Keyspace.find?_eq_some.mp hfind).1, rfl⟩
      · rw [Keyspace.expire_other _ _ hne] at he
        exact ⟨e', he, rfl⟩
  | refuse a token error =>
      obtain ⟨rfl, rfl⟩ := done hs
      exact .inr (.inr (.inr (.of_delete _ (fun _ => rfl) fun _ => rfl)))
  | deleteToken a result =>
      obtain ⟨rfl, rfl⟩ := done hs
      exact .inr (.inr (.inr (.of_delete _ (fun _ => rfl) fun _ => rfl)))
  | deleteIndex a result =>
      obtain ⟨rfl, rfl⟩ := done hs
      refine .inr (.inr (.inr (.of_same rfl rfl rfl (fun _ => ?_) fun _ => ?_)))
      · simp [RoomInvite.counted]
      · simp [RoomInvite.uncounted]
  | requestJoin a | validateInviteToken a token | findRoom a token | checkRateLimit a room hash
  | isMember a room | ensureNotBanned a room | requestExists a room =>
      refine .inr (.inr (.inr ?_))
      simp only [step] at hs
      repeat' split at hs
      all_goals
        obtain ⟨rfl, rfl⟩ := done hs
        exact .of_same rfl rfl rfl (fun _ => rfl) fun _ => rfl
  | refuseIndex a error | resetRateLimit a room =>
      obtain ⟨rfl, rfl⟩ := done hs
      exact .inr (.inr (.inr (.of_same rfl rfl rfl (fun _ => rfl) fun _ => rfl)))
  | writing a todo result =>
      cases todo with
      | nil =>
          obtain ⟨rfl, rfl⟩ := done hs
          exact .inr (.inr (.inr (.of_same rfl rfl rfl (fun _ => rfl) fun _ => rfl)))
      | cons w todo =>
          obtain ⟨rfl, rfl⟩ := done hs
          exact .inr (.inr (.inr (.of_same rfl rfl rfl (fun _ => rfl) fun _ => rfl)))
  | saved | returned | failed => cases hs

theorem Config.save_ok {cfg : Config} {token roomId : String} {expiresAt : Nat}
    {maxUses : Option Int} {p' : Call} {s s' : Store}
    (hs : cfg.step (.save token roomId expiresAt maxUses) s = some (s', p')) :
    s.minted token = none ∧ p' = .saveExpire token expiresAt ∧ s' = { s with
      tokens := s.tokens.alter s.now token fun _ =>
        ⟨some token, some roomId, some s.now, some expiresAt, normalizeMaxUses maxUses, some 0⟩
      minted := Function.update s.minted token (some (normalizeMaxUses maxUses)) } := by
  simp only [step] at hs
  split at hs
  · cases hs
  · rename_i hfresh
    obtain ⟨rfl, rfl⟩ := Prod.mk.inj (Option.some.inj hs)
    exact ⟨by simpa using hfresh, rfl, rfl⟩

/-- The first command of `consumeInviteUse` reads; the call returns uncounted
when the token is gone or unlimited. -/
theorem Config.consumeInviteUse_ok {cfg : Config} {a : JoinAttempt} {result : JoinResult}
    {p' : Call} {s s' : Store} (hs : cfg.step (.consumeInviteUse a result) s = some (s', p')) :
    s' = s ∧ ((p' = .returned a result false
        ∧ ∀ t, s.findByToken a.inviteToken = some t → isUnlimited t.maxUses = true)
      ∨ ∃ t, p' = .incrementUseCount a t result) := by
  simp only [step] at hs
  cases hf : s.findByToken a.inviteToken with
  | none =>
      simp only [hf] at hs
      obtain ⟨rfl, rfl⟩ := Prod.mk.inj (Option.some.inj hs)
      exact ⟨rfl, .inl ⟨rfl, fun t ht => by cases ht⟩⟩
  | some t =>
      simp only [hf] at hs
      split at hs
      · rename_i hu
        obtain ⟨rfl, rfl⟩ := Prod.mk.inj (Option.some.inj hs)
        exact ⟨rfl, .inl ⟨rfl, fun t' ht' => Option.some.inj ht' ▸ hu⟩⟩
      · obtain ⟨rfl, rfl⟩ := Prod.mk.inj (Option.some.inj hs)
        exact ⟨rfl, .inr ⟨t, rfl⟩⟩

/-- The second command counts; the call can no longer fail. -/
theorem Config.incrementUseCount_ok {cfg : Config} {a : JoinAttempt} {t : InviteToken}
    {result : JoinResult} {p' : Call} {s s' : Store}
    (hs : cfg.step (.incrementUseCount a t result) s = some (s', p')) :
    s' = { s with
      tokens := s.tokens.alter s.now a.inviteToken bump
      consumed := Function.update s.consumed a.inviteToken (s.consumed a.inviteToken + 1) }
      ∧ ∀ token, counted token p' = (a.inviteToken == token) ∧ uncounted token p' = false := by
  simp only [step] at hs
  split at hs
  · obtain ⟨rfl, rfl⟩ := Prod.mk.inj (Option.some.inj hs)
    exact ⟨rfl, fun token => ⟨by simp [counted], by simp [uncounted]⟩⟩
  · split at hs
    · obtain ⟨rfl, rfl⟩ := Prod.mk.inj (Option.some.inj hs)
      exact ⟨rfl, fun token => ⟨rfl, rfl⟩⟩
    · obtain ⟨rfl, rfl⟩ := Prod.mk.inj (Option.some.inj hs)
      exact ⟨rfl, fun token => ⟨by simp [counted], by simp [uncounted]⟩⟩

/-! ## Every run: only calls that succeed consume a use -/

def Accounted (c : Conf Store Call) : Prop :=
  ∀ token, c.store.consumed token = c.pool.countP (counted token)

theorem opens_idle {cfg : Config} {p : Call} (hp : cfg.server.opens p = true) (token : String) :
    counted token p = false ∧ uncounted token p = false := by
  cases p with
  | save | requestJoin => exact ⟨rfl, rfl⟩
  | saveExpire | saved | validateInviteToken | refuse | refuseIndex | findRoom | checkRateLimit
  | resetRateLimit | isMember | ensureNotBanned | requestExists | writing | consumeInviteUse
  | incrementUseCount | deleteToken | deleteIndex | returned | failed => cases hp

theorem Config.accounted_preserved (cfg : Config) :
    cfg.server.Preserves (fun _ _ => True) Accounted where
  start c p h _ hp token := by
    rw [countP_start, (opens_idle hp token).1]
    exact h token
  turn c i p s' p' h _ hi hs token := by
    have hc := countP_turn (counted token) hi p'
    have ht := h token
    rcases cfg.step_cases hs with ⟨tok, roomId, expiresAt, maxUses, rfl⟩ | ⟨a, result, rfl⟩ |
      ⟨a, t, result, rfl⟩ | hcalm
    · obtain ⟨-, rfl, rfl⟩ := cfg.save_ok hs
      simp only [counted, Bool.toNat_false] at hc
      exact ht.trans hc.symm
    · obtain ⟨rfl, ⟨rfl, -⟩ | ⟨t, rfl⟩⟩ := cfg.consumeInviteUse_ok hs
      · simp only [counted, Bool.and_false, Bool.toNat_false] at hc
        exact ht.trans hc.symm
      · simp only [counted, Bool.toNat_false] at hc
        exact ht.trans hc.symm
    · obtain ⟨rfl, hp'⟩ := cfg.incrementUseCount_ok hs
      rw [(hp' token).1] at hc
      simp only [counted, Bool.toNat_false] at hc
      by_cases hne : token = a.inviteToken
      · subst hne
        simp only [beq_self_eq_true, Bool.toNat_true] at hc
        simp only [Function.update_self]
        omega
      · have hne' : (a.inviteToken == token) = false := beq_eq_false_iff_ne.mpr (Ne.symm hne)
        simp only [hne', Bool.toNat_false] at hc
        simp only [Function.update_of_ne hne]
        omega
    · rw [hcalm.consumed, countP_turn_eq _ hi _ (hcalm.counted token)]
      exact ht
  env c e s' h _ hs := by
    cases e with
    | tick | revoke | others =>
        obtain rfl := Option.some.inj hs
        exact h

/-! ## Runs in which a use is left -/

/-- The counter of a stored token is the number of uses consumed, within its
limit; nobody has returned uncounted through a limited token. -/
structure Sound (c : Conf Store Call) : Prop where
  stored : ∀ token e, c.store.tokens token = some e →
    c.store.minted token = some e.value.maxUses
      ∧ e.value.usedCount = some (c.store.consumed token : Int)
  within : ∀ token n, c.store.minted token = some (some n) →
    0 < n ∧ c.store.consumed token ≤ n ∧ c.pool.countP (uncounted token) = 0
  unminted : ∀ token, c.store.minted token = none →
    c.store.consumed token = 0 ∧ c.pool.countP (uncounted token) = 0

/-- What a call that finds its token knows about it. -/
theorem Sound.found {c : Conf Store Call} (h : Sound c) {token : String}
    (hleft : (c.store.findByToken token).any (fun t => !isExhausted t) = true) :
    ∃ e t, c.store.tokens.find? c.store.now token = some e ∧ c.store.findByToken token = some t
      ∧ t.maxUses = e.value.maxUses ∧ c.store.minted token = some e.value.maxUses
      ∧ ∀ n, e.value.maxUses = some n → (c.store.consumed token : Int) < n := by
  cases ht : c.store.findByToken token with
  | none =>
      rw [ht] at hleft
      cases hleft
  | some t =>
      obtain ⟨hash, hhash, hparse⟩ := Option.bind_eq_some_iff.mp ht
      obtain ⟨e, he, rfl⟩ := Option.map_eq_some_iff.mp hhash
      obtain ⟨x, -, rfl⟩ := Option.map_eq_some_iff.mp hparse
      obtain ⟨hminted, hused⟩ := h.stored token e (Keyspace.find?_eq_some.mp he).1
      refine ⟨e, _, he, rfl, rfl, hminted, fun n hn => ?_⟩
      obtain ⟨hpos, -⟩ := h.within token n (hminted.trans (congrArg some hn))
      simp only [ht, Option.any_some, isExhausted, hn, hused, isUnlimited, Option.getD_some,
        Bool.not_and, Bool.not_not, Bool.or_eq_true, decide_eq_true_eq, Bool.not_eq_true',
        decide_eq_false_iff_not] at hleft
      omega

theorem Sound.saves {c : Conf Store Call} {i : Nat} (h : Sound c) {token roomId : String}
    {expiresAt : Nat} {maxUses : Option Int}
    (hi : c.pool[i]? = some (.save token roomId expiresAt maxUses))
    (hfresh : c.store.minted token = none) :
    Sound ⟨{ c.store with
      tokens := c.store.tokens.alter c.store.now token fun _ =>
        ⟨some token, some roomId, some c.store.now, some expiresAt, normalizeMaxUses maxUses,
          some 0⟩
      minted := Function.update c.store.minted token (some (normalizeMaxUses maxUses)) },
      c.pool.set i (.saveExpire token expiresAt)⟩ := by
  obtain ⟨hzero, hnone⟩ := h.unminted token hfresh
  have hcount : ∀ token', (c.pool.set i (.saveExpire token expiresAt)).countP (uncounted token')
      = c.pool.countP (uncounted token') := fun token' => countP_turn_eq _ hi _ rfl
  refine ⟨?_, ?_, ?_⟩
  · intro token' e he
    dsimp only at he ⊢
    by_cases hne : token' = token
    · subst hne
      rcases Keyspace.alter_eq_some he with ⟨-, rfl⟩ | ⟨e₀, -, rfl⟩ <;> simp [hzero]
    · rw [Keyspace.alter_other _ _ hne] at he
      rw [Function.update_of_ne hne]
      exact h.stored token' e he
  · intro token' n hn
    dsimp only at hn ⊢
    rw [hcount]
    by_cases hne : token' = token
    · subst hne
      rw [Function.update_self] at hn
      have hpos : 0 < n := by
        have := Option.some.inj hn
        unfold normalizeMaxUses at this
        split at this
        · cases this
        · rename_i hu
          simpa [this, isUnlimited] using hu
      exact ⟨hpos, by omega, hnone⟩
    · rw [Function.update_of_ne hne] at hn
      exact h.within token' n hn
  · intro token' hn
    dsimp only at hn ⊢
    have hne : token' ≠ token := by
      rintro rfl
      simp at hn
    rw [hcount]
    rw [Function.update_of_ne hne] at hn
    exact h.unminted token' hn

theorem Sound.increments {c : Conf Store Call} {i : Nat} {p p' : Call} (h : Sound c)
    (hi : c.pool[i]? = some p) {key : String}
    (hleft : (c.store.findByToken key).any (fun t => !isExhausted t) = true)
    (hp : ∀ token, uncounted token p' = uncounted token p) :
    Sound ⟨{ c.store with
      tokens := c.store.tokens.alter c.store.now key bump
      consumed := Function.update c.store.consumed key (c.store.consumed key + 1) },
      c.pool.set i p'⟩ := by
  obtain ⟨e, t, he, -, -, hminted, hlt⟩ := h.found hleft
  obtain ⟨-, hused⟩ := h.stored key e (Keyspace.find?_eq_some.mp he).1
  have hcount : ∀ token, (c.pool.set i p').countP (uncounted token)
      = c.pool.countP (uncounted token) := fun token => countP_turn_eq _ hi _ (hp token)
  refine ⟨?_, ?_, ?_⟩
  · intro token e' he'
    dsimp only at he' ⊢
    by_cases hne : token = key
    · subst hne
      rcases Keyspace.alter_eq_some he' with ⟨hnone, -⟩ | ⟨e₀, he₀, rfl⟩
      · rw [he] at hnone
        cases hnone
      · rw [he] at he₀
        obtain rfl := Option.some.inj he₀
        exact ⟨hminted, by simp [bump, hused]⟩
    · rw [Keyspace.alter_other _ _ hne] at he'
      rw [Function.update_of_ne hne]
      exact h.stored token e' he'
  · intro token n hn
    dsimp only at hn ⊢
    obtain ⟨hpos, hle, hnone⟩ := h.within token n hn
    rw [hcount]
    by_cases hne : token = key
    · subst hne
      rw [hminted] at hn
      have := hlt n (Option.some.inj hn)
      rw [Function.update_self]
      exact ⟨hpos, by omega, hnone⟩
    · rw [Function.update_of_ne hne]
      exact ⟨hpos, hle, hnone⟩
  · intro token hn
    dsimp only at hn ⊢
    have hne : token ≠ key := by
      rintro rfl
      rw [hminted] at hn
      cases hn
    rw [hcount, Function.update_of_ne hne]
    exact h.unminted token hn

theorem Config.sound_preserved (cfg : Config) :
    cfg.server.Preserves (fun c a => usesLeft c a = true) Sound where
  start c p h _ hp := by
    have hcount : ∀ token, (c.pool ++ [p]).countP (uncounted token)
        = c.pool.countP (uncounted token) := fun token => by
      rw [countP_start, (opens_idle hp token).2]
      rfl
    refine ⟨h.stored, ?_, ?_⟩
    · simp only [hcount]
      exact h.within
    · simp only [hcount]
      exact h.unminted
  turn c i p s' p' h hg hi hs := by
    rcases cfg.step_cases hs with ⟨tok, roomId, expiresAt, maxUses, rfl⟩ | ⟨a, result, rfl⟩ |
      ⟨a, t, result, rfl⟩ | hcalm
    · obtain ⟨hfresh, rfl, rfl⟩ := cfg.save_ok hs
      exact h.saves hi hfresh
    · have hleft : (c.store.findByToken a.inviteToken).any (fun t => !isExhausted t) = true := by
        simpa only [usesLeft, hi] using hg
      obtain ⟨e, t, -, ht, hmax, hminted, -⟩ := h.found hleft
      obtain ⟨rfl, ⟨rfl, hun⟩ | ⟨t', rfl⟩⟩ := cfg.consumeInviteUse_ok hs
      · -- the token is unlimited: no limited one gets an uncounted call
        have hc : ∀ token, token ≠ a.inviteToken →
            (c.pool.set i (.returned a result false)).countP (uncounted token)
              = c.pool.countP (uncounted token) := fun token hne =>
          countP_turn_eq _ hi _ (by simp [uncounted, Ne.symm hne])
        refine ⟨h.stored, fun token n hn => ?_, fun token hn => ?_⟩
        · have hne : token ≠ a.inviteToken := by
            rintro rfl
            have hpos := (h.within _ n hn).1
            have hnone := hun t ht
            dsimp only at hn
            rw [hminted, ← hmax] at hn
            rw [Option.some.inj hn] at hnone
            simp only [isUnlimited, decide_eq_true_eq] at hnone
            omega
          rw [hc token hne]
          exact h.within token n hn
        · have hne : token ≠ a.inviteToken := by
            rintro rfl
            dsimp only at hn
            rw [hminted] at hn
            cases hn
          rw [hc token hne]
          exact h.unminted token hn
      · have hc : ∀ token, (c.pool.set i (.incrementUseCount a t' result)).countP (uncounted token)
            = c.pool.countP (uncounted token) := fun token => countP_turn_eq _ hi _ rfl
        exact ⟨h.stored, by simpa only [hc] using h.within, by simpa only [hc] using h.unminted⟩
    · have hleft : (c.store.findByToken a.inviteToken).any (fun t => !isExhausted t) = true := by
        simpa only [usesLeft, hi] using hg
      obtain ⟨rfl, hp'⟩ := cfg.incrementUseCount_ok hs
      exact h.increments hi hleft fun token => (hp' token).2
    · have hc : ∀ token, (c.pool.set i p').countP (uncounted token)
          = c.pool.countP (uncounted token) :=
        fun token => countP_turn_eq _ hi _ (hcalm.uncounted token)
      refine ⟨fun token e' he' => ?_, ?_, ?_⟩
      · obtain ⟨e, he, hv⟩ := hcalm.tokens token e' he'
        simp only [hcalm.minted, hcalm.consumed, hv]
        exact h.stored token e he
      · simpa only [hc, hcalm.minted, hcalm.consumed] using h.within
      · simpa only [hc, hcalm.minted, hcalm.consumed] using h.unminted
  env c e s' h _ hs := by
    cases e with
    | tick | others =>
        obtain rfl := Option.some.inj hs
        exact ⟨h.stored, h.within, h.unminted⟩
    | revoke key =>
        obtain rfl := Option.some.inj hs
        refine ⟨fun token e he => ?_, h.within, h.unminted⟩
        have hne : token ≠ key := by
          rintro rfl
          simp [Store.deleteToken] at he
        simp only [Store.deleteToken, Keyspace.del_other hne] at he
        exact h.stored token e he

/-- A call that has returned has counted its use, or has not. -/
theorem counted_or_uncounted (token : String) (p : Call) (h : admitted token p = true) :
    counted token p = true ∨ uncounted token p = true := by
  cases p with
  | returned a result took => cases took <;> simpa [admitted, counted, uncounted] using h
  | save | saveExpire | saved | requestJoin | validateInviteToken | refuse | refuseIndex
  | findRoom | checkRateLimit | resetRateLimit | isMember | ensureNotBanned | requestExists
  | writing | consumeInviteUse | incrementUseCount | deleteToken | deleteIndex | failed => cases h

/-- One room, `BY_PASSWORD` without a password set. -/
def sampleRooms : Rooms where
  room id := if id = "r1" then some ⟨"r1", some "owner", none, .byPassword⟩ else none
  members _ := []
  bans _ := []
  requests := []
  publicKeys := []
  passwordFails _ := 0

def sampleConfig : Config := ⟨5, fun proof hash => proof == hash⟩

def guest (name : String) : Call := .requestJoin ⟨name, "77aa", none, none⟩

def invited : List (Action Call Move) :=
  [.start (.save "77aa" "r1" 900000 (some 1)), .turn 0, .turn 0, .start (guest "ann"),
    .start (guest "bob")]

/-- Both are validated before either of them has counted its use. -/
def together : List (Action Call Move) :=
  List.flatten [invited, [.turn 1, .turn 1, .turn 2, .turn 2], List.replicate 15 (.turn 1),
    List.replicate 12 (.turn 2)]

/-- One after the other: the second is told that there is no such invite. -/
def inTurn : List (Action Call Move) :=
  List.flatten [invited, List.replicate 17 (.turn 1), [.turn 2]]

end RoomInvite

end BurnedChats

import BurnedChats.Backend.WalletProof

/-!
# Personal invites

`DmInviteService.redeem` reads the hash `dm_invite:{token}`, validates it,
increments its `usedCount` and, when the last use is taken, deletes the key.
`HINCRBY` is atomic, but it also creates a missing key: a redeemer that read
the token before it was deleted counts from one again, on a hash that has
nothing but the counter and no time to live.

`redeem_within_max_uses` says when the limit holds all the same: every
redeemer that comes to take its use finds the hash still there.
-/

namespace BurnedChats

open Interleave

namespace DmInvite

def defaultMaxUses : Int := 1

/-- The hash under `dm_invite:{token}`; an absent field is `none`. -/
structure TokenHash where
  token : Option String
  ownerInternalId : Option String
  expiresAt : Option Nat
  maxUses : Option Int
  usedCount : Option Int

structure DmInviteToken where
  token : Option String
  ownerInternalId : Option String
  expiresAt : Nat
  maxUses : Int
  usedCount : Int

/-- `fromHash`; a missing `expiresAt` does not parse, and the token is not found. -/
def TokenHash.parse (hash : TokenHash) : Option DmInviteToken :=
  hash.expiresAt.map fun expiresAt =>
    ⟨hash.token, hash.ownerInternalId, expiresAt, hash.maxUses.getD defaultMaxUses,
      hash.usedCount.getD 0⟩

/-- `tokens` are the keys `dm_invite:{token}`, `index` the sets
`dm_invites:{owner}`. `minted` and `deleted` remember what was done to a token. -/
structure Store where
  now : Nat
  tokens : Keyspace String TokenHash
  index : String → List String
  minted : String → Option Nat
  deleted : List String

inductive RedeemError where
  | notFound | expired | exhausted | selfRedeem | internalError
deriving DecidableEq

/-- A text of Java, where a missing one prints as `null`. -/
def shown (s : Option String) : String := s.getD "null"

/-- A request, by its next command. The rate limiter in front of `redeem` only
turns requests away, so any request may stand at its start. -/
inductive Call where
  | save (token ownerInternalId : String) (expiresAt maxUses : Nat)
  | saveExpire (token ownerInternalId : String) (expiresAt : Nat)
  | saveIndex (token ownerInternalId : String)
  | saved
  | redeem (redeemer : String) (tokenValue : Option String)
  | validate (redeemer : String) (token : DmInviteToken)
  | refuse (token : DmInviteToken) (error : RedeemError)
  | refuseIndex (token : DmInviteToken) (error : RedeemError)
  | consumeUse (redeemer : String) (token : DmInviteToken)
  | exhaust (redeemer : String) (token : DmInviteToken)
  | exhaustIndex (redeemer : String) (token : DmInviteToken)
  | createSession (redeemer : String) (token : DmInviteToken)
  | failed (error : RedeemError)

def isExhausted (token : DmInviteToken) : Bool := token.maxUses ≤ token.usedCount

/-- `HINCRBY usedCount 1`. -/
def bump (hash : Option TokenHash) : TokenHash :=
  match hash with
  | some h => { h with usedCount := some (h.usedCount.getD 0 + 1) }
  | none => ⟨none, none, none, none, some 1⟩

def Store.drop (s : Store) (token : String) : Store :=
  { s with tokens := s.tokens.del token, deleted := token :: s.deleted }

def Store.unindex (s : Store) (owner token : String) : Store :=
  { s with index := Function.update s.index owner ((s.index owner).erase token) }

def step : Call → Store → Option (Store × Call)
  | .save token owner expiresAt maxUses, s =>
      -- the token is 32 random bytes: never one minted before
      if (s.minted token).isSome then none
      else some ({ s with
        tokens := s.tokens.alter s.now token fun _ =>
          ⟨some token, some owner, some expiresAt, some maxUses, some 0⟩
        minted := Function.update s.minted token (some maxUses) },
        .saveExpire token owner expiresAt)
  | .saveExpire token owner expiresAt, s =>
      some ({ s with tokens := s.tokens.expire s.now (max 1000 (expiresAt - s.now)) token },
        .saveIndex token owner)
  | .saveIndex token owner, s =>
      some ({ s with index := Function.update s.index owner (token :: (s.index owner).erase token) },
        .saved)
  | .saved, _ => none
  | .redeem redeemer tokenValue, s =>
      match tokenValue with
      | none => some (s, .failed .notFound)
      | some value =>
          if isBlank value then some (s, .failed .notFound)
          else
            match (s.tokens.get? s.now (trim value)).bind TokenHash.parse with
            | none => some (s, .failed .notFound)
            | some token => some (s, .validate redeemer token)
  | .validate redeemer token, s =>
      if token.expiresAt < s.now then some (s, .refuse token .expired)
      else if isExhausted token then some (s, .refuse token .exhausted)
      else if token.ownerInternalId = some redeemer then some (s, .failed .selfRedeem)
      else some (s, .consumeUse redeemer token)
  | .refuse token error, s => some (s.drop (shown token.token), .refuseIndex token error)
  | .refuseIndex token error, s =>
      some (s.unindex (shown token.ownerInternalId) (shown token.token), .failed error)
  | .consumeUse redeemer token, s =>
      let key := shown token.token
      let newCount := (bump (s.tokens.get? s.now key)).usedCount.getD 0
      let s' := { s with tokens := s.tokens.alter s.now key bump }
      if newCount < 0 then some (s', .failed .internalError)
      else if token.maxUses < newCount then some (s', .failed .exhausted)
      else if token.maxUses ≤ newCount then some (s', .exhaust redeemer token)
      else some (s', .createSession redeemer token)
  | .exhaust redeemer token, s =>
      some (s.drop (shown token.token), .exhaustIndex redeemer token)
  | .exhaustIndex redeemer token, s =>
      some (s.unindex (shown token.ownerInternalId) (shown token.token),
        .createSession redeemer token)
  | .createSession _ _, _ => none
  | .failed _, _ => none

inductive Move where
  | tick (ms : Nat)

def server : Server Store Call Move where
  opens p :=
    match p with
    | .save .. => true
    | .redeem .. => true
    | _ => false
  step := step
  env m s := match m with | .tick ms => some { s with now := s.now + ms }

def init (now : Nat) : Conf Store Call := ⟨⟨now, .empty, fun _ => [], fun _ => none, []⟩, []⟩

/-! ## What is counted -/

/-- The request has been let through by `consumeUse` on `token`. -/
def passed (token : String) : Call → Bool
  | .exhaust _ t => t.token == some token
  | .exhaustIndex _ t => t.token == some token
  | .createSession _ t => t.token == some token
  | _ => false

/-- The token a request of `redeem` has read. -/
def Call.read : Call → Option DmInviteToken
  | .validate _ t => some t
  | .refuse t _ => some t
  | .refuseIndex t _ => some t
  | .consumeUse _ t => some t
  | .exhaust _ t => some t
  | .exhaustIndex _ t => some t
  | .createSession _ t => some t
  | _ => none

/-- A request that comes to take its use finds the hash it has read still there. -/
def present (c : Conf Store Call) : Action Call Move → Bool
  | .turn i =>
      match c.pool[i]? with
      | some (.consumeUse _ t) => c.store.tokens.has c.store.now (shown t.token)
      | _ => true
  | _ => true

/-! ## Runs in which the hash is still there -/

/-- A token a request has read was minted with the limit it carries. -/
def Store.Minted (s : Store) (t : DmInviteToken) : Prop :=
  ∃ token n, t.token = some token ∧ s.minted token = some n ∧ t.maxUses = n

/-- The counter of a stored token covers the requests let through; a deleted
token is not stored. -/
structure Sound (c : Conf Store Call) : Prop where
  read : ∀ p ∈ c.pool, ∀ t, p.read = some t → c.store.Minted t
  stored : ∀ token e, c.store.tokens token = some e → token ∉ c.store.deleted ∧
    ∃ (n : Nat) (u : Int), c.store.minted token = some n ∧ e.value.token = some token
      ∧ e.value.maxUses = some (n : Int) ∧ e.value.usedCount = some u
      ∧ c.pool.countP (passed token) ≤ u
  deleted : ∀ token ∈ c.store.deleted, (c.store.minted token).isSome = true
  within : ∀ token n, c.store.minted token = some n → c.pool.countP (passed token) ≤ n

theorem read_of_passed {token : String} {p : Call} (h : passed token p = true) :
    ∃ t, p.read = some t ∧ t.token = some token := by
  cases p with
  | exhaust r t | exhaustIndex r t | createSession r t =>
      exact ⟨t, rfl, by simpa [passed] using h⟩
  | save | saveExpire | saveIndex | saved | redeem | validate | refuse | refuseIndex
  | consumeUse | failed => cases h

/-- What `findByToken` gives a request. -/
theorem redeem_cases {redeemer : String} {tokenValue : Option String} {s s' : Store} {p' : Call}
    (hs : step (.redeem redeemer tokenValue) s = some (s', p')) :
    s' = s ∧ ((∃ e, p' = .failed e) ∨ ∃ value hash t, s.tokens.get? s.now (trim value) = some hash
      ∧ hash.parse = some t ∧ p' = .validate redeemer t) := by
  cases tokenValue with
  | none =>
      obtain ⟨rfl, rfl⟩ := Prod.mk.inj (Option.some.inj hs)
      exact ⟨rfl, .inl ⟨_, rfl⟩⟩
  | some value =>
      simp only [step] at hs
      split at hs
      · obtain ⟨rfl, rfl⟩ := Prod.mk.inj (Option.some.inj hs)
        exact ⟨rfl, .inl ⟨_, rfl⟩⟩
      · split at hs
        · obtain ⟨rfl, rfl⟩ := Prod.mk.inj (Option.some.inj hs)
          exact ⟨rfl, .inl ⟨_, rfl⟩⟩
        · rename_i t ht
          obtain ⟨rfl, rfl⟩ := Prod.mk.inj (Option.some.inj hs)
          obtain ⟨hash, hhash, hparse⟩ := Option.bind_eq_some_iff.mp ht
          exact ⟨rfl, .inr ⟨value, hash, t, hhash, hparse, rfl⟩⟩

namespace Sound

variable {c : Conf Store Call} {i : Nat} {p p' : Call}

theorem none_passed (h : Sound c) {token : String} (hm : c.store.minted token = none) :
    c.pool.countP (passed token) = 0 := by
  rw [List.countP_eq_zero]
  intro p hp hpass
  obtain ⟨t, ht, htok⟩ := read_of_passed hpass
  obtain ⟨token', n, htok', hn, -⟩ := h.read p hp t ht
  rw [htok] at htok'
  obtain rfl := Option.some.inj htok'
  rw [hm] at hn
  cases hn

/-- A step that lets nobody through and leaves keys and memory alone. -/
theorem quiet (h : Sound c) (hi : c.pool[i]? = some p) {s' : Store}
    (htokens : s'.tokens = c.store.tokens) (hminted : s'.minted = c.store.minted)
    (hdeleted : s'.deleted = c.store.deleted) (hpass : ∀ token, passed token p' = passed token p)
    (hread : ∀ t, p'.read = some t → c.store.Minted t) : Sound ⟨s', c.pool.set i p'⟩ := by
  have hcount : ∀ token, (c.pool.set i p').countP (passed token) = c.pool.countP (passed token) :=
    fun token => countP_turn_eq _ hi _ (hpass token)
  refine ⟨?_, ?_, ?_, ?_⟩
  · simp only [Store.Minted, hminted]
    exact forall_turn h.read hread
  · simp only [htokens, hminted, hdeleted, hcount]
    exact h.stored
  · simp only [hminted, hdeleted]
    exact h.deleted
  · simp only [hminted, hcount]
    exact h.within

/-- The key of a token that was read is deleted. -/
theorem drops (h : Sound c) (hi : c.pool[i]? = some p) {t : DmInviteToken}
    (ht : p.read = some t) (ht' : p'.read = some t)
    (hpass : ∀ token, passed token p' = passed token p) :
    Sound ⟨c.store.drop (shown t.token), c.pool.set i p'⟩ := by
  have hmint := h.read p (List.mem_of_getElem? hi) t ht
  have hcount : ∀ token, (c.pool.set i p').countP (passed token) = c.pool.countP (passed token) :=
    fun token => countP_turn_eq _ hi _ (hpass token)
  refine ⟨?_, ?_, ?_, ?_⟩
  · refine forall_turn h.read fun t' ht'' => ?_
    rw [ht'] at ht''
    exact Option.some.inj ht'' ▸ hmint
  · intro token e he
    have hne : token ≠ shown t.token := by
      rintro rfl
      simp [Store.drop] at he
    simp only [Store.drop, Keyspace.del_other hne] at he
    obtain ⟨hdel, hrest⟩ := h.stored token e he
    refine ⟨?_, ?_⟩
    · simp only [Store.drop, List.mem_cons, not_or]
      exact ⟨hne, hdel⟩
    · simp only [hcount]
      exact hrest
  · intro token htoken
    rcases List.mem_cons.mp htoken with rfl | htoken
    · obtain ⟨token, n, htok, hn, -⟩ := hmint
      simp only [htok, shown, Option.getD_some, Store.drop, hn, Option.isSome_some]
    · exact h.deleted token htoken
  · simp only [hcount]
    exact h.within

/-- A new token is stored. -/
theorem saves (h : Sound c) {token owner : String} {expiresAt n : Nat}
    (hi : c.pool[i]? = some (.save token owner expiresAt n))
    (hfresh : c.store.minted token = none) :
    Sound ⟨{ c.store with
      tokens := c.store.tokens.alter c.store.now token fun _ =>
        ⟨some token, some owner, some expiresAt, some (n : Int), some 0⟩
      minted := Function.update c.store.minted token (some n) },
      c.pool.set i (.saveExpire token owner expiresAt)⟩ := by
  have hcount : ∀ token', (c.pool.set i (.saveExpire token owner expiresAt)).countP (passed token')
      = c.pool.countP (passed token') := fun token' => countP_turn_eq _ hi _ rfl
  have hold : ∀ {token' m}, c.store.minted token' = some m → token' ≠ token := by
    rintro token' m hm rfl
    rw [hfresh] at hm
    cases hm
  refine ⟨?_, ?_, ?_, ?_⟩
  · refine forall_turn (fun q hq t ht => ?_) (fun t ht => by cases ht)
    obtain ⟨token', m, htok, hm, hmax⟩ := h.read q hq t ht
    exact ⟨token', m, htok, by simp only [Function.update_of_ne (hold hm), hm], hmax⟩
  · intro token' e he
    dsimp only at he
    by_cases hne : token' = token
    · subst hne
      refine ⟨fun hdel => ?_, n, 0, by simp, ?_⟩
      · have := h.deleted token' hdel
        rw [hfresh] at this
        cases this
      · have hz := h.none_passed hfresh
        rw [hcount, hz]
        rcases Keyspace.alter_eq_some he with ⟨-, rfl⟩ | ⟨e₀, -, rfl⟩ <;> simp
    · rw [Keyspace.alter_other _ _ hne] at he
      simp only [hcount, Function.update_of_ne hne]
      exact h.stored token' e he
  · intro token' hdel
    by_cases hne : token' = token
    · simp [hne]
    · simp only [Function.update_of_ne hne]
      exact h.deleted token' hdel
  · intro token' m hm
    rw [hcount]
    by_cases hne : token' = token
    · rw [hne, h.none_passed hfresh]
      exact Nat.zero_le _
    · simp only [Function.update_of_ne hne] at hm
      exact h.within token' m hm

theorem expires (h : Sound c) {token owner : String} {expiresAt ttl : Nat}
    (hi : c.pool[i]? = some (.saveExpire token owner expiresAt)) :
    Sound ⟨{ c.store with tokens := c.store.tokens.expire c.store.now ttl token },
      c.pool.set i (.saveIndex token owner)⟩ := by
  have hcount : ∀ token', (c.pool.set i (.saveIndex token owner)).countP (passed token')
      = c.pool.countP (passed token') := fun token' => countP_turn_eq _ hi _ rfl
  refine ⟨forall_turn h.read (fun t ht => by cases ht), ?_, h.deleted, ?_⟩
  · intro token' e he
    dsimp only at he ⊢
    rw [hcount]
    by_cases hne : token' = token
    · subst hne
      rcases Keyspace.expire_eq_some he with ⟨-, he⟩ | ⟨e₀, he₀, rfl⟩
      · exact h.stored token' e he
      · exact h.stored token' e₀ (Keyspace.find?_eq_some.mp he₀).1
    · rw [Keyspace.expire_other _ _ hne] at he
      exact h.stored token' e he
  · simp only [hcount]
    exact h.within

/-- A use is taken from a stored token: the request is let through only within
the limit the token was minted with. -/
theorem takes (h : Sound c) {redeemer : String} {t : DmInviteToken}
    (hi : c.pool[i]? = some (.consumeUse redeemer t))
    (hhas : c.store.tokens.has c.store.now (shown t.token) = true)
    (hread : ∀ t', p'.read = some t' → t' = t)
    (hpass : ∀ token, passed token p' = true →
      (bump (c.store.tokens.get? c.store.now (shown t.token))).usedCount.getD 0 ≤ t.maxUses) :
    Sound ⟨{ c.store with
      tokens := c.store.tokens.alter c.store.now (shown t.token) bump }, c.pool.set i p'⟩ := by
  have hmint := h.read _ (List.mem_of_getElem? hi) t rfl
  obtain ⟨tok, n, htok, hn, hmax⟩ := id hmint
  rw [htok] at hhas hpass ⊢
  simp only [shown, Option.getD_some] at hhas hpass ⊢
  obtain ⟨e, he⟩ := Option.isSome_iff_exists.mp hhas
  obtain ⟨hentry, hlive⟩ := Keyspace.find?_eq_some.mp he
  obtain ⟨hdel, n', u, hn', htoken, hmaxUses, hused, hle⟩ := h.stored tok e hentry
  rw [hn] at hn'
  obtain rfl := Option.some.inj hn'
  simp only [Keyspace.get?, he, Option.map_some, bump, hused, Option.getD_some, hmax] at hpass
  have hc : (c.pool.set i p').countP (passed tok)
      = c.pool.countP (passed tok) + (passed tok p').toNat := countP_turn (passed tok) hi p'
  have hother : ∀ token, token ≠ tok → passed token p' = false := by
    intro token hne
    by_contra hp
    obtain ⟨t', ht', htok'⟩ := read_of_passed (by simpa using hp)
    rw [hread t' ht', htok] at htok'
    exact hne (Option.some.inj htok').symm
  have hgrow : (c.pool.set i p').countP (passed tok) ≤ c.pool.countP (passed tok) + 1 := by
    have := Bool.toNat_le (passed tok p')
    omega
  have hsame : ∀ token, token ≠ tok →
      (c.pool.set i p').countP (passed token) = c.pool.countP (passed token) :=
    fun token hne => countP_turn_eq _ hi _ (hother token hne)
  refine ⟨?_, ?_, h.deleted, ?_⟩
  · exact forall_turn h.read fun t' ht' => hread t' ht' ▸ hmint
  · intro token e' he'
    dsimp only at he' ⊢
    by_cases hne : token = tok
    · subst hne
      refine ⟨hdel, n, u + 1, hn, ?_⟩
      rcases Keyspace.alter_eq_some he' with ⟨hnone, -⟩ | ⟨e₀, he₀, rfl⟩
      · rw [he] at hnone
        cases hnone
      · rw [he] at he₀
        obtain rfl := Option.some.inj he₀
        refine ⟨htoken, hmaxUses, by simp [bump, hused], ?_⟩
        omega
    · rw [Keyspace.alter_other _ _ hne] at he'
      rw [hsame token hne]
      exact h.stored token e' he'
  · intro token m hm
    dsimp only at hm ⊢
    by_cases hne : token = tok
    · subst hne
      rw [hn] at hm
      obtain rfl := Option.some.inj hm
      cases hp : passed token p' with
      | false =>
          have := h.within token n hn
          rw [hp, Bool.toNat_false] at hc
          omega
      | true =>
          have := hpass token hp
          omega
    · rw [hsame token hne]
      exact h.within token m hm

end Sound

theorem sound_preserved :
    server.Preserves (fun c a => present c a = true) Sound where
  start c p h _ hp := by
    have hcount : ∀ token, passed token p = false ∧ p.read = none := by
      intro token
      cases p with
      | save | redeem => exact ⟨rfl, rfl⟩
      | saveExpire | saveIndex | saved | validate | refuse | refuseIndex | consumeUse | exhaust
      | exhaustIndex | createSession | failed => cases hp
    refine ⟨?_, ?_, h.deleted, ?_⟩
    · refine forall_start h.read fun t ht => ?_
      rw [(hcount "").2] at ht
      cases ht
    · simpa only [countP_start, (hcount _).1, Bool.toNat_false, Nat.add_zero] using h.stored
    · simpa only [countP_start, (hcount _).1, Bool.toNat_false, Nat.add_zero] using h.within
  turn c i p s' p' h hg hi hs := by
    have hmine : ∀ t, p.read = some t → c.store.Minted t :=
      h.read p (List.mem_of_getElem? hi)
    cases p with
    | save token owner expiresAt n =>
        simp only [server, step] at hs
        split at hs
        · cases hs
        · rename_i hfresh
          obtain ⟨rfl, rfl⟩ := Prod.mk.inj (Option.some.inj hs)
          exact h.saves hi (by simpa using hfresh)
    | saveExpire token owner expiresAt =>
        obtain ⟨rfl, rfl⟩ := Prod.mk.inj (Option.some.inj hs)
        exact h.expires hi
    | saveIndex token owner =>
        obtain ⟨rfl, rfl⟩ := Prod.mk.inj (Option.some.inj hs)
        exact h.quiet hi rfl rfl rfl (fun _ => rfl) (fun t ht => by cases ht)
    | redeem redeemer tokenValue =>
        obtain ⟨rfl, hp⟩ := redeem_cases hs
        rcases hp with ⟨e, rfl⟩ | ⟨value, hash, t, hhash, ht, rfl⟩
        · exact h.quiet hi rfl rfl rfl (fun _ => rfl) (fun t ht => by cases ht)
        · refine h.quiet hi rfl rfl rfl (fun _ => rfl) (fun t' ht' => ?_)
          obtain rfl := Option.some.inj ht'
          obtain ⟨e, he, rfl⟩ := Option.map_eq_some_iff.mp hhash
          obtain ⟨-, n, u, hn, htoken, hmax, -⟩ :=
            h.stored (trim value) e (Keyspace.find?_eq_some.mp he).1
          obtain ⟨x, -, rfl⟩ := Option.map_eq_some_iff.mp ht
          exact ⟨trim value, n, htoken, hn, by simp [hmax]⟩
    | validate redeemer t =>
        simp only [server, step] at hs
        split at hs
        · obtain ⟨rfl, rfl⟩ := Prod.mk.inj (Option.some.inj hs)
          exact h.quiet hi rfl rfl rfl (fun _ => rfl) hmine
        · split at hs
          · obtain ⟨rfl, rfl⟩ := Prod.mk.inj (Option.some.inj hs)
            exact h.quiet hi rfl rfl rfl (fun _ => rfl) hmine
          · split at hs
            · obtain ⟨rfl, rfl⟩ := Prod.mk.inj (Option.some.inj hs)
              exact h.quiet hi rfl rfl rfl (fun _ => rfl) (fun t ht => by cases ht)
            · obtain ⟨rfl, rfl⟩ := Prod.mk.inj (Option.some.inj hs)
              exact h.quiet hi rfl rfl rfl (fun _ => rfl) hmine
    | refuse t error =>
        obtain ⟨rfl, rfl⟩ := Prod.mk.inj (Option.some.inj hs)
        exact h.drops hi rfl rfl fun _ => rfl
    | refuseIndex t error =>
        obtain ⟨rfl, rfl⟩ := Prod.mk.inj (Option.some.inj hs)
        exact h.quiet hi rfl rfl rfl (fun _ => rfl) (fun t ht => by cases ht)
    | consumeUse redeemer t =>
        have hhas : c.store.tokens.has c.store.now (shown t.token) = true := by
          simpa only [present, hi] using hg
        simp only [server, step] at hs
        split at hs
        · obtain ⟨rfl, rfl⟩ := Prod.mk.inj (Option.some.inj hs)
          exact h.takes hi hhas (fun t ht => by cases ht) (fun _ hp => by cases hp)
        · split at hs
          · obtain ⟨rfl, rfl⟩ := Prod.mk.inj (Option.some.inj hs)
            exact h.takes hi hhas (fun t ht => by cases ht) (fun _ hp => by cases hp)
          · rename_i hmax
            have hle := Int.not_lt.mp hmax
            split at hs
            · obtain ⟨rfl, rfl⟩ := Prod.mk.inj (Option.some.inj hs)
              exact h.takes hi hhas (fun t ht => (Option.some.inj ht).symm) fun _ _ => hle
            · obtain ⟨rfl, rfl⟩ := Prod.mk.inj (Option.some.inj hs)
              exact h.takes hi hhas (fun t ht => (Option.some.inj ht).symm) fun _ _ => hle
    | exhaust redeemer t =>
        obtain ⟨rfl, rfl⟩ := Prod.mk.inj (Option.some.inj hs)
        exact h.drops hi rfl rfl fun _ => rfl
    | exhaustIndex redeemer t =>
        obtain ⟨rfl, rfl⟩ := Prod.mk.inj (Option.some.inj hs)
        exact h.quiet hi rfl rfl rfl (fun _ => rfl) hmine
    | saved | createSession | failed => cases hs
  env c e s' h _ hs := by
    cases e with
    | tick ms =>
        obtain rfl := Option.some.inj hs
        exact ⟨h.read, h.stored, h.deleted, h.within⟩

theorem sound_init (now : Nat) : Sound (init now) :=
  ⟨(fun _ hp => by cases hp), (fun _ _ he => by cases he), (fun _ hd => by cases hd),
    (fun _ _ hm => by cases hm)⟩

/-- Where every redeemer that comes to take its use finds the hash still there,
no more are let through than the token was minted for, and a deleted token
stays deleted. -/
theorem redeem_within_max_uses (now : Nat) (c : Conf Store Call)
    (hrun : server.Run (fun c a => present c a = true) (init now) c) (token : String) (n : Nat)
    (hminted : c.store.minted token = some n) :
    c.pool.countP (passed token) ≤ n
      ∧ (token ∈ c.store.deleted → c.store.tokens token = none) := by
  have h := hrun.invariant sound_preserved (sound_init now)
  refine ⟨h.within token n hminted, fun hdel => ?_⟩
  cases he : c.store.tokens token with
  | none => rfl
  | some e => exact absurd hdel (h.stored token e he).1

/-! ### A single-use token, redeemed twice -/

def mintSample : List (Action Call Move) :=
  [.start (.save "9ab3" "owner" 600000 1), .turn 0, .turn 0, .turn 0,
    .start (.redeem "ann" (some "9ab3")), .start (.redeem "bob" (some "9ab3"))]

/-- Both read the token; one takes the use and deletes the key, the other
counts from one again. -/
def overlapping : List (Action Call Move) :=
  List.append mintSample [.turn 1, .turn 2, .turn 1, .turn 2, .turn 1, .turn 1, .turn 1, .turn 2]

theorem redeemed_twice : ¬ ∀ (now : Nat) (c : Conf Store Call), server.Reach (init now) c →
    ∀ token n, c.store.minted token = some n → c.pool.countP (passed token) ≤ n
      ∧ (token ∈ c.store.deleted → c.store.tokens.has c.store.now token = false) := by
  intro h
  have hrun : (server.exec (init 0) overlapping).map (fun c =>
      (c.store.minted "9ab3", c.pool.countP (passed "9ab3"))) = some (some 1, 2) := by
    decide +kernel
  obtain ⟨c, hc, heq⟩ := Option.map_eq_some_iff.mp hrun
  obtain ⟨hm, hcount⟩ := Prod.mk.inj heq
  have := (h 0 c (Server.reach_of_exec hc) "9ab3" 1 hm).1
  omega

/-- One after the other: the second finds no token. -/
def inTurn : List (Action Call Move) :=
  List.append mintSample [.turn 1, .turn 1, .turn 1, .turn 1, .turn 1, .turn 2]

theorem redeem_within_max_uses_in_turn :
    ∃ c, server.execWhile present (init 0) inTurn = some c
      ∧ c.store.minted "9ab3" = some 1 ∧ c.store.deleted = ["9ab3"]
      ∧ c.pool.countP (passed "9ab3") ≤ 1 ∧ c.store.tokens "9ab3" = none := by
  have hrun : (server.execWhile present (init 0) inTurn).map (fun c =>
      (c.store.minted "9ab3", c.store.deleted)) = some (some 1, ["9ab3"]) := by
    decide +kernel
  obtain ⟨c, hc, heq⟩ := Option.map_eq_some_iff.mp hrun
  obtain ⟨hm, hdel⟩ := Prod.mk.inj heq
  obtain ⟨hle, hgone⟩ := redeem_within_max_uses 0 c
    (Server.run_of_execWhile (fun _ _ h => h) hc) "9ab3" 1 hm
  exact ⟨c, hc, hm, hdel, hle, hgone (by simp [hdel])⟩

end DmInvite

end BurnedChats

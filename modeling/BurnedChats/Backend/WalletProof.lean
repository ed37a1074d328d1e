import BurnedChats.Lib.Interleave
import BurnedChats.Lib.Keyspace

/-!
# Wallet proofs and their nonces

`TonProofVerifier`: a nonce is issued under `auth_nonce:{nonce}` with a time to
live, and a wallet authenticates by a signed proof that carries it. A call of
`verify` tests that the key is there, checks the signature, and only then
deletes the key, so that a failed check does not burn the nonce.

The test and the deletion are two commands. Between them any number of other
calls may pass the same test, and none of them looks at the result of its own
deletion: `nonce_once` holds only where calls with good proofs do not overlap.
-/

namespace BurnedChats

open Interleave

/-! ## Text -/

/-- `Character.isWhitespace`. -/
def isWhitespace (c : Char) : Bool :=
  let n := c.toNat
  (9 ≤ n && n ≤ 13) || (28 ≤ n && n ≤ 32) || n == 0x1680 || (0x2000 ≤ n && n ≤ 0x2006)
    || (0x2008 ≤ n && n ≤ 0x200A) || n == 0x2028 || n == 0x2029 || n == 0x205F || n == 0x3000

/-- `String.isBlank`. -/
def isBlank (s : String) : Bool := s.toList.all isWhitespace

/-- `String.trim`: control characters and spaces at both ends. -/
def trim (s : String) : String :=
  String.ofList
    ((s.toList.dropWhile (·.toNat ≤ 32)).reverse.dropWhile (·.toNat ≤ 32)).reverse

namespace TonProofVerifier

inductive Reason where
  | invalidRequest | proofTimestampFuture | proofExpired | domainMismatch | domainLengthMismatch
  | nonceMissing | nonceUnknown | addressInvalid | publicKeyUnavailable | signatureInvalid
  | internal
deriving DecidableEq

structure AuthCredentials where
  walletProof : Option String
  walletAddress : Option String
  walletPublicKey : Option String
  walletStateInit : Option String

structure TonProofDomain where
  value : String
  lengthBytes : Option Int

/-- `timestamp` is in seconds; `payload` is the nonce. -/
structure TonProof where
  timestamp : Int
  domain : TonProofDomain
  signature : String
  payload : String

structure ParsedProof where
  canonicalRaw : String
  proof : TonProof

structure VerifiedTonProof where
  walletAddress : String
  nonce : String
  timestamp : Int
deriving DecidableEq

/-- Settings, and what is read off the request alone: the parsed credentials,
the case folding of the platform, and whether the resolved public key accepts
the signature. Durations are in milliseconds. -/
structure Config where
  nonceTtl : Nat
  maxProofAge : Nat
  expectedDomain : String
  toLowerCase : String → String
  parseProof : AuthCredentials → Except Reason ParsedProof
  verifySignature : ParsedProof → AuthCredentials → Except Reason Unit

def Config.verifyTimestamp (cfg : Config) (now : Nat) (parsed : ParsedProof) :
    Except Reason Unit :=
  let timestamp := parsed.proof.timestamp * 1000
  if (now : Int) + 30000 < timestamp then .error .proofTimestampFuture
  else if (cfg.maxProofAge : Int) < now - timestamp then .error .proofExpired
  else .ok ()

def Config.verifyDomain (cfg : Config) (parsed : ParsedProof) : Except Reason Unit :=
  let domain := parsed.proof.domain
  if isBlank domain.value then .error .domainMismatch
  else if cfg.toLowerCase (trim domain.value) ≠ cfg.toLowerCase (trim cfg.expectedDomain) then
    .error .domainMismatch
  else if domain.lengthBytes.any (· ≠ (domain.value.utf8ByteSize : Int)) then
    .error .domainLengthMismatch
  else .ok ()

/-- `nonces` are the keys `auth_nonce:{nonce}`; `issued` remembers when each
nonce was drawn. -/
structure Store where
  now : Nat
  nonces : Keyspace String Unit
  issued : String → Option Nat

def Store.init (now : Nat) : Store := ⟨now, .empty, fun _ => none⟩

/-- A call of `verify`, by its next command. -/
inductive Call where
  | received (credentials : AuthCredentials)
  | assertNoncePresent (credentials : AuthCredentials) (parsed : ParsedProof)
  | verifySignature (credentials : AuthCredentials) (parsed : ParsedProof)
  | consumeNonceAfterSuccess (parsed : ParsedProof)
  | accepted (verified : VerifiedTonProof)
  | rejected (reason : Reason)

def Config.step (cfg : Config) : Call → Store → Option (Store × Call)
  | .received credentials, s =>
      match cfg.parseProof credentials with
      | .error r => some (s, .rejected r)
      | .ok parsed =>
          match cfg.verifyTimestamp s.now parsed, cfg.verifyDomain parsed with
          | .error r, _ => some (s, .rejected r)
          | .ok _, .error r => some (s, .rejected r)
          | .ok _, .ok _ =>
              if isBlank parsed.proof.payload then some (s, .rejected .nonceMissing)
              else some (s, .assertNoncePresent credentials parsed)
  | .assertNoncePresent credentials parsed, s =>
      if s.nonces.has s.now parsed.proof.payload then
        some (s, .verifySignature credentials parsed)
      else some (s, .rejected .nonceUnknown)
  | .verifySignature credentials parsed, s =>
      match cfg.verifySignature parsed credentials with
      | .error r => some (s, .rejected r)
      | .ok _ => some (s, .consumeNonceAfterSuccess parsed)
  | .consumeNonceAfterSuccess parsed, s =>
      some ({ s with nonces := s.nonces.del parsed.proof.payload },
        .accepted ⟨parsed.canonicalRaw, parsed.proof.payload, parsed.proof.timestamp⟩)
  | .accepted _, _ => none
  | .rejected _, _ => none

/-- `issueNonce` draws a random identifier, never one drawn before. -/
inductive Move where
  | issueNonce (nonce : String)
  | tick (ms : Nat)

def Config.move (cfg : Config) : Move → Store → Option Store
  | .issueNonce nonce, s =>
      if (s.issued nonce).isSome then none
      else some { s with
        nonces := s.nonces.put nonce ⟨(), some (s.now + cfg.nonceTtl)⟩
        issued := Function.update s.issued nonce (some s.now) }
  | .tick ms, s => some { s with now := s.now + ms }

def Config.server (cfg : Config) : Server Store Call Move where
  opens p := match p with | .received _ => true | _ => false
  step := cfg.step
  env := cfg.move

def init (now : Nat) : Conf Store Call := ⟨.init now, []⟩

/-! ## What is counted -/

def accepts (nonce : String) : Call → Bool
  | .accepted v => v.nonce == nonce
  | _ => false

/-- The call has passed the presence test of `nonce` and its signature is good:
nothing can stop it any more. -/
def Config.holds (cfg : Config) (nonce : String) : Call → Bool
  | .verifySignature credentials parsed =>
      parsed.proof.payload == nonce && (cfg.verifySignature parsed credentials).toBool
  | .consumeNonceAfterSuccess parsed => parsed.proof.payload == nonce
  | _ => false

/-- Calls with good proofs of one nonce do not overlap: when one of them tests
the nonce, no other stands between its test and its deletion. -/
def Config.apart (cfg : Config) (c : Conf Store Call) : Action Call Move → Bool
  | .turn i =>
      match c.pool[i]? with
      | some (.assertNoncePresent credentials parsed) =>
          !(cfg.verifySignature parsed credentials).toBool
            || c.pool.countP (cfg.holds parsed.proof.payload) == 0
      | _ => true
  | _ => true

/-! ## One command -/

/-- What one command does. Only the deletion writes, and it is the last
command; a good proof gets past the presence test only while the key is there. -/
theorem Config.step_cases {cfg : Config} {p p' : Call} {s s' : Store}
    (h : cfg.step p s = some (s', p')) :
    (∃ parsed v, p = .consumeNonceAfterSuccess parsed ∧ p' = .accepted v
        ∧ v.nonce = parsed.proof.payload
        ∧ s' = { s with nonces := s.nonces.del parsed.proof.payload })
      ∨ (s' = s ∧ (∀ n, accepts n p = false ∧ accepts n p' = false)
        ∧ ((∀ n, cfg.holds n p' = true → cfg.holds n p = true)
          ∨ ∃ credentials parsed, p = .assertNoncePresent credentials parsed
            ∧ p' = .verifySignature credentials parsed
            ∧ s.nonces.has s.now parsed.proof.payload = true)) := by
  cases p with
  | received credentials =>
      refine .inr ?_
      simp only [step] at h
      cases hp : cfg.parseProof credentials with
      | error r =>
          simp only [hp, Option.some.injEq, Prod.mk.injEq] at h
          obtain ⟨rfl, rfl⟩ := h
          exact ⟨rfl, fun n => ⟨rfl, rfl⟩, .inl fun n hn => by cases hn⟩
      | ok parsed =>
          simp only [hp] at h
          split at h
          · cases h
            exact ⟨rfl, fun n => ⟨rfl, rfl⟩, .inl fun n hn => by cases hn⟩
          · cases h
            exact ⟨rfl, fun n => ⟨rfl, rfl⟩, .inl fun n hn => by cases hn⟩
          · split at h
            · cases h
              exact ⟨rfl, fun n => ⟨rfl, rfl⟩, .inl fun n hn => by cases hn⟩
            · cases h
              exact ⟨rfl, fun n => ⟨rfl, rfl⟩, .inl fun n hn => by cases hn⟩
  | assertNoncePresent credentials parsed =>
      refine .inr ?_
      simp only [step] at h
      split at h
      · rename_i hhas
        cases h
        exact ⟨rfl, fun n => ⟨rfl, rfl⟩, .inr ⟨credentials, parsed, rfl, rfl, hhas⟩⟩
      · cases h
        exact ⟨rfl, fun n => ⟨rfl, rfl⟩, .inl fun n hn => by cases hn⟩
  | verifySignature credentials parsed =>
      refine .inr ?_
      simp only [step] at h
      cases hv : cfg.verifySignature parsed credentials with
      | error r =>
          simp only [hv, Option.some.injEq, Prod.mk.injEq] at h
          obtain ⟨rfl, rfl⟩ := h
          exact ⟨rfl, fun n => ⟨rfl, rfl⟩, .inl fun n hn => by cases hn⟩
      | ok u =>
          simp only [hv, Option.some.injEq, Prod.mk.injEq] at h
          obtain ⟨rfl, rfl⟩ := h
          refine ⟨rfl, fun n => ⟨rfl, rfl⟩, .inl fun n hn => ?_⟩
          simp only [holds, hv, Except.toBool, Bool.and_true] at hn ⊢
          exact hn
  | consumeNonceAfterSuccess parsed =>
      simp only [step, Option.some.injEq, Prod.mk.injEq] at h
      obtain ⟨rfl, rfl⟩ := h
      exact .inl ⟨parsed, _, rfl, rfl, rfl, rfl⟩
  | accepted v => cases h
  | rejected r => cases h

/-! ## Every run -/

/-- A nonce is stored from its issue, with its deadline, until a call carrying
it is accepted; calls that fail do not touch it. -/
structure Config.Kept (cfg : Config) (c : Conf Store Call) : Prop where
  undrawn : ∀ n, c.store.issued n = none →
    c.store.nonces n = none ∧ c.pool.countP (accepts n) = 0 ∧ c.pool.countP (cfg.holds n) = 0
  drawn : ∀ n t, c.store.issued n = some t →
    c.store.nonces n =
      if c.pool.countP (accepts n) = 0 then some ⟨(), some (t + cfg.nonceTtl)⟩ else none

theorem Config.Kept.stored {cfg : Config} {c : Conf Store Call} (hk : cfg.Kept c) {n : String}
    (h : c.store.nonces.has c.store.now n = true) :
    (c.store.issued n).isSome = true ∧ c.pool.countP (accepts n) = 0 := by
  cases hi : c.store.issued n with
  | none =>
      have hn := (hk.undrawn n hi).1
      simp [Keyspace.has, Keyspace.find?_of_none hn] at h
  | some t =>
      refine ⟨rfl, ?_⟩
      have hn := hk.drawn n t hi
      by_contra hc
      rw [if_neg hc] at hn
      simp [Keyspace.has, Keyspace.find?_of_none hn] at h

theorem Config.kept_preserved (cfg : Config) :
    cfg.server.Preserves (fun _ _ => True) cfg.Kept where
  start c p hk _ hp := by
    cases p with
    | received credentials =>
        refine ⟨fun n hn => ?_, fun n t hn => ?_⟩
        · simpa [accepts, holds] using hk.undrawn n hn
        · simpa [accepts] using hk.drawn n t hn
    | assertNoncePresent | verifySignature | consumeNonceAfterSuccess | accepted | rejected =>
        cases hp
  turn c i p s' p' hk _ hi hs := by
    rcases cfg.step_cases hs with ⟨parsed, v, rfl, rfl, hv, rfl⟩ | ⟨rfl, ha, hh⟩
    · -- the deletion: its nonce goes from held to accepted, all others are as before
      have hheld : 0 < c.pool.countP (cfg.holds parsed.proof.payload) :=
        countP_pos_of _ hi (by simp [holds])
      refine ⟨fun n hn => ?_, fun n t hn => ?_⟩
      · have hne : n ≠ parsed.proof.payload := by
          rintro rfl
          have := (hk.undrawn _ hn).2.2
          omega
        obtain ⟨h₁, h₂, h₃⟩ := hk.undrawn n hn
        refine ⟨(Keyspace.del_other hne).trans h₁, ?_, ?_⟩
        · rw [countP_turn_eq _ hi _ (by simp [accepts, hv, Ne.symm hne])]
          exact h₂
        · rw [countP_turn_eq _ hi _ (by simp [holds, Ne.symm hne])]
          exact h₃
      · by_cases hne : n = parsed.proof.payload
        · subst hne
          have hc := countP_turn (accepts parsed.proof.payload) hi (.accepted v)
          have hpos : (c.pool.set i (.accepted v)).countP (accepts parsed.proof.payload) ≠ 0 := by
            simp only [accepts, hv, beq_self_eq_true, Bool.toNat_true, Bool.toNat_false] at hc
            omega
          rw [if_neg hpos]
          exact Keyspace.del_same _ _
        · dsimp only
          rw [Keyspace.del_other hne, countP_turn_eq _ hi _ (by simp [accepts, hv, Ne.symm hne])]
          exact hk.drawn n t hn
    · have hacc : ∀ n, (c.pool.set i p').countP (accepts n) = c.pool.countP (accepts n) :=
        fun n => countP_turn_eq _ hi _ (by rw [(ha n).1, (ha n).2])
      refine ⟨fun n hn => ?_, fun n t hn => by rw [hacc]; exact hk.drawn n t hn⟩
      obtain ⟨h₁, h₂, h₃⟩ := hk.undrawn n hn
      refine ⟨h₁, by rw [hacc]; exact h₂, ?_⟩
      rcases hh with hh | ⟨credentials, parsed, rfl, rfl, hhas⟩
      · exact Nat.le_zero.mp (h₃ ▸ countP_turn_le hi (hh n))
      · have hne : parsed.proof.payload ≠ n := by
          rintro rfl
          have := (hk.stored hhas).1
          rw [hn] at this
          cases this
        rw [countP_turn_eq _ hi _ (by simp [holds, hne])]
        exact h₃
  env c e s' hk _ hs := by
    cases e with
    | tick ms =>
        obtain rfl := Option.some.inj hs
        exact ⟨hk.undrawn, hk.drawn⟩
    | issueNonce m =>
        simp only [server, move] at hs
        split at hs
        · cases hs
        · rename_i hm
          obtain rfl := Option.some.inj hs
          have hfresh : c.store.issued m = none := by simpa using hm
          refine ⟨fun n hn => ?_, fun n t hn => ?_⟩
          · have hne : n ≠ m := by
              rintro rfl
              simp at hn
            simp only [Function.update_of_ne hne] at hn
            obtain ⟨h₁, h₂⟩ := hk.undrawn n hn
            exact ⟨(Keyspace.put_other _ hne).trans h₁, h₂⟩
          · by_cases hne : n = m
            · subst hne
              simp only [Function.update_self, Option.some.injEq] at hn
              rw [if_pos (hk.undrawn n hfresh).2.1, ← hn]
              exact Keyspace.put_same _ _ _
            · simp only [Function.update_of_ne hne] at hn
              exact (Keyspace.put_other _ hne).trans (hk.drawn n t hn)

theorem Config.kept_init (cfg : Config) (now : Nat) : cfg.Kept (init now) :=
  ⟨fun _ _ => ⟨rfl, rfl, rfl⟩, fun _ _ h => by cases h⟩

/-! ## Runs without overlap -/

/-- The calls that have passed for `n`, or will. -/
def Config.claims (cfg : Config) (n : String) (c : Conf Store Call) : Nat :=
  c.pool.countP (accepts n) + c.pool.countP (cfg.holds n)

theorem Config.claims_preserved (cfg : Config) :
    cfg.server.Preserves (fun c a => cfg.apart c a = true)
      fun c => cfg.Kept c ∧ ∀ n, cfg.claims n c ≤ 1 where
  start c p h _ hp := by
    refine ⟨cfg.kept_preserved.start c p h.1 trivial hp, fun n => ?_⟩
    cases p with
    | received credentials => simpa [claims, accepts, holds] using h.2 n
    | assertNoncePresent | verifySignature | consumeNonceAfterSuccess | accepted | rejected =>
        cases hp
  turn c i p s' p' h hg hi hs := by
    refine ⟨cfg.kept_preserved.turn c i p s' p' h.1 trivial hi hs, fun n => ?_⟩
    have hn := h.2 n
    have hc₁ := countP_turn (accepts n) hi p'
    have hc₂ := countP_turn (cfg.holds n) hi p'
    simp only [claims] at hn ⊢
    rcases cfg.step_cases hs with ⟨parsed, v, rfl, rfl, hv, -⟩ | ⟨rfl, ha, hh⟩
    · simp only [accepts, holds, hv, Bool.toNat_false] at hc₁ hc₂
      omega
    · rw [(ha n).1, (ha n).2] at hc₁
      rcases hh with hh | ⟨credentials, parsed, rfl, rfl, hhas⟩
      · have hle := countP_turn_le hi (hh n)
        omega
      · -- the key is there, so no call was accepted; `apart`: none holds the nonce
        simp only [apart, hi, Bool.or_eq_true, Bool.not_eq_true', beq_iff_eq] at hg
        have hacc := (h.1.stored hhas).2
        simp only [holds, Bool.toNat_false] at hc₂
        by_cases hne : parsed.proof.payload = n
        · subst hne
          cases hv : (cfg.verifySignature parsed credentials).toBool with
          | false =>
              simp only [hv, Bool.and_false, Bool.toNat_false] at hc₂
              omega
          | true =>
              rcases hg with hg | hg
              · rw [hv] at hg
                cases hg
              · simp only [hv, beq_self_eq_true, Bool.and_true, Bool.toNat_true] at hc₂
                omega
        · have hne' : (parsed.proof.payload == n) = false := beq_eq_false_iff_ne.mpr hne
          simp only [hne', Bool.false_and, Bool.toNat_false] at hc₂
          omega
  env c e s' h _ hs :=
    ⟨cfg.kept_preserved.env c e s' h.1 trivial hs, fun n => h.2 n⟩

/-- A failed call leaves the nonce as it was in every run; at most one call
is accepted where calls with good proofs are kept apart. -/
theorem nonce_once (cfg : Config) (now : Nat) :
    (∀ c, cfg.server.Reach (init now) c → ∀ n t, c.store.issued n = some t →
        c.pool.countP (accepts n) = 0 → c.store.nonces n = some ⟨(), some (t + cfg.nonceTtl)⟩)
      ∧ ∀ c, cfg.server.Run (fun c a => cfg.apart c a = true) (init now) c →
        ∀ n, c.pool.countP (accepts n) ≤ 1 := by
  refine ⟨fun c hrun n t hn hacc => ?_, fun c hrun n => ?_⟩
  · have hk := hrun.invariant cfg.kept_preserved (cfg.kept_init now)
    rw [hk.drawn n t hn, if_pos hacc]
  · have h := hrun.invariant cfg.claims_preserved ⟨cfg.kept_init now, fun _ => Nat.zero_le _⟩
    exact Nat.le_trans (Nat.le_add_right _ _) (h.2 n)

/-! ### Two calls on one nonce -/

/-- The proof text is the nonce; every signature is good except that of `"forged"`. -/
def sampleConfig : Config where
  nonceTtl := 300000
  maxProofAge := 300000
  expectedDomain := "burnedchats.net"
  toLowerCase := String.toLower
  parseProof c := .ok ⟨c.walletAddress.getD "", 0, ⟨"burnedchats.net", none⟩,
    c.walletAddress.getD "", c.walletProof.getD ""⟩
  verifySignature p _ :=
    if p.proof.signature = "forged" then .error .signatureInvalid else .ok ()

def sampleCall (wallet : String) : Call :=
  .received ⟨some "4f2c", some wallet, none, none⟩

/-- Both calls find the key, both delete it, both are accepted. -/
def overlapping : List (Action Call Move) :=
  [.env (.issueNonce "4f2c"), .start (sampleCall "0:a"), .start (sampleCall "0:b"),
    .turn 0, .turn 0, .turn 1, .turn 1, .turn 0, .turn 1, .turn 0, .turn 1]

theorem nonce_twice : ¬ ∀ (cfg : Config) (now : Nat) (c : Conf Store Call),
    cfg.server.Reach (init now) c → ∀ n, c.pool.countP (accepts n) ≤ 1 := by
  intro h
  have hrun : (sampleConfig.server.exec (init 0) overlapping).map
      (fun c => c.pool.countP (accepts "4f2c")) = some 2 := by decide +kernel
  obtain ⟨c, hc, htwo⟩ := Option.map_eq_some_iff.mp hrun
  have := h sampleConfig 0 c (Server.reach_of_exec hc) "4f2c"
  omega

/-- A forged proof fails and leaves the nonce, a good one passes, a later one
finds the key gone. -/
def inTurn : List (Action Call Move) :=
  [.env (.issueNonce "4f2c"), .start (sampleCall "forged"), .start (sampleCall "0:a"),
    .turn 0, .turn 0, .turn 1, .turn 1, .turn 0, .env (.tick 5), .turn 1, .turn 1,
    .start (sampleCall "0:b"), .turn 2, .turn 2]

theorem nonce_once_in_turn :
    ∃ c, sampleConfig.server.execWhile sampleConfig.apart (init 0) inTurn = some c
      ∧ c.pool.countP (accepts "4f2c") = 1 ∧ c.pool.countP (accepts "4f2c") ≤ 1 := by
  have hrun : (sampleConfig.server.execWhile sampleConfig.apart (init 0) inTurn).map
      (fun c => c.pool.countP (accepts "4f2c")) = some 1 := by decide +kernel
  obtain ⟨c, hc, hone⟩ := Option.map_eq_some_iff.mp hrun
  refine ⟨c, hc, hone, ?_⟩
  exact (nonce_once sampleConfig 0).2 c (Server.run_of_execWhile (fun _ _ h => h) hc) "4f2c"

end TonProofVerifier

end BurnedChats

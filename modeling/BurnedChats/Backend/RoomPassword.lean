import BurnedChats.Lib.Keyspace
import BurnedChats.Backend.Sessions

/-!
# Guessing a room password

`validatePasswordAndJoin` counts an attempt before it looks at the proof: a script
increments the counter of the room and the user and, for the attempt that reads one,
sets the window. An attempt over the limit is refused, a correct proof deletes the
counter. Attempts of any users interleave command by command, and the script is one
command.

`guesses_bounded` needs one fact each way. Without a correct proof nothing deletes the
counter, so the windows of a run follow one another (`Budget`). And the counter is never
without a window, since the attempt that creates it also sets its expiry (`Windowed`).
-/

namespace BurnedChats

open Interleave

namespace RoomPassword

/-! ## Attempts -/

/-- What an attempt carries: the room as it was read, the user and the proof. -/
structure JoinAttempt where
  roomId : String
  senderInternalId : String
  passwordProofHash : Option String
  passwordProof : Option String
deriving DecidableEq

/-- The key of the counter, `roomId:senderInternalId`. -/
def passwordFailKey (a : JoinAttempt) : String × String := (a.roomId, a.senderInternalId)

/-- The limit of attempts in a window of so many seconds. -/
structure LimitConfig where
  maxRequests : Nat
  windowSeconds : Nat

/-- The window on the server's clock of milliseconds. -/
def LimitConfig.window (config : LimitConfig) : Nat := config.windowSeconds * 1000

/-- The counters of the rate limit, on a clock of milliseconds. -/
structure Redis where
  now : Nat
  counters : Keyspace (String × String) Nat

/-- `INCR`, and `EXPIRE` for the call that reads one; returns what it read. -/
def incrementAndExpire (config : LimitConfig) (k : String × String) (s : Redis) : Redis × Nat :=
  let incremented := s.counters.alter s.now k fun v => v.getD 0 + 1
  let count := (incremented.get? s.now k).getD 0
  ({ s with counters :=
      if count = 1 then incremented.expire s.now config.window k else incremented }, count)

/-- Where an attempt stands. `getExpire` was counted over the limit, `verify` within it;
`wrongPassword` and `joining` say whether the proof was verified on the way. -/
inductive Call where
  | requestJoin (a : JoinAttempt)
  | getExpire (a : JoinAttempt)
  | limited (a : JoinAttempt) (retryAfter : Option Nat)
  | verify (a : JoinAttempt)
  | wrongPassword (a : JoinAttempt) (verified : Bool)
  | reset (a : JoinAttempt)
  | joining (a : JoinAttempt) (verified : Bool)
deriving DecidableEq

def Call.attempt : Call → JoinAttempt
  | .requestJoin a => a
  | .getExpire a => a
  | .limited a _ => a
  | .verify a => a
  | .wrongPassword a _ => a
  | .reset a => a
  | .joining a _ => a

def Call.key (p : Call) : String × String := passwordFailKey p.attempt

section Server

variable (config : LimitConfig) (verifyProof : String → String → Bool)

/-- The next command of `validatePasswordAndJoin`. -/
def step : Call → Redis → Option (Redis × Call)
  | .requestJoin a, s =>
      if Sessions.hasText a.passwordProofHash then
        let (s', count) := incrementAndExpire config (passwordFailKey a) s
        some (s', if config.maxRequests < count then .getExpire a else .verify a)
      else some (s, .joining a false)
  | .getExpire a, s =>
      some (s, .limited a ((s.counters.find? s.now (passwordFailKey a)).bind (·.deadline)))
  | .verify a, s =>
      if !Sessions.hasText a.passwordProof then some (s, .wrongPassword a false)
      else if !verifyProof (a.passwordProof.getD "") (a.passwordProofHash.getD "") then
        some (s, .wrongPassword a true)
      else some (s, .reset a)
  | .reset a, s =>
      some ({ s with counters := s.counters.del (passwordFailKey a) }, .joining a true)
  | _, _ => none

/-- The attempts and the clock; `tick n` lets `n` milliseconds pass. -/
def joins : Server Redis Call Nat where
  opens p := match p with
    | .requestJoin _ => true
    | _ => false
  step := step config verifyProof
  env n s := some { s with now := s.now + n }

/-- Who started which counter when. -/
abbrev Starts := List ((String × String) × Nat)

def recordStart (p : Call) (s : Redis) (log : Starts) : Starts :=
  match p with
  | .requestJoin a =>
      if Sessions.hasText a.passwordProofHash
          && (incrementAndExpire config (passwordFailKey a) s).2 == 1 then
        (passwordFailKey a, s.now) :: log
      else log
  | _ => log

/-- The server with the record of the attempts that started a counter. -/
def recorded : Server (Redis × Starts) Call Nat :=
  (joins config verifyProof).recording (recordStart config)

/-- The proof the attempt carries would be accepted. -/
def isCorrect (a : JoinAttempt) : Bool :=
  Sessions.hasText a.passwordProof
    && verifyProof (a.passwordProof.getD "") (a.passwordProofHash.getD "")

/-- No attempt under `k` arrives with a correct proof. -/
def Guessing (k : String × String) (_ : Conf (Redis × Starts) Call) (a : Action Call Nat) : Prop :=
  ∀ p, a = .start p → p.key = k → isCorrect verifyProof p.attempt = false

/-- An attempt of the user that got past the limit. -/
def admitted (k : String × String) (p : Call) : Bool :=
  p.key == k && match p with
    | .verify _ => true
    | .wrongPassword _ _ => true
    | .reset _ => true
    | .joining _ verified => verified
    | _ => false

/-- An attempt of the user whose proof was put to `verifyProof`. -/
def verified (k : String × String) (p : Call) : Bool :=
  p.key == k && match p with
    | .wrongPassword _ verified => verified
    | .reset _ => true
    | .joining _ verified => verified
    | _ => false

/-- The next attempt under `k` would be refused. -/
def lockedOut (s : Redis) (k : String × String) : Bool :=
  config.maxRequests < (s.counters.get? s.now k).getD 0 + 1

end Server

/-! ## The script -/

variable {config : LimitConfig} {verifyProof : String → String → Bool} {k : String × String}

/-- The counter starts a window, or it counts on in the one it has. -/
theorem incrementAndExpire_cases (config : LimitConfig) (k : String × String) (s : Redis) :
    ((s.counters.get? s.now k).getD 0 = 0 ∧ incrementAndExpire config k s
        = ({ s with counters := s.counters.put k ⟨1, some (s.now + config.window)⟩ }, 1)) ∨
      ∃ e, s.counters.find? s.now k = some e ∧ 0 < e.value ∧ incrementAndExpire config k s
        = ({ s with counters := s.counters.put k ⟨e.value + 1, e.deadline⟩ }, e.value + 1) := by
  have hread : (s.counters.alter s.now k fun v => v.getD 0 + 1).get? s.now k
      = some ((s.counters.get? s.now k).getD 0 + 1) := by
    unfold Keyspace.alter Keyspace.get?
    cases h : s.counters.find? s.now k with
    | none => simp [Keyspace.find?_put (e := ⟨1, none⟩) rfl]
    | some e =>
        have hlive := (Keyspace.find?_eq_some.mp h).2
        simp [Keyspace.find?_put (e := ⟨e.value + 1, e.deadline⟩) hlive]
  unfold incrementAndExpire
  simp only [hread, Option.getD_some]
  by_cases hzero : (s.counters.get? s.now k).getD 0 = 0
  · refine .inl ⟨hzero, ?_⟩
    rw [hzero, Nat.zero_add, if_pos rfl, Keyspace.expire_alter, hzero]
  · rw [if_neg (by omega)]
    cases h : s.counters.find? s.now k with
    | none => simp [Keyspace.get?, h] at hzero
    | some e =>
        have hget : s.counters.get? s.now k = some e.value := by simp [Keyspace.get?, h]
        rw [hget, Option.getD_some] at hzero ⊢
        refine .inr ⟨e, rfl, by omega, ?_⟩
        simp [Keyspace.alter, h]

/-- What a command can do to the store. -/
theorem step_cases {p p' : Call} {s s' : Redis} (h : step config verifyProof p s = some (s', p')) :
    p'.attempt = p.attempt ∧
      ((∃ a, p = .requestJoin a ∧ Sessions.hasText a.passwordProofHash = true
          ∧ s' = (incrementAndExpire config p.key s).1
          ∧ p' = if config.maxRequests < (incrementAndExpire config p.key s).2 then .getExpire a
            else .verify a)
        ∨ (∃ a, p = .reset a ∧ s' = { s with counters := s.counters.del p.key }
          ∧ p' = .joining a true)
        ∨ (s' = s ∧ (∀ log, recordStart config p s log = log)
          ∧ (∀ k, admitted k p' = admitted k p)
          ∧ ∀ a, p' = .reset a → isCorrect verifyProof a = true)) := by
  cases p with
  | requestJoin a =>
      simp only [step] at h
      split at h
      · rename_i htext
        obtain ⟨rfl, rfl⟩ := Prod.mk.inj (Option.some.inj h)
        refine ⟨?_, .inl ⟨a, rfl, htext, rfl, rfl⟩⟩
        split <;> rfl
      · rename_i htext
        obtain ⟨rfl, rfl⟩ := Prod.mk.inj (Option.some.inj h)
        refine ⟨rfl, .inr (.inr ⟨rfl, fun log => ?_, fun k => rfl, fun b hb => nomatch hb⟩)⟩
        simp [recordStart, htext]
  | getExpire a =>
      obtain ⟨rfl, rfl⟩ := Prod.mk.inj (Option.some.inj h)
      exact ⟨rfl, .inr (.inr ⟨rfl, fun _ => rfl, fun k => rfl, fun b hb => nomatch hb⟩)⟩
  | verify a =>
      simp only [step] at h
      split at h
      · obtain ⟨rfl, rfl⟩ := Prod.mk.inj (Option.some.inj h)
        exact ⟨rfl, .inr (.inr ⟨rfl, fun _ => rfl, fun k => rfl, fun b hb => nomatch hb⟩)⟩
      · rename_i htext
        split at h
        · obtain ⟨rfl, rfl⟩ := Prod.mk.inj (Option.some.inj h)
          exact ⟨rfl, .inr (.inr ⟨rfl, fun _ => rfl, fun k => rfl, fun b hb => nomatch hb⟩)⟩
        · rename_i hproof
          obtain ⟨rfl, rfl⟩ := Prod.mk.inj (Option.some.inj h)
          refine ⟨rfl, .inr (.inr ⟨rfl, fun _ => rfl, fun k => rfl, fun b hb => ?_⟩)⟩
          obtain rfl := Call.reset.inj hb
          simp only [Bool.not_eq_true', Bool.not_eq_false] at htext hproof
          rw [isCorrect, htext, hproof, Bool.and_self]
  | reset a =>
      obtain ⟨rfl, rfl⟩ := Prod.mk.inj (Option.some.inj h)
      exact ⟨rfl, .inr (.inl ⟨a, rfl, rfl, rfl⟩)⟩
  | limited a retryAfter => cases h
  | wrongPassword a verified => cases h
  | joining a verified => cases h

/-! ## The budget of a user without the password -/

/-- Attempts let through, since a moment `t₀` at which there was no counter: no more than
the full windows allow and the counter of the current one has counted. -/
def Budget (config : LimitConfig) (k : String × String) (t₀ : Nat)
    (c : Conf (Redis × Starts) Call) : Prop :=
  t₀ ≤ c.store.1.now ∧
    ((c.pool.countP (admitted k) = 0 ∧ c.store.1.counters.find? c.store.1.now k = none) ∨
      ∃ full e d, c.store.1.counters k = some e ∧ e.deadline = some d ∧ 0 < e.value ∧
        t₀ + (full + 1) * config.window ≤ d ∧ d ≤ c.store.1.now + config.window ∧
        c.pool.countP (admitted k) ≤ full * config.maxRequests + min e.value config.maxRequests)

/-- An attempt of the user that will not delete the counter. -/
def Harmless (verifyProof : String → String → Bool) (k : String × String) (p : Call) : Prop :=
  p.key = k → isCorrect verifyProof p.attempt = false ∧ ∀ a, p ≠ .reset a

/-- The counter of one user is out of reach of the attempts of another. -/
theorem incrementAndExpire_other {k' : String × String} {s : Redis} (h : k ≠ k') :
    (incrementAndExpire config k' s).1.now = s.now
      ∧ (incrementAndExpire config k' s).1.counters k = s.counters k := by
  rcases incrementAndExpire_cases config k' s with ⟨-, heq⟩ | ⟨e, -, -, heq⟩ <;> rw [heq]
  · exact ⟨rfl, Keyspace.put_other _ h⟩
  · exact ⟨rfl, Keyspace.put_other _ h⟩

theorem admitted_other {p : Call} (h : p.key ≠ k) : admitted k p = false := by
  simp [admitted, h]

/-- The budget depends on the clock, the counter and the attempts let through. -/
theorem Budget.of_eq {t₀ : Nat} {c c' : Conf (Redis × Starts) Call} (h : Budget config k t₀ c)
    (hnow : c.store.1.now ≤ c'.store.1.now)
    (hk : c'.store.1.counters k = c.store.1.counters k)
    (hpool : c'.pool.countP (admitted k) = c.pool.countP (admitted k)) :
    Budget config k t₀ c' := by
  obtain ⟨ht, h⟩ := h
  refine ⟨by omega, ?_⟩
  rcases h with ⟨hcount, hnone⟩ | ⟨full, e, d, he, hd, hpos, hlo, hhi, hcount⟩
  · refine .inl ⟨by omega, ?_⟩
    cases hf : c'.store.1.counters.find? c'.store.1.now k with
    | none => rfl
    | some e =>
        have hsame : c'.store.1.counters.find? c'.store.1.now k
            = c.store.1.counters.find? c'.store.1.now k := by
          simp only [Keyspace.find?, hk]
        rw [hsame] at hf
        rw [Keyspace.find?_earlier hnow hf] at hnone
        cases hnone
  · exact .inr ⟨full, e, d, by rw [hk]; exact he, hd, hpos, hlo, by omega, by omega⟩

/-- An attempt of the user: let through, it is counted; refused, it is not. -/
theorem Budget.attempt {t₀ : Nat} {c : Conf (Redis × Starts) Call} {i : Nat} {a : JoinAttempt}
    (log : Starts) (h : Budget config k t₀ c) (hi : c.pool[i]? = some (.requestJoin a))
    (hk : passwordFailKey a = k) :
    Budget config k t₀ ⟨((incrementAndExpire config k c.store.1).1, log), c.pool.set i
      (if config.maxRequests < (incrementAndExpire config k c.store.1).2 then .getExpire a
        else .verify a)⟩ := by
  have hcount : ∀ p', p' = .getExpire a ∨ p' = .verify a →
      (c.pool.set i p').countP (admitted k)
        = c.pool.countP (admitted k) + (admitted k p').toNat := by
    intro p' _
    have hturn := Interleave.countP_turn (admitted k) hi p'
    have hopen : admitted k (.requestJoin a) = false := Bool.and_false _
    rw [hopen, Bool.toNat_false, Nat.add_zero] at hturn
    exact hturn
  have hgetExpire : (admitted k (.getExpire a)).toNat = 0 := by simp [admitted]
  have hverify : (admitted k (.verify a)).toNat = 1 := by
    simp [admitted, Call.key, Call.attempt, hk]
  obtain ⟨ht, h⟩ := h
  rcases incrementAndExpire_cases config k c.store.1 with ⟨hzero, heq⟩ | ⟨e, hfind, hpos, heq⟩
  -- a new window
  · rw [heq]
    refine ⟨ht, .inr ?_⟩
    have hnew : (c.pool.set i (if config.maxRequests < 1 then .getExpire a else .verify a)).countP
        (admitted k) ≤ c.pool.countP (admitted k) + min 1 config.maxRequests := by
      split
      · rw [hcount _ (.inl rfl), hgetExpire]
        omega
      · rw [hcount _ (.inr rfl), hverify]
        omega
    rcases h with ⟨hnone, -⟩ | ⟨full, e, d, he, hd, hpos, hlo, hhi, hle⟩
    · refine ⟨0, _, _, Keyspace.put_same .., rfl, Nat.one_pos, ?_, Nat.le_refl _, ?_⟩
      · simp only [Nat.zero_add, Nat.one_mul]
        omega
      · simp only [Nat.zero_mul, Nat.zero_add]
        omega
    · have hdead : d < c.store.1.now := by
        by_contra hlive
        have hfind : c.store.1.counters.find? c.store.1.now k = some e :=
          Keyspace.find?_eq_some.mpr ⟨he, by simp only [Entry.live, hd, decide_eq_true_eq]; omega⟩
        simp only [Keyspace.get?, hfind, Option.map_some, Option.getD_some] at hzero
        omega
      refine ⟨full + 1, _, _, Keyspace.put_same .., rfl, Nat.one_pos, ?_, Nat.le_refl _, ?_⟩
      · have hsplit : (full + 1 + 1) * config.window = (full + 1) * config.window + config.window :=
          Nat.succ_mul ..
        omega
      · have hsplit : (full + 1) * config.maxRequests = full * config.maxRequests
            + config.maxRequests := Nat.succ_mul ..
        refine Nat.le_trans hnew ?_
        dsimp only at hle ⊢
        omega
  -- on in the window
  · rw [heq]
    refine ⟨ht, .inr ?_⟩
    rcases h with ⟨-, hnone⟩ | ⟨full, e', d, he, hd, -, hlo, hhi, hle⟩
    · rw [hnone] at hfind
      cases hfind
    · obtain ⟨he', -⟩ := Keyspace.find?_eq_some.mp hfind
      obtain rfl : e' = e := Option.some.inj (he.symm.trans he')
      refine ⟨full, _, d, Keyspace.put_same .., hd, Nat.succ_pos _, hlo, hhi, ?_⟩
      dsimp only
      split
      · rw [hcount _ (.inl rfl), hgetExpire]
        omega
      · rw [hcount _ (.inr rfl), hverify]
        omega

theorem budget_preserved (t₀ : Nat) : (recorded config verifyProof).Preserves
    (Guessing verifyProof k)
    (fun c => Budget config k t₀ c ∧ ∀ p ∈ c.pool, Harmless verifyProof k p) where
  start := by
    rintro c p ⟨hbudget, hharmless⟩ hg hp
    have hopen : ∃ a, p = .requestJoin a := by
      cases p with
      | requestJoin a => exact ⟨a, rfl⟩
      | _ => cases hp
    obtain ⟨a, rfl⟩ := hopen
    refine ⟨hbudget.of_eq (Nat.le_refl _) rfl ?_, Interleave.forall_start hharmless fun hk => ?_⟩
    · rw [Interleave.countP_start]
      simp [admitted]
    · exact ⟨hg _ rfl hk, fun b hb => nomatch hb⟩
  turn := by
    rintro c i p s' p' ⟨hbudget, hharmless⟩ - hi hs
    obtain ⟨hstep, -⟩ := Server.recording_step hs
    have hp := hharmless p (List.mem_of_getElem? hi)
    obtain ⟨hattempt, hcases⟩ := step_cases hstep
    have hkey : p'.key = p.key := congrArg passwordFailKey hattempt
    rcases hcases with ⟨a, rfl, -, hs', hp'⟩ | ⟨a, rfl, hs', rfl⟩ | ⟨hs', -, hsame, hreset⟩
    · refine ⟨?_, Interleave.forall_turn hharmless fun hk => ⟨?_, fun b hb => ?_⟩⟩
      · by_cases hk : passwordFailKey a = k
        · have hstep := hbudget.attempt s'.2 hi hk
          obtain ⟨redis, log⟩ := s'
          obtain rfl : redis = _ := hs'
          subst hk
          rw [hp']
          exact hstep
        · obtain ⟨hnow, hother⟩ := @incrementAndExpire_other config k _ c.store.1
            (Ne.symm hk)
          refine hbudget.of_eq (by rw [hs']; exact Nat.le_of_eq hnow.symm)
            (by rw [hs']; exact hother) ?_
          refine Interleave.countP_turn_eq _ hi _ ?_
          have hp' : p'.key ≠ k := hkey ▸ hk
          rw [admitted_other hp', admitted_other (p := .requestJoin a) hk]
      · rw [hattempt]
        exact (hp (hkey ▸ hk)).1
      · rw [hp'] at hb
        split at hb <;> cases hb
    · have hother : passwordFailKey a ≠ k := fun hk => (hp hk).2 a rfl
      refine ⟨hbudget.of_eq (by rw [hs']) ?_ ?_, Interleave.forall_turn hharmless fun hk => ?_⟩
      · rw [hs']
        exact Keyspace.del_other (Ne.symm hother)
      · refine Interleave.countP_turn_eq _ hi _ ?_
        rw [admitted_other (p := .joining a true) hother, admitted_other (p := .reset a) hother]
      · exact absurd hk hother
    · refine ⟨hbudget.of_eq (by rw [hs']) (by rw [hs'])
        (Interleave.countP_turn_eq _ hi _ (hsame k)), Interleave.forall_turn hharmless fun hk => ?_⟩
      have hwrong := (hp (hkey ▸ hk)).1
      refine ⟨by rw [hattempt]; exact hwrong, fun b hb => ?_⟩
      have hcorrect := hreset b hb
      rw [← hattempt, hb] at hwrong
      exact absurd hcorrect (by rw [show b = Call.attempt (.reset b) from rfl, hwrong]; simp)
  env := by
    rintro c n s' ⟨hbudget, hharmless⟩ - hs
    obtain ⟨hs, -⟩ := Server.recording_env hs
    have hs := (Option.some.inj hs).symm
    exact ⟨hbudget.of_eq (by rw [hs]; exact Nat.le_add_right ..) (by rw [hs]) rfl, hharmless⟩

/-- Full windows and the one that is running. -/
theorem Budget.le {t₀ : Nat} {c : Conf (Redis × Starts) Call} (h : Budget config k t₀ c)
    (hw : 0 < config.window) :
    c.pool.countP (admitted k)
      ≤ config.maxRequests * ((c.store.1.now - t₀) / config.window + 1) := by
  obtain ⟨ht, ⟨hzero, -⟩ | ⟨full, e, d, -, -, -, hlo, hhi, hcount⟩⟩ := h
  · omega
  · have hsplit : (full + 1) * config.window = full * config.window + config.window :=
      Nat.succ_mul ..
    have hfull : full ≤ (c.store.1.now - t₀) / config.window :=
      (Nat.le_div_iff_mul_le hw).mpr (by omega)
    calc c.pool.countP (admitted k)
        ≤ full * config.maxRequests + config.maxRequests := by omega
      _ = config.maxRequests * (full + 1) := by rw [Nat.mul_comm, Nat.mul_succ]
      _ ≤ _ := Nat.mul_le_mul_left _ (Nat.succ_le_succ hfull)

/-! ## The window of a counter -/

/-- Every counter was started by an attempt on record, and expires a window later. -/
def Windowed (config : LimitConfig) (s : Redis × Starts) : Prop :=
  ∀ k e, s.1.counters k = some e → ∃ started, (k, started) ∈ s.2 ∧
    started ≤ s.1.now ∧ e.deadline = some (started + config.window)

theorem Windowed.put {s : Redis × Starts} {e : Entry Nat} {log : Starts} (h : Windowed config s)
    (hlog : ∀ x ∈ s.2, x ∈ log) (he : ∃ started, (k, started) ∈ log ∧ started ≤ s.1.now ∧
      e.deadline = some (started + config.window)) :
    Windowed config ({ s.1 with counters := s.1.counters.put k e }, log) := by
  intro k' e' hk'
  dsimp only at hk' ⊢
  by_cases hk : k' = k
  · subst hk
    rw [Keyspace.put_same] at hk'
    obtain rfl := Option.some.inj hk'
    exact he
  · rw [Keyspace.put_other _ hk] at hk'
    obtain ⟨started, hmem, hle, hd⟩ := h k' e' hk'
    exact ⟨started, hlog _ hmem, hle, hd⟩

theorem windowed_preserved :
    (recorded config verifyProof).Preserves (fun _ _ => True)
      (fun c => Windowed config c.store) where
  start := fun c p h _ _ => h
  turn := by
    rintro c i p ⟨redis, log⟩ p' h - hi hs
    obtain ⟨hstep, hlog⟩ := Server.recording_step hs
    obtain ⟨-, hcases⟩ := step_cases hstep
    dsimp only at hlog hcases ⊢
    rcases hcases with ⟨a, rfl, htext, rfl, -⟩ | ⟨a, rfl, rfl, -⟩ | ⟨rfl, hkeep, -, -⟩
    · simp only [recordStart, htext, Bool.true_and, Call.key, Call.attempt] at hlog ⊢
      rcases incrementAndExpire_cases config (passwordFailKey a) c.store.1 with
        ⟨-, heq⟩ | ⟨e, hfind, hpos, heq⟩
      · rw [heq] at hlog ⊢
        rw [hlog]
        exact h.put (fun x hx => List.mem_cons_of_mem _ hx)
          ⟨c.store.1.now, List.mem_cons_self, Nat.le_refl _, rfl⟩
      · rw [heq, if_neg (by simp only [beq_iff_eq]; omega)] at hlog
        rw [heq, hlog]
        exact h.put (fun x hx => hx) (h _ e (Keyspace.find?_eq_some.mp hfind).1)
    · obtain rfl : log = c.store.2 := hlog
      intro k' e' hk'
      by_cases hk : k' = passwordFailKey a
      · subst hk
        simp only [Call.key, Call.attempt, Keyspace.del_same] at hk'
        cases hk'
      · exact h k' e' (by rw [← hk']; exact (Keyspace.del_other hk).symm)
    · rw [hlog, hkeep]
      exact h
  env := by
    rintro c n ⟨redis, log⟩ h - hs
    obtain ⟨hs, hlog⟩ := Server.recording_env hs
    obtain rfl := Option.some.inj hs
    obtain rfl : log = c.store.2 := hlog
    intro k' e' hk'
    obtain ⟨started, hmem, hle, hd⟩ := h k' e' hk'
    exact ⟨started, hmem, Nat.le_trans hle (Nat.le_add_right ..), hd⟩

/-! ## The bound -/

/-- Without a correct proof no more attempts are verified than the windows of the time
that passed allow; and a user is refused only within a window of the attempt that
started the counter. -/
theorem guesses_bounded (config : LimitConfig) (verifyProof : String → String → Bool)
    (hn : 1 ≤ config.maxRequests) (hw : 0 < config.windowSeconds) :
    (∀ (k : String × String) (s : Redis) (log : Starts) (c : Conf (Redis × Starts) Call),
      s.counters.find? s.now k = none →
      (recorded config verifyProof).Run (Guessing verifyProof k) ⟨(s, log), []⟩ c →
        c.pool.countP (verified k)
          ≤ config.maxRequests * ((c.store.1.now - s.now) / config.window + 1))
      ∧ ∀ (t : Nat) (c : Conf (Redis × Starts) Call),
        (recorded config verifyProof).Reach ⟨(⟨t, Keyspace.empty⟩, []), []⟩ c →
          (∀ k e, c.store.1.counters k = some e → ∃ started, (k, started) ∈ c.store.2 ∧
            started ≤ c.store.1.now ∧ e.deadline = some (started + config.window))
          ∧ ∀ k, lockedOut config c.store.1 k = true → ∃ started, (k, started) ∈ c.store.2 ∧
            started ≤ c.store.1.now ∧ c.store.1.now ≤ started + config.window := by
  refine ⟨fun k s log c hnone hrun => ?_, fun t c hreach => ?_⟩
  · have hstart : Budget config k s.now ⟨(s, log), []⟩ := ⟨Nat.le_refl _, .inl ⟨rfl, hnone⟩⟩
    obtain ⟨hbudget, -⟩ := hrun.invariant (budget_preserved s.now) ⟨hstart, by simp⟩
    refine Nat.le_trans (Interleave.countP_mono_of (fun p hp => ?_) _)
      (hbudget.le (Nat.mul_pos hw (by decide)))
    simp only [verified, admitted, Bool.and_eq_true] at hp ⊢
    refine ⟨hp.1, ?_⟩
    cases p with
    | joining a verified => exact hp.2
    | wrongPassword a verified => rfl
    | reset a => rfl
    | _ => cases hp.2
  · have hempty : Windowed config (⟨t, Keyspace.empty⟩, []) := fun k e he => by cases he
    have hwindowed : Windowed config c.store := hreach.invariant windowed_preserved hempty
    refine ⟨hwindowed, fun k hlocked => ?_⟩
    have hcount := of_decide_eq_true hlocked
    cases hfind : c.store.1.counters.find? c.store.1.now k with
    | none =>
        simp only [Keyspace.get?, hfind, Option.map_none, Option.getD_none] at hcount
        omega
    | some e =>
        obtain ⟨he, hlive⟩ := Keyspace.find?_eq_some.mp hfind
        obtain ⟨started, hmem, hle, hd⟩ := hwindowed k e he
        simp only [Entry.live, hd, decide_eq_true_eq] at hlive
        exact ⟨started, hmem, hle, hlive⟩

/-- A guess at the password of room `r`. -/
def guess : Call := .requestJoin ⟨"r", "u", some "secret", some "guess"⟩

def isGuess : Action Call Nat → Bool
  | .start p => !isCorrect (· == ·) p.attempt
  | _ => true

/-- With a limit of one, a second guess is refused and a third comes after the window. -/
theorem guesses_bounded_twice : ∃ c,
    (recorded ⟨1, 600⟩ (· == ·)).Run (Guessing (· == ·) ("r", "u"))
      ⟨(⟨0, Keyspace.empty⟩, []), []⟩ c
    ∧ c.pool.countP (verified ("r", "u")) = 2
    ∧ c.pool.countP (verified ("r", "u")) ≤ 1 * ((c.store.1.now - 0) / 600000 + 1) := by
  obtain ⟨c, hrun, hq⟩ := (recorded ⟨1, 600⟩ (· == ·)).exists_run_of_execWhile
    (G := Guessing (· == ·) ("r", "u")) (fun _ => isGuess) ⟨(⟨0, Keyspace.empty⟩, []), []⟩
    [.start guess, .turn 0, .start guess, .turn 1, .turn 0, .turn 1, .env 600001, .start guess,
      .turn 2, .turn 2]
    (fun c => c.pool.countP (verified ("r", "u")) == 2)
    (by
      intro c a ha p hp _
      subst hp
      simpa only [isGuess, Bool.not_eq_true'] using ha)
    (by decide +kernel)
  exact ⟨c, hrun, eq_of_beq hq, (guesses_bounded ⟨1, 600⟩ (· == ·) (by decide) (by decide)).1
    ("r", "u") ⟨0, Keyspace.empty⟩ [] c rfl hrun⟩

end RoomPassword

end BurnedChats

import BurnedChats.Backend.WalletProof

/-!
# Proof-of-work challenges

`PowChallengeService` stores a challenge under `pow:challenge:{id}` in two
commands, the hash and then its time to live; `PowVerificationService` first
claims the marker `pow:spent:{id}`, which lives for the replay window, then
reads the challenge, checks action and difficulty, and deletes it.

What keeps a challenge from being spent twice is that a claimed marker outlives
the challenge it stands for: a second claim can only succeed when the challenge
has expired, or has been deleted by the call that passed. This needs the
replay window to be no shorter than the time to live (`challenge_spent_once`),
and the random identifier to be unknown until the challenge is handed out.
-/

namespace BurnedChats

open Interleave

namespace Pow

/-! ## Hash and difficulty -/

/-- The bits of one byte from the highest of `n` on, up to the first that is set. -/
def zeroBitsFrom (b : UInt8) : Nat → Nat
  | 0 => 0
  | n + 1 => if b.toNat.testBit n then 0 else 1 + zeroBitsFrom b n

/-- `PowHash.leadingZeroBits`. -/
def leadingZeroBits : List UInt8 → Nat
  | [] => 0
  | b :: hash => if b = 0 then 8 + leadingZeroBits hash else zeroBitsFrom b 8

inductive PowAction where
  | sessionCreate | search | roomCreate | invite | dmInvite
deriving DecidableEq

def PowAction.wireValue : PowAction → String
  | .sessionCreate => "session_create"
  | .search => "search"
  | .roomCreate => "room_create"
  | .invite => "invite"
  | .dmInvite => "dm_invite"

theorem PowAction.wireValue_injective {a b : PowAction} (h : a.wireValue = b.wireValue) :
    a = b := by
  cases a <;> cases b <;> first | rfl | (exact absurd h (by decide))

/-- `PowProperties`, in milliseconds, and the digest of the platform. -/
structure PowProperties where
  enabled : Bool
  challengeTtl : Nat
  replayWindow : Nat
  ceiling : Int
  sha256 : String → List UInt8

def PowProperties.meetsDifficulty (cfg : PowProperties) (challengeId nonce : String)
    (difficulty : Int) : Bool :=
  difficulty ≤ leadingZeroBits (cfg.sha256 (challengeId ++ nonce))

/-! ## Requests -/

/-- The hash of a challenge; `HMSET` writes its three fields at once. -/
structure ChallengeHash where
  action : String
  difficulty : Int
  issuedAt : Nat

structure Store where
  now : Nat
  challenges : Keyspace String ChallengeHash
  spent : Keyspace String Unit

structure PowSolution where
  challengeId : Option String
  nonce : Option String

inductive PowError where
  | required | alreadySpent | actionMismatch | insufficientDifficulty
deriving DecidableEq

/-- A request, by its next command: `issue` with the identifier it has drawn, or
`verify`. A rejected call remembers the challenge it named. -/
inductive Call where
  | issue (action : PowAction) (difficulty : Int) (challengeId : String)
  | expire (action : PowAction) (difficulty : Int) (challengeId : String)
  | issued (action : PowAction) (difficulty : Int) (challengeId : String)
  | verify (action : PowAction) (solution : Option PowSolution)
  | load (action : PowAction) (challengeId nonce : String)
  | consume (action : PowAction) (challengeId nonce : String)
  | verified (action : PowAction) (challengeId nonce : String)
  | unchecked (action : PowAction) (solution : Option PowSolution)
  | rejected (challengeId : Option String) (error : PowError)

/-- The identifier and the nonce, when both are given. -/
def PowSolution.given (solution : PowSolution) : Option (String × String) :=
  match solution.challengeId, solution.nonce with
  | some id, some nonce => if isBlank id || isBlank nonce then none else some (id, nonce)
  | _, _ => none

/-- `validateAndConsume`, up to the deletion. -/
def PowProperties.validate (cfg : PowProperties) (action : PowAction)
    (challengeId nonce : String) (fields : Option ChallengeHash) : Except PowError Unit :=
  match fields with
  | none => .error .required
  | some hash =>
      if action.wireValue ≠ hash.action then .error .actionMismatch
      else if !cfg.meetsDifficulty challengeId nonce hash.difficulty then
        .error .insufficientDifficulty
      else .ok ()

def PowProperties.step (cfg : PowProperties) : Call → Store → Option (Store × Call)
  | .issue action difficulty id, s =>
      if cfg.enabled then
        let effective := min difficulty cfg.ceiling
        some ({ s with challenges :=
          s.challenges.alter s.now id fun _ => ⟨action.wireValue, effective, s.now⟩ },
          .expire action effective id)
      else some (s, .issued action 0 id)
  | .expire action difficulty id, s =>
      some ({ s with challenges := s.challenges.expire s.now cfg.challengeTtl id },
        .issued action difficulty id)
  | .issued _ _ _, _ => none
  | .verify action solution, s =>
      if !cfg.enabled then some (s, .unchecked action solution)
      else
        match solution.bind PowSolution.given with
        | none => some (s, .rejected (solution.bind (·.challengeId)) .required)
        | some (id, nonce) =>
            if s.spent.has s.now id then some (s, .rejected (some id) .alreadySpent)
            else some ({ s with spent := s.spent.put id ⟨(), some (s.now + cfg.replayWindow)⟩ },
              .load action id nonce)
  | .load action id nonce, s =>
      match cfg.validate action id nonce (s.challenges.get? s.now id) with
      | .error e => some (s, .rejected (some id) e)
      | .ok _ => some (s, .consume action id nonce)
  | .consume action id nonce, s =>
      some ({ s with challenges := s.challenges.del id }, .verified action id nonce)
  | .verified _ _ _, _ => none
  | .unchecked _ _, _ => none
  | .rejected _ _, _ => none

inductive Move where
  | tick (ms : Nat)

def PowProperties.server (cfg : PowProperties) : Server Store Call Move where
  opens p :=
    match p with
    | .issue .. => true
    | .verify .. => true
    | _ => false
  step := cfg.step
  env m s := match m with | .tick ms => some { s with now := s.now + ms }

def init (now : Nat) : Conf Store Call := ⟨⟨now, .empty, .empty⟩, []⟩

/-! ## Places -/

/-- The challenge a request has drawn: identifier, action and difficulty. -/
def PowProperties.drew (cfg : PowProperties) : Call → Option (String × PowAction × Int)
  | .issue a d id => some (id, a, min d cfg.ceiling)
  | .expire a d id => some (id, a, d)
  | .issued a d id => some (id, a, d)
  | _ => none

def draws (id : String) : Call → Bool
  | .issue _ _ id' => id' == id
  | .expire _ _ id' => id' == id
  | .issued _ _ id' => id' == id
  | _ => false

/-- Drawn, and not yet handed out. -/
def unsent (id : String) : Call → Bool
  | .issue _ _ id' => id' == id
  | .expire _ _ id' => id' == id
  | _ => false

/-- The call of `verify` names the challenge. -/
def names (id : String) : Call → Bool
  | .verify _ solution => solution.any fun s => s.challengeId == some id
  | .unchecked _ solution => solution.any fun s => s.challengeId == some id
  | .load _ id' _ => id' == id
  | .consume _ id' _ => id' == id
  | .verified _ id' _ => id' == id
  | .rejected id' _ => id' == some id
  | _ => false

/-- Past the claim and not yet through. -/
def busy (id : String) : Call → Bool
  | .load _ id' _ => id' == id
  | .consume _ id' _ => id' == id
  | _ => false

def consumes (id : String) : Call → Bool
  | .consume _ id' _ => id' == id
  | _ => false

def succeeds (id : String) : Call → Bool
  | .verified _ id' _ => id' == id
  | _ => false

/-- Identifiers come from a secure random generator: a drawn one is new, and
no call names it before it is handed out. -/
def unpredictable (c : Conf Store Call) : Action Call Move → Bool
  | .start (.issue _ _ id) => c.pool.countP (draws id) == 0 && c.pool.countP (names id) == 0
  | .start (.verify _ solution) =>
      match solution.bind (·.challengeId) with
      | none => true
      | some id => c.pool.countP (unsent id) == 0
  | _ => true

/-! ## What every command keeps -/

theorem names_of_busy (id : String) : ∀ p, busy id p = true → names id p = true
  | .load .., h => h
  | .consume .., h => h

theorem names_of_succeeds (id : String) : ∀ p, succeeds id p = true → names id p = true
  | .verified .., h => h

theorem draws_of_unsent (id : String) : ∀ p, unsent id p = true → draws id p = true
  | .issue .., h => h
  | .expire .., h => h

theorem busy_of_consumes (id : String) : ∀ p, consumes id p = true → busy id p = true
  | .consume .., h => h

theorem draws_of_drew {cfg : PowProperties} {id : String} {a : PowAction} {d : Int} :
    ∀ {p}, cfg.drew p = some (id, a, d) → draws id p = true := by
  intro p h
  cases p with
  | issue | expire | issued =>
      simp only [PowProperties.drew, Option.some.injEq, Prod.mk.injEq] at h
      simp [draws, h.1]
  | verify | load | consume | verified | unchecked | rejected => cases h

/-- The identifier a solution gives is the one its call names. -/
theorem names_of_given {id : String} {a : PowAction} {solution : Option PowSolution}
    {idn : String × String} (h : solution.bind PowSolution.given = some idn) :
    names id (.verify a solution) = (idn.1 == id) := by
  obtain ⟨s, rfl, hs⟩ := Option.bind_eq_some_iff.mp h
  simp only [PowSolution.given] at hs
  split at hs
  · rename_i id' nonce' hid hnonce
    split at hs
    · cases hs
    · obtain rfl := Option.some.inj hs
      simp [names, hid]
  · cases hs

/-- The challenge `id`: what is stored of it and the requests about it. -/
structure PowProperties.Sound (cfg : PowProperties) (id : String) (now : Nat)
    (entry : Option (Entry ChallengeHash)) (mark : Option (Entry Unit)) (pool : List Call) :
    Prop where
  drawn : pool.countP (draws id) ≤ 1
  secret : pool.countP (unsent id) = 0 ∨ pool.countP (names id) = 0
  stored : ∀ e, entry = some e →
    ∃ q ∈ pool, ∃ a, cfg.drew q = some (id, a, e.value.difficulty) ∧ e.value.action = a.wireValue
  open_ended : ∀ e, entry = some e → e.deadline = none → 0 < pool.countP (unsent id)
  deadline_le : ∀ e d, entry = some e → e.deadline = some d → d ≤ now + cfg.challengeTtl
  claimed : ∀ e, entry = some e → e.live now = true → 0 < pool.countP (busy id) →
    pool.countP (busy id) = 1
      ∧ ∃ last, mark = some ⟨(), some last⟩ ∧ ∀ d, e.deadline = some d → d ≤ last
  once : pool.countP (consumes id) + pool.countP (succeeds id) ≤ 1
  gone : 0 < pool.countP (succeeds id) → entry = none
  solved : ∀ q ∈ pool, ∀ a nonce, (q = .consume a id nonce ∨ q = .verified a id nonce) →
    ∃ r ∈ pool, ∃ d, cfg.drew r = some (id, a, d) ∧ cfg.meetsDifficulty id nonce d = true

namespace PowProperties.Sound

variable {cfg : PowProperties} {id : String} {now : Nat} {entry : Option (Entry ChallengeHash)}
  {mark : Option (Entry Unit)} {pool : List Call} {i : Nat} {p p' : Call}

/-- A step that neither claims, passes nor stores. -/
theorem quiet (h : cfg.Sound id now entry mark pool) (hi : pool[i]? = some p)
    (hdrew : cfg.drew p' = cfg.drew p) (hdraws : draws id p' = draws id p)
    (hnames : names id p' = names id p) (hunsent : unsent id p' = unsent id p)
    (hbusy : busy id p' = true → busy id p = true) (hcons : consumes id p' = false)
    (hsucc : succeeds id p' = false) : cfg.Sound id now entry mark (pool.set i p') := by
  have hb := countP_turn_le hi hbusy
  have hc : (pool.set i p').countP (consumes id) ≤ pool.countP (consumes id) :=
    countP_turn_le hi fun h' => by rw [hcons] at h'; cases h'
  have hs : (pool.set i p').countP (succeeds id) ≤ pool.countP (succeeds id) :=
    countP_turn_le hi fun h' => by rw [hsucc] at h'; cases h'
  refine ⟨?_, ?_, ?_, ?_, h.deadline_le, ?_, ?_, ?_, ?_⟩
  · rw [countP_turn_eq _ hi _ hdraws]
    exact h.drawn
  · rw [countP_turn_eq _ hi _ hunsent, countP_turn_eq _ hi _ hnames]
    exact h.secret
  · exact fun e he => exists_turn hi (by simp only [hdrew, imp_self]) (h.stored e he)
  · intro e he hd
    rw [countP_turn_eq _ hi _ hunsent]
    exact h.open_ended e he hd
  · intro e he hl hpos
    obtain ⟨hone, hmark⟩ := h.claimed e he hl (by omega)
    exact ⟨by omega, hmark⟩
  · have := h.once
    omega
  · exact fun hpos => h.gone (by omega)
  · intro q hq a nonce hqa
    rcases List.mem_or_eq_of_mem_set hq with hq | rfl
    · exact exists_turn hi (by simp only [hdrew, imp_self]) (h.solved q hq a nonce hqa)
    · rcases hqa with rfl | rfl
      · simp [consumes] at hcons
      · simp [succeeds] at hsucc

/-- While the identifier is unsent nobody is busy with it. -/
theorem unnamed (h : cfg.Sound id now entry mark pool) (hi : pool[i]? = some p)
    (hp : unsent id p = true) :
    pool.countP (names id) = 0 ∧ pool.countP (busy id) = 0 ∧ pool.countP (succeeds id) = 0 := by
  have hpos := countP_pos_of _ hi hp
  have hn : pool.countP (names id) = 0 := by
    rcases h.secret with h' | h'
    · omega
    · exact h'
  have hb := countP_mono_of (names_of_busy id) pool
  have hs := countP_mono_of (names_of_succeeds id) pool
  exact ⟨hn, by omega, by omega⟩

/-- The two commands of `issue`: the entry becomes `e'`, drawn by this request. -/
theorem issues (h : cfg.Sound id now entry mark pool) (hi : pool[i]? = some p)
    (hp : unsent id p = true) (hdrew : cfg.drew p' = cfg.drew p)
    (hdraws : draws id p' = draws id p) (hnames : names id p' = names id p)
    {entry' : Option (Entry ChallengeHash)}
    (hstored : ∀ e, entry' = some e →
      ∃ a, cfg.drew p = some (id, a, e.value.difficulty) ∧ e.value.action = a.wireValue)
    (hopen : ∀ e, entry' = some e → e.deadline = none → unsent id p' = true)
    (hdeadline : ∀ e d, entry' = some e → e.deadline = some d → d ≤ now + cfg.challengeTtl) :
    cfg.Sound id now entry' mark (pool.set i p') := by
  obtain ⟨hn, hb, hs⟩ := h.unnamed hi hp
  have hmem : p' ∈ pool.set i p' := by
    obtain ⟨hlt, -⟩ := List.getElem?_eq_some_iff.mp hi
    exact List.mem_set hlt p'
  have hn' : (pool.set i p').countP (names id) = 0 := by
    rw [countP_turn_eq _ hi _ hnames]
    exact hn
  have hb' := countP_mono_of (names_of_busy id) (pool.set i p')
  have hc' := countP_mono_of (busy_of_consumes id) (pool.set i p')
  have hs' := countP_mono_of (names_of_succeeds id) (pool.set i p')
  refine ⟨?_, .inr hn', ?_, ?_, hdeadline, ?_, by omega, by omega, ?_⟩
  · rw [countP_turn_eq _ hi _ hdraws]
    exact h.drawn
  · intro e he
    obtain ⟨a, ha, hw⟩ := hstored e he
    exact ⟨p', hmem, a, hdrew.trans ha, hw⟩
  · exact fun e he hd => List.countP_pos_iff.mpr ⟨p', hmem, hopen e he hd⟩
  · intro e _ _ hpos
    omega
  · intro q hq a nonce hqa
    have hq' : names id q = true := by
      rcases hqa with rfl | rfl <;> simp [names]
    have := List.countP_pos_iff.mpr ⟨q, hq, hq'⟩
    omega

/-- The claim: the marker was free, so nobody is busy with a live challenge. -/
theorem claims (h : cfg.Sound id now entry mark pool) {a : PowAction}
    {solution : Option PowSolution} {nonce : String}
    (hwin : cfg.challengeTtl ≤ cfg.replayWindow) (hi : pool[i]? = some (.verify a solution))
    (hnamed : names id (.verify a solution) = true)
    (hfree : ∀ d, mark = some ⟨(), some d⟩ → d < now) :
    cfg.Sound id now entry (some ⟨(), some (now + cfg.replayWindow)⟩)
      (pool.set i (.load a id nonce)) := by
  have hnames : names id (.load a id nonce) = names id (.verify a solution) := by
    rw [hnamed]
    simp [names]
  have hunsent : pool.countP (unsent id) = 0 := by
    have := countP_pos_of _ hi hnamed
    rcases h.secret with h' | h'
    · exact h'
    · omega
  refine ⟨?_, ?_, ?_, ?_, h.deadline_le, ?_, ?_, ?_, ?_⟩
  · rw [countP_turn_eq (draws id) hi (.load a id nonce) rfl]
    exact h.drawn
  · rw [countP_turn_eq (unsent id) hi (.load a id nonce) rfl]
    exact .inl hunsent
  · exact fun e he => exists_turn hi (fun hq => hq) (h.stored e he)
  · intro e he hd
    rw [countP_turn_eq (unsent id) hi (.load a id nonce) rfl]
    exact h.open_ended e he hd
  · intro e he hl _
    have hidle : pool.countP (busy id) = 0 := by
      by_contra hpos
      obtain ⟨-, last, hmark, hlast⟩ := h.claimed e he hl (by omega)
      cases hd : e.deadline with
      | none =>
          have := h.open_ended e he hd
          omega
      | some d =>
          have h₁ := hlast d hd
          have h₂ := hfree last hmark
          simp only [Entry.live, hd, decide_eq_true_eq] at hl
          omega
    have hc := countP_turn (busy id) hi (.load a id nonce)
    simp only [busy, beq_self_eq_true, Bool.toNat_true, Bool.toNat_false] at hc
    refine ⟨by omega, _, rfl, fun d hd => ?_⟩
    have := h.deadline_le e d he hd
    omega
  · rw [countP_turn_eq (consumes id) hi (.load a id nonce) rfl,
      countP_turn_eq (succeeds id) hi (.load a id nonce) rfl]
    exact h.once
  · rw [countP_turn_eq (succeeds id) hi (.load a id nonce) rfl]
    exact h.gone
  · intro q hq a' nonce' hqa
    rcases List.mem_or_eq_of_mem_set hq with hq | rfl
    · exact exists_turn hi (fun hr => hr) (h.solved q hq a' nonce' hqa)
    · rcases hqa with hqa | hqa <;> cases hqa

/-- A call passes the checks against a live entry. -/
theorem passes (h : cfg.Sound id now entry mark pool) {a : PowAction} {nonce : String}
    (hi : pool[i]? = some (.load a id nonce)) {e : Entry ChallengeHash} (he : entry = some e)
    (hl : e.live now = true) (hact : a.wireValue = e.value.action)
    (hmeets : cfg.meetsDifficulty id nonce e.value.difficulty = true) :
    cfg.Sound id now entry mark (pool.set i (.consume a id nonce)) := by
  have hbusy : busy id (.consume a id nonce) = busy id (.load a id nonce) := by simp [busy]
  have hpos : 0 < pool.countP (busy id) := countP_pos_of _ hi (by simp [busy])
  have hzero : pool.countP (consumes id) = 0 ∧ pool.countP (succeeds id) = 0 := by
    obtain ⟨hone, -⟩ := h.claimed e he hl hpos
    have hs : pool.countP (succeeds id) = 0 := by
      by_contra hs
      have := h.gone (by omega)
      rw [he] at this
      cases this
    refine ⟨?_, hs⟩
    -- the busy call is this one, and it is not consuming
    by_contra hc
    obtain ⟨q, hq, hqc⟩ := List.countP_pos_iff.mp (Nat.pos_of_ne_zero hc)
    have heq := eq_of_countP_le_one (Nat.le_of_eq hone) hq (List.mem_of_getElem? hi)
      (busy_of_consumes id q hqc) (by simp [busy])
    rw [heq] at hqc
    cases hqc
  have hc := countP_turn (consumes id) hi (.consume a id nonce)
  simp only [consumes, beq_self_eq_true, Bool.toNat_true, Bool.toNat_false] at hc
  refine ⟨?_, ?_, ?_, ?_, h.deadline_le, ?_, ?_, ?_, ?_⟩
  · rw [countP_turn_eq (draws id) hi (.consume a id nonce) rfl]
    exact h.drawn
  · rw [countP_turn_eq (unsent id) hi (.consume a id nonce) rfl,
      countP_turn_eq (names id) hi (.consume a id nonce) (by simp [names])]
    exact h.secret
  · exact fun e he => exists_turn hi (fun hq => hq) (h.stored e he)
  · intro e he hd
    rw [countP_turn_eq (unsent id) hi (.consume a id nonce) rfl]
    exact h.open_ended e he hd
  · rw [countP_turn_eq _ hi _ hbusy]
    exact h.claimed
  · rw [countP_turn_eq (succeeds id) hi (.consume a id nonce) rfl]
    omega
  · rw [countP_turn_eq (succeeds id) hi (.consume a id nonce) rfl]
    exact h.gone
  · intro q hq a' nonce' hqa
    rcases List.mem_or_eq_of_mem_set hq with hq | rfl
    · exact exists_turn hi (fun hr => hr) (h.solved q hq a' nonce' hqa)
    · rcases hqa with hqa | hqa
      · cases hqa
        obtain ⟨r, hr, a', hdrew, hw⟩ := h.stored e he
        obtain rfl := PowAction.wireValue_injective (hact.trans hw)
        exact exists_turn hi (fun hr => hr) ⟨r, hr, e.value.difficulty, hdrew, hmeets⟩
      · cases hqa

/-- The deletion ends the challenge. -/
theorem consumed (h : cfg.Sound id now entry mark pool) {a : PowAction} {nonce : String}
    (hi : pool[i]? = some (.consume a id nonce)) :
    cfg.Sound id now none mark (pool.set i (.verified a id nonce)) := by
  have hc := countP_turn (consumes id) hi (.verified a id nonce)
  have hs := countP_turn (succeeds id) hi (.verified a id nonce)
  simp only [consumes, succeeds, beq_self_eq_true, Bool.toNat_true, Bool.toNat_false] at hc hs
  refine ⟨?_, ?_, (fun _ he => by cases he), (fun _ he => by cases he),
    (fun _ _ he => by cases he), (fun _ he => by cases he), ?_, fun _ => rfl, ?_⟩
  · rw [countP_turn_eq (draws id) hi (.verified a id nonce) rfl]
    exact h.drawn
  · rw [countP_turn_eq (unsent id) hi (.verified a id nonce) rfl,
      countP_turn_eq (names id) hi (.verified a id nonce) (by simp [names])]
    exact h.secret
  · have := h.once
    omega
  · intro q hq a' nonce' hqa
    rcases List.mem_or_eq_of_mem_set hq with hq | rfl
    · exact exists_turn hi (fun hr => hr) (h.solved q hq a' nonce' hqa)
    · rcases hqa with hqa | hqa
      · cases hqa
      · cases hqa
        exact exists_turn hi (fun hr => hr)
          (h.solved _ (List.mem_of_getElem? hi) a nonce (.inl rfl))

/-- A request arrives: one that draws a new identifier, or one that verifies. -/
theorem arrives (h : cfg.Sound id now entry mark pool)
    (hdraws : draws id p = true → names id p = false
      ∧ pool.countP (draws id) = 0 ∧ pool.countP (names id) = 0)
    (hnames : names id p = true → unsent id p = false ∧ pool.countP (unsent id) = 0)
    (hbusy : busy id p = false) (hcons : consumes id p = false) (hsucc : succeeds id p = false) :
    cfg.Sound id now entry mark (pool ++ [p]) := by
  have hmore : ∀ {Q : Call → Prop}, (∃ q ∈ pool, Q q) → ∃ q ∈ pool ++ [p], Q q :=
    fun ⟨q, hq, hQ⟩ => ⟨q, List.mem_append_left _ hq, hQ⟩
  refine ⟨?_, ?_, fun e he => hmore (h.stored e he), ?_, h.deadline_le, ?_, ?_, ?_, ?_⟩
  · rw [countP_start]
    cases hd : draws id p with
    | false => simpa using h.drawn
    | true => simp [(hdraws hd).2.1]
  · rw [countP_start, countP_start]
    cases hn : names id p with
    | true =>
        obtain ⟨h₁, h₂⟩ := hnames hn
        exact .inl (by simp [h₁, h₂])
    | false =>
        cases hu : unsent id p with
        | true => exact .inr (by simp [(hdraws (draws_of_unsent id p hu)).2.2])
        | false => simpa using h.secret
  · intro e he hd
    rw [countP_start]
    exact Nat.lt_of_lt_of_le (h.open_ended e he hd) (Nat.le_add_right _ _)
  · rw [countP_start, hbusy]
    exact h.claimed
  · rw [countP_start, countP_start, hcons, hsucc]
    exact h.once
  · rw [countP_start, hsucc]
    exact h.gone
  · intro q hq a nonce hqa
    rcases List.mem_append.mp hq with hq | hq
    · exact hmore (h.solved q hq a nonce hqa)
    · obtain rfl := List.mem_singleton.mp hq
      rcases hqa with rfl | rfl
      · simp [consumes] at hcons
      · simp [succeeds] at hsucc

/-- Time only makes entries disappear. -/
theorem later (h : cfg.Sound id now entry mark pool) (ms : Nat) :
    cfg.Sound id (now + ms) entry mark pool := by
  refine ⟨h.drawn, h.secret, h.stored, h.open_ended, ?_, ?_, h.once, h.gone, h.solved⟩
  · intro e d he hd
    have := h.deadline_le e d he hd
    omega
  · intro e he hl
    refine h.claimed e he ?_
    cases hd : e.deadline with
    | none => simp [Entry.live, hd]
    | some d =>
        simp only [Entry.live, hd, decide_eq_true_eq] at hl ⊢
        omega

end PowProperties.Sound

/-! ## Every run -/

section Turn

variable {cfg : PowProperties} {p p' : Call} {s s' : Store}

/-- What a request has drawn and what it names never change. -/
theorem PowProperties.step_frame (hon : cfg.enabled = true)
    (hs : cfg.step p s = some (s', p')) :
    s'.now = s.now ∧ cfg.drew p' = cfg.drew p
      ∧ ∀ id, draws id p' = draws id p ∧ names id p' = names id p := by
  cases p with
  | issue a d id' =>
      simp only [step, hon, if_true] at hs
      obtain ⟨rfl, rfl⟩ := Prod.mk.inj (Option.some.inj hs)
      exact ⟨rfl, rfl, fun id => ⟨rfl, rfl⟩⟩
  | expire a d id' =>
      obtain ⟨rfl, rfl⟩ := Prod.mk.inj (Option.some.inj hs)
      exact ⟨rfl, rfl, fun id => ⟨rfl, rfl⟩⟩
  | verify a solution =>
      simp only [step, hon, Bool.not_true, Bool.false_eq_true, if_false] at hs
      cases hg : solution.bind PowSolution.given with
      | none =>
          simp only [hg] at hs
          obtain ⟨rfl, rfl⟩ := Prod.mk.inj (Option.some.inj hs)
          refine ⟨rfl, rfl, fun id => ⟨rfl, ?_⟩⟩
          cases solution <;> rfl
      | some idn =>
          simp only [hg] at hs
          split at hs
          · obtain ⟨rfl, rfl⟩ := Prod.mk.inj (Option.some.inj hs)
            exact ⟨rfl, rfl, fun id => ⟨rfl, by rw [names_of_given hg]; rfl⟩⟩
          · obtain ⟨rfl, rfl⟩ := Prod.mk.inj (Option.some.inj hs)
            exact ⟨rfl, rfl, fun id => ⟨rfl, by rw [names_of_given hg]; rfl⟩⟩
  | load a id' nonce =>
      simp only [step] at hs
      split at hs
      · obtain ⟨rfl, rfl⟩ := Prod.mk.inj (Option.some.inj hs)
        exact ⟨rfl, rfl, fun id => ⟨rfl, rfl⟩⟩
      · obtain ⟨rfl, rfl⟩ := Prod.mk.inj (Option.some.inj hs)
        exact ⟨rfl, rfl, fun id => ⟨rfl, rfl⟩⟩
  | consume a id' nonce =>
      obtain ⟨rfl, rfl⟩ := Prod.mk.inj (Option.some.inj hs)
      exact ⟨rfl, rfl, fun id => ⟨rfl, rfl⟩⟩
  | issued | verified | unchecked | rejected => cases hs

/-- A request about another challenge leaves the keys of `id` alone. -/
theorem PowProperties.step_other {id : String} (hs : cfg.step p s = some (s', p'))
    (hd : draws id p = false) (hn : names id p = false) :
    s'.challenges id = s.challenges id ∧ s'.spent id = s.spent id := by
  cases p with
  | issue a d id' =>
      have hne : id ≠ id' := fun h => by simp [draws, h] at hd
      simp only [step] at hs
      split at hs
      · obtain ⟨rfl, rfl⟩ := Prod.mk.inj (Option.some.inj hs)
        refine ⟨?_, rfl⟩
        dsimp only
        exact Keyspace.alter_other _ _ hne
      · obtain ⟨rfl, rfl⟩ := Prod.mk.inj (Option.some.inj hs)
        exact ⟨rfl, rfl⟩
  | expire a d id' =>
      have hne : id ≠ id' := fun h => by simp [draws, h] at hd
      obtain ⟨rfl, rfl⟩ := Prod.mk.inj (Option.some.inj hs)
      exact ⟨Keyspace.expire_other _ _ hne, rfl⟩
  | verify a solution =>
      simp only [step] at hs
      split at hs
      · obtain ⟨rfl, rfl⟩ := Prod.mk.inj (Option.some.inj hs)
        exact ⟨rfl, rfl⟩
      · cases hg : solution.bind PowSolution.given with
        | none =>
            simp only [hg] at hs
            obtain ⟨rfl, rfl⟩ := Prod.mk.inj (Option.some.inj hs)
            exact ⟨rfl, rfl⟩
        | some idn =>
            have hne : id ≠ idn.1 := fun h => by
              rw [names_of_given hg, h] at hn
              simp at hn
            simp only [hg] at hs
            split at hs
            · obtain ⟨rfl, rfl⟩ := Prod.mk.inj (Option.some.inj hs)
              exact ⟨rfl, rfl⟩
            · obtain ⟨rfl, rfl⟩ := Prod.mk.inj (Option.some.inj hs)
              exact ⟨rfl, Keyspace.put_other _ hne⟩
  | load a id' nonce =>
      simp only [step] at hs
      split at hs
      · obtain ⟨rfl, rfl⟩ := Prod.mk.inj (Option.some.inj hs)
        exact ⟨rfl, rfl⟩
      · obtain ⟨rfl, rfl⟩ := Prod.mk.inj (Option.some.inj hs)
        exact ⟨rfl, rfl⟩
  | consume a id' nonce =>
      have hne : id ≠ id' := fun h => by simp [names, h] at hn
      obtain ⟨rfl, rfl⟩ := Prod.mk.inj (Option.some.inj hs)
      exact ⟨Keyspace.del_other hne, rfl⟩
  | issued | verified | unchecked | rejected => cases hs

end Turn

def PowProperties.AllSound (cfg : PowProperties) (c : Conf Store Call) : Prop :=
  ∀ id, cfg.Sound id c.store.now (c.store.challenges id) (c.store.spent id) c.pool

/-- What a call has checked when it passes. -/
theorem PowProperties.validate_ok {cfg : PowProperties} {a : PowAction} {id nonce : String}
    {ks : Keyspace String ChallengeHash} {now : Nat} {u : Unit}
    (h : cfg.validate a id nonce (ks.get? now id) = .ok u) :
    ∃ e, ks.find? now id = some e ∧ a.wireValue = e.value.action
      ∧ cfg.meetsDifficulty id nonce e.value.difficulty = true := by
  unfold Keyspace.get? at h
  cases he : ks.find? now id with
  | none =>
      rw [he] at h
      cases h
  | some e =>
      simp only [he, Option.map_some, validate] at h
      split at h
      · cases h
      · rename_i hact
        split at h
        · cases h
        · rename_i hmeets
          exact ⟨e, rfl, not_not.mp hact, by simpa using hmeets⟩

/-- A command of a request about `id` itself. -/
theorem PowProperties.Sound.turn_own {cfg : PowProperties} {p p' : Call} {s s' : Store}
    {id : String} {pool : List Call} {i : Nat} (hon : cfg.enabled = true)
    (hwin : cfg.challengeTtl ≤ cfg.replayWindow)
    (h : cfg.Sound id s.now (s.challenges id) (s.spent id) pool) (hi : pool[i]? = some p)
    (hs : cfg.step p s = some (s', p')) (hown : draws id p = true ∨ names id p = true) :
    cfg.Sound id s'.now (s'.challenges id) (s'.spent id) (pool.set i p') := by
  obtain ⟨-, hdrew, hsame⟩ := cfg.step_frame hon hs
  obtain ⟨hdraws, hnames⟩ := hsame id
  cases p with
  | issue a d id' =>
      have hid : id' = id := by simpa [draws, names] using hown
      subst hid
      simp only [step, hon, if_true] at hs
      obtain ⟨rfl, rfl⟩ := Prod.mk.inj (Option.some.inj hs)
      refine h.issues hi (by simp [unsent]) hdrew hdraws hnames ?_
        (fun _ _ _ => by simp [unsent]) ?_
      · intro e he
        dsimp only at he
        rcases Keyspace.alter_eq_some he with ⟨-, rfl⟩ | ⟨e₀, -, rfl⟩
        · exact ⟨a, rfl, rfl⟩
        · exact ⟨a, rfl, rfl⟩
      · intro e d' he hd'
        dsimp only at he
        rcases Keyspace.alter_eq_some he with ⟨-, rfl⟩ | ⟨e₀, he₀, rfl⟩
        · cases hd'
        · exact h.deadline_le e₀ d' (Keyspace.find?_eq_some.mp he₀).1 hd'
  | expire a d id' =>
      have hid : id' = id := by simpa [draws, names] using hown
      subst hid
      obtain ⟨rfl, rfl⟩ := Prod.mk.inj (Option.some.inj hs)
      have hp : unsent id' (.expire a d id') = true := by simp [unsent]
      -- only this request has drawn the identifier
      have hmine : ∀ e, s.challenges id' = some e →
          ∃ a', cfg.drew (.expire a d id') = some (id', a', e.value.difficulty)
            ∧ e.value.action = a'.wireValue := by
        intro e he
        obtain ⟨q, hq, a', hq', hw⟩ := h.stored e he
        have := eq_of_countP_le_one h.drawn hq (List.mem_of_getElem? hi) (draws_of_drew hq')
          (by simp [draws])
        subst this
        exact ⟨a', hq', hw⟩
      refine h.issues hi hp hdrew hdraws hnames ?_ ?_ ?_
      · intro e he
        rcases Keyspace.expire_eq_some he with ⟨-, he⟩ | ⟨e₀, he₀, rfl⟩
        · exact hmine e he
        · exact hmine e₀ (Keyspace.find?_eq_some.mp he₀).1
      · intro e he hd'
        rcases Keyspace.expire_eq_some he with ⟨hnone, he⟩ | ⟨e₀, he₀, rfl⟩
        · have : e.live s.now = true := by simp [Entry.live, hd']
          rw [Keyspace.find?_eq_some.mpr ⟨he, this⟩] at hnone
          cases hnone
        · cases hd'
      · intro e d' he hd'
        rcases Keyspace.expire_eq_some he with ⟨-, he⟩ | ⟨e₀, he₀, rfl⟩
        · exact h.deadline_le e d' he hd'
        · obtain rfl := Option.some.inj hd'
          exact Nat.le_refl _
  | verify a solution =>
      have hnamed : names id (.verify a solution) = true := by simpa [draws] using hown
      simp only [step, hon, Bool.not_true, Bool.false_eq_true, if_false] at hs
      cases hg : solution.bind PowSolution.given with
      | none =>
          simp only [hg] at hs
          obtain ⟨rfl, rfl⟩ := Prod.mk.inj (Option.some.inj hs)
          exact h.quiet hi hdrew hdraws hnames rfl (fun hb => by cases hb) rfl rfl
      | some idn =>
          have hid : idn.1 = id := by simpa [names_of_given hg] using hnamed
          simp only [hg] at hs
          split at hs
          · obtain ⟨rfl, rfl⟩ := Prod.mk.inj (Option.some.inj hs)
            exact h.quiet hi hdrew hdraws hnames rfl (fun hb => by cases hb) rfl rfl
          · rename_i hfree
            obtain ⟨rfl, rfl⟩ := Prod.mk.inj (Option.some.inj hs)
            rw [hid] at hfree ⊢
            have hlapsed : ∀ d, s.spent id = some ⟨(), some d⟩ → d < s.now := by
              intro d hd
              by_contra hle
              refine hfree ?_
              have hlive : (⟨(), some d⟩ : Entry Unit).live s.now = true := by
                simp only [Entry.live, decide_eq_true_eq]
                omega
              rw [Keyspace.has, Keyspace.find?_eq_some.mpr ⟨hd, hlive⟩]
              rfl
            simpa using h.claims hwin hi hnamed hlapsed
  | load a id' nonce =>
      have hid : id' = id := by simpa [draws, names] using hown
      subst hid
      simp only [step] at hs
      cases hv : cfg.validate a id' nonce (s.challenges.get? s.now id') with
      | error err =>
          simp only [hv] at hs
          obtain ⟨rfl, rfl⟩ := Prod.mk.inj (Option.some.inj hs)
          exact h.quiet hi hdrew hdraws hnames rfl (fun hb => by cases hb) rfl rfl
      | ok u =>
          simp only [hv] at hs
          obtain ⟨rfl, rfl⟩ := Prod.mk.inj (Option.some.inj hs)
          obtain ⟨e, he, hact, hmeets⟩ := cfg.validate_ok hv
          obtain ⟨he, hl⟩ := Keyspace.find?_eq_some.mp he
          exact h.passes hi he hl hact hmeets
  | consume a id' nonce =>
      have hid : id' = id := by simpa [draws, names] using hown
      subst hid
      obtain ⟨rfl, rfl⟩ := Prod.mk.inj (Option.some.inj hs)
      simpa using h.consumed hi
  | issued | verified | unchecked | rejected => cases hs

theorem PowProperties.sound_preserved {cfg : PowProperties} (hon : cfg.enabled = true)
    (hwin : cfg.challengeTtl ≤ cfg.replayWindow) :
    cfg.server.Preserves (fun c a => unpredictable c a = true) cfg.AllSound where
  start c p h hg hp id := by
    cases p with
    | issue a d id' =>
        simp only [unpredictable, Bool.and_eq_true, beq_iff_eq] at hg
        refine (h id).arrives (fun hd => ⟨rfl, ?_⟩) (fun hn => by cases hn) rfl rfl rfl
        have hid : id' = id := by simpa [draws] using hd
        exact hid ▸ hg
    | verify a solution =>
        refine (h id).arrives (fun hd => by cases hd) (fun hn => ⟨rfl, ?_⟩) rfl rfl rfl
        cases solution with
        | none => cases hn
        | some s =>
            have hs : s.challengeId = some id := by simpa [names] using hn
            simpa [unpredictable, hs] using hg
    | expire | issued | load | consume | verified | unchecked | rejected => cases hp
  turn c i p s' p' h _ hi hs id := by
    cases hd : draws id p with
    | true => exact (h id).turn_own hon hwin hi hs (.inl hd)
    | false =>
        cases hn : names id p with
        | true => exact (h id).turn_own hon hwin hi hs (.inr hn)
        | false =>
            obtain ⟨hnow, hdrew, hsame⟩ := cfg.step_frame hon hs
            obtain ⟨hdraws, hnames⟩ := hsame id
            obtain ⟨hch, hsp⟩ := cfg.step_other hs hd hn
            have hfalse : ∀ {f g : Call → Bool}, (∀ q, f q = true → g q = true) →
                ∀ q, g q = false → f q = false := fun hfg q hq => by
              by_contra hf
              rw [hfg q (by simpa using hf)] at hq
              cases hq
            have hd' : draws id p' = false := hdraws.trans hd
            have hn' : names id p' = false := hnames.trans hn
            have hb' : busy id p' = false := hfalse (names_of_busy id) _ hn'
            rw [hnow, hch, hsp]
            refine (h id).quiet hi hdrew hdraws hnames ?_ (fun hb => by rw [hb'] at hb; cases hb)
              (hfalse (busy_of_consumes id) _ hb') (hfalse (names_of_succeeds id) _ hn')
            rw [hfalse (draws_of_unsent id) _ hd', hfalse (draws_of_unsent id) _ hd]
  env c e s' h _ hs id := by
    cases e with
    | tick ms =>
        obtain rfl := Option.some.inj hs
        exact (h id).later ms

/-- A challenge is spent at most once; the call that spends it names the action
the challenge was issued for, and its nonce meets the difficulty stored then. -/
theorem challenge_spent_once (cfg : PowProperties) (hon : cfg.enabled = true)
    (hwin : cfg.challengeTtl ≤ cfg.replayWindow) (now : Nat) (c : Conf Store Call)
    (hrun : cfg.server.Run (fun c a => unpredictable c a = true) (init now) c) (id : String) :
    c.pool.countP (succeeds id) ≤ 1
      ∧ ∀ a nonce, .verified a id nonce ∈ c.pool →
        (∃ q ∈ c.pool, ∃ d, cfg.drew q = some (id, a, d))
          ∧ ∀ q ∈ c.pool, ∀ a' d, cfg.drew q = some (id, a', d) →
            a' = a ∧ cfg.meetsDifficulty id nonce d = true := by
  have hstart : cfg.AllSound (init now) := fun id =>
    ⟨Nat.zero_le _, .inl rfl, (fun _ he => by cases he), (fun _ he => by cases he),
      (fun _ _ he => by cases he), (fun _ he => by cases he), Nat.zero_le _, fun _ => rfl,
      (fun _ hq => by cases hq)⟩
  have h := hrun.invariant (cfg.sound_preserved hon hwin) hstart id
  refine ⟨Nat.le_trans (Nat.le_add_left _ _) h.once, fun a nonce hv => ?_⟩
  obtain ⟨r, hr, d, hdrew, hmeets⟩ := h.solved _ hv a nonce (.inr rfl)
  refine ⟨⟨r, hr, d, hdrew⟩, fun q hq a' d' hq' => ?_⟩
  obtain rfl := eq_of_countP_le_one h.drawn hq hr (draws_of_drew hq') (draws_of_drew hdrew)
  rw [hdrew] at hq'
  obtain ⟨-, rfl, rfl⟩ := Prod.mk.inj (Option.some.inj hq')
  exact ⟨rfl, hmeets⟩

/-- Default settings; a digest that starts with two zero bytes for the nonce `"7"`. -/
def sampleProperties : PowProperties where
  enabled := true
  challengeTtl := 60000
  replayWindow := 120000
  ceiling := 18
  sha256 text := if text = "c07" then [0, 0, 1] else [255]

/-- A challenge is issued; of two overlapping calls the first claims it, and
after both markers and challenge have lapsed a third finds nothing. -/
def sampleRun : List (Action Call Move) :=
  [.start (.issue .dmInvite 14 "c0"), .turn 0, .env (.tick 3), .turn 0,
    .start (.verify .dmInvite (some ⟨some "c0", some "7"⟩)),
    .start (.verify .dmInvite (some ⟨some "c0", some "7"⟩)),
    .turn 1, .turn 2, .turn 1, .env (.tick 130000), .turn 1,
    .start (.verify .dmInvite (some ⟨some "c0", some "7"⟩)), .turn 3, .turn 3]

theorem challenge_spent_once_run :
    ∃ c, sampleProperties.server.execWhile unpredictable (init 0) sampleRun = some c
      ∧ c.pool.countP (succeeds "c0") = 1 ∧ c.pool.countP (succeeds "c0") ≤ 1 := by
  have hrun : (sampleProperties.server.execWhile unpredictable (init 0) sampleRun).map
      (fun c => c.pool.countP (succeeds "c0")) = some 1 := by decide +kernel
  obtain ⟨c, hc, hone⟩ := Option.map_eq_some_iff.mp hrun
  refine ⟨c, hc, hone, ?_⟩
  exact (challenge_spent_once sampleProperties rfl (by decide) 0 c
    (Server.run_of_execWhile (fun _ _ h => h) hc) "c0").1

end Pow

end BurnedChats

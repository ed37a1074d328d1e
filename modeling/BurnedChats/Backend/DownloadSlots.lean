import BurnedChats.Lib.Interleave

/-!
# The download slots of a user

A download reserves a slot by incrementing the user's counter and gives it back by
decrementing it, once the blob turns out to be missing or once its stream has ended. Each
command is one step, and between two of them the requests of any users go on. A request
reacts to a signal: the answer to what it asked (`advance`), the answer of the storage
lookup, an error, or its cancellation.

A slot is lost where a request ends between its increment and the place from which the
decrement is certain, and slots are given out twice where a deletion that was decided at
zero runs after another request has counted itself. `slots_kept` says that nothing else
goes wrong.
-/

namespace BurnedChats

open Interleave

namespace DownloadSlots

/-! ## Requests -/

/-- Where a request stands: before the acquire, in it (`expire` with the count that was
read, then the rollback and the cleanup of a rejection), at the storage lookup, with a
blob nobody reads yet, streaming, in the release, or over. `missing` is the release that
the request itself waits for; the other one is subscribed apart, when the stream ends. -/
inductive Phase where
  | validating
  | expire (count : Int)
  | rollback
  | cleanup
  | cleanupDelete
  | lookup
  | offered
  | streaming
  | release (missing : Bool)
  | releaseDelete (missing : Bool)
  | ended
deriving DecidableEq

/-- A request with the numbers of its successful acquires and of its releases. -/
structure Request where
  internalId : String
  phase : Phase
  acquires : Nat
  releases : Nat
deriving DecidableEq

def Request.goto (r : Request) (phase : Phase) : Request := { r with phase := phase }

/-- What reaches a request. -/
inductive Signal where
  | advance
  | found (exists_ : Bool)
  | fail
  | cancel
deriving DecidableEq

/-- What a request does with the user's counter, command by command. -/
def advance (maxSlots : Nat) (counter : Option Int) (r : Request) :
    Option (Option Int × Request) :=
  match r.phase with
  | .validating =>
      let count := counter.getD 0 + 1
      some (some count, r.goto (.expire count))
  | .expire count =>
      if maxSlots < count then some (counter, r.goto .rollback)
      else some (counter, { r.goto .lookup with acquires := r.acquires + 1 })
  | .rollback => some (some (counter.getD 0 - 1), r.goto .cleanup)
  | .cleanup =>
      some (counter, r.goto (if counter.getD 0 ≤ 0 then .cleanupDelete else .ended))
  | .cleanupDelete => some (none, r.goto .ended)
  | .offered => some (counter, r.goto .streaming)
  -- `doFinally`, whether the stream completed, failed or was cancelled
  | .streaming => some (counter, r.goto (.release false))
  | .release missing =>
      let count := counter.getD 0 - 1
      some (some count, { r with
        phase := if count ≤ 0 then .releaseDelete missing else .ended
        releases := r.releases + 1 })
  | .releaseDelete _ => some (none, r.goto .ended)
  | .lookup => none
  | .ended => none

def react (maxSlots : Nat) (counter : Option Int) (r : Request) :
    Signal → Option (Option Int × Request)
  | .advance => advance maxSlots counter r
  | .found exists_ =>
      if r.phase = .lookup then
        some (counter, r.goto (if exists_ then .offered else .release true))
      else none
  | .fail =>
      if r.phase = .validating ∨ r.phase = .lookup then some (counter, r.goto .ended) else none
  | .cancel =>
      match r.phase with
      | .streaming => some (counter, r.goto (.release false))
      | .release false => none
      | .releaseDelete false => none
      | .ended => none
      | _ => some (counter, r.goto .ended)

/-! ## Runs -/

/-- The counters by user, and all requests. -/
structure State where
  counters : String → Option Int
  requests : List Request

def State.start : State := ⟨fun _ => none, []⟩

inductive Event where
  | download (internalId : String)
  | signal (i : Nat) (signal : Signal)

def step (maxSlots : Nat) (s : State) : Event → Option State
  | .download internalId =>
      some { s with requests := s.requests ++ [⟨internalId, .validating, 0, 0⟩] }
  | .signal i signal =>
      s.requests[i]?.bind fun r =>
        (react maxSlots (s.counters r.internalId) r signal).map fun out =>
          ⟨fun u => if u = r.internalId then out.1 else s.counters u, s.requests.set i out.2⟩

def downloads (maxSlots : Nat) : Server State Empty Event where
  opens := fun p => nomatch p
  step := fun p => nomatch p
  env e s := step maxSlots s e

/-- The request is counted. -/
def Phase.holds : Phase → Bool
  | .expire _ => true
  | .rollback => true
  | .lookup => true
  | .offered => true
  | .streaming => true
  | .release _ => true
  | _ => false

/-- Between a successful acquire and the release. -/
def Phase.inProgress : Phase → Bool
  | .lookup => true
  | .offered => true
  | .streaming => true
  | .release _ => true
  | _ => false

/-- The next command is a `DEL`. -/
def Phase.deletes : Phase → Bool
  | .cleanupDelete => true
  | .releaseDelete _ => true
  | _ => false

def Request.holds (u : String) (r : Request) : Bool := r.internalId == u && r.phase.holds

def Request.inProgress (u : String) (r : Request) : Bool :=
  r.internalId == u && r.phase.inProgress

/-- A deletion finds the counter at zero, and a request that is counted ends in no other
way than through its rollback, its release or its stream. -/
def careful (s : State) : Event → Bool
  | .download _ => true
  | .signal i signal =>
      s.requests[i]?.all fun r =>
        match signal with
        | .advance => !r.phase.deletes || decide ((s.counters r.internalId).getD 0 ≤ 0)
        | .found _ => true
        | _ => !r.phase.holds || r.phase == .streaming

def isCareful (c : Conf State Empty) : Action Empty Event → Bool
  | .env e => careful c.store e
  | _ => true

def Careful (c : Conf State Empty) (a : Action Empty Event) : Prop := isCareful c a = true

/-- For every user: not more downloads in progress than slots, and no count left when no
request is counted; and every request that has ended released what it acquired. -/
structure Kept (maxSlots : Nat) (s : State) : Prop where
  bounded : ∀ u, s.requests.countP (Request.inProgress u) ≤ maxSlots
  idle : ∀ u, (∀ r ∈ s.requests, r.holds u = false) → (s.counters u).getD 0 = 0
  released : ∀ r ∈ s.requests, r.releases ≤ r.acquires ∧ r.acquires ≤ 1 ∧
    (r.phase = .ended → r.releases = r.acquires)

/-! ## What one signal does -/

/-- Acquires and releases, by where a request stands. -/
def Request.Sound (r : Request) : Prop :=
  match r.phase with
  | .ended => r.releases = r.acquires ∧ r.acquires ≤ 1
  | .releaseDelete _ => r.acquires = 1 ∧ r.releases = 1
  | phase => r.acquires = phase.inProgress.toNat ∧ r.releases = 0

/-- The acquire has succeeded, or will. -/
def Phase.granted (maxSlots : Nat) : Phase → Bool
  | .expire count => decide (count ≤ maxSlots)
  | phase => phase.inProgress

/-- What a careful signal to one request does: the counter moves with what is counted,
and a slot is granted only by an increment that stays within the limit. -/
structure Moved (maxSlots : Nat) (counter : Option Int) (r : Request) (counter' : Option Int)
    (r' : Request) : Prop where
  user : r'.internalId = r.internalId
  sound : r.Sound → r'.Sound
  counted : counter'.getD 0 + (r.phase.holds.toNat : Int)
    = counter.getD 0 + (r'.phase.holds.toNat : Int)
  grant : r'.phase.granted maxSlots = true →
    r.phase.granted maxSlots = true ∨ counter.getD 0 + 1 ≤ maxSlots

variable {maxSlots : Nat} {counter counter' : Option Int} {r r' : Request}

/-- A request that goes on as before, as far as its slot is concerned. -/
theorem moved_goto {phase : Phase} (hsound : r.Sound → (r.goto phase).Sound)
    (hholds : phase.holds = r.phase.holds)
    (hgrant : phase.granted maxSlots = true → r.phase.granted maxSlots = true) :
    Moved maxSlots counter r counter (r.goto phase) where
  user := rfl
  sound := hsound
  counted := by rw [← hholds]; rfl
  grant := fun h => .inl (hgrant h)

theorem advance_moved (h : advance maxSlots counter r = some (counter', r'))
    (hpos : 0 ≤ counter.getD 0) (hdel : r.phase.deletes = true → counter.getD 0 ≤ 0) :
    Moved maxSlots counter r counter' r' := by
  obtain ⟨internalId, phase, acquires, releases⟩ := r
  cases phase with
  | validating =>
      obtain ⟨rfl, rfl⟩ := Prod.mk.inj (Option.some.inj h)
      refine ⟨rfl, fun hs => hs, ?_, fun hg => .inr (of_decide_eq_true hg)⟩
      simp [Request.goto, Phase.holds]
  | expire count =>
      simp only [advance] at h
      split at h
      · obtain ⟨rfl, rfl⟩ := Prod.mk.inj (Option.some.inj h)
        exact moved_goto (fun hs => hs) rfl (fun hg => by cases hg)
      · rename_i hcount
        obtain ⟨rfl, rfl⟩ := Prod.mk.inj (Option.some.inj h)
        refine ⟨rfl, fun ⟨ha, hr⟩ => ⟨congrArg (· + 1) ha, hr⟩, rfl, fun _ => .inl ?_⟩
        simp only [Phase.granted, decide_eq_true_eq]
        omega
  | rollback =>
      obtain ⟨rfl, rfl⟩ := Prod.mk.inj (Option.some.inj h)
      refine ⟨rfl, fun hs => hs, ?_, fun hg => by cases hg⟩
      simp [Request.goto, Phase.holds]
  | cleanup =>
      obtain ⟨rfl, rfl⟩ := Prod.mk.inj (Option.some.inj h)
      split
      · exact moved_goto (fun hs => hs) rfl (fun hg => by cases hg)
      · refine moved_goto (fun ⟨ha, hr⟩ => ⟨hr.trans ha.symm, ?_⟩) rfl (fun hg => by cases hg)
        exact Nat.le_trans (Nat.le_of_eq ha) (Nat.zero_le 1)
  | cleanupDelete =>
      obtain ⟨rfl, rfl⟩ := Prod.mk.inj (Option.some.inj h)
      have hzero := hdel rfl
      refine ⟨rfl, fun ⟨ha, hr⟩ => ⟨hr.trans ha.symm, ?_⟩, ?_, fun hg => by cases hg⟩
      · exact Nat.le_trans (Nat.le_of_eq ha) (Nat.zero_le 1)
      · simp only [Request.goto, Phase.holds, Option.getD_none]
        omega
  | lookup => cases h
  | offered =>
      obtain ⟨rfl, rfl⟩ := Prod.mk.inj (Option.some.inj h)
      exact moved_goto (fun hs => hs) rfl (fun hg => hg)
  | streaming =>
      obtain ⟨rfl, rfl⟩ := Prod.mk.inj (Option.some.inj h)
      exact moved_goto (fun hs => hs) rfl (fun hg => hg)
  | release missing =>
      obtain ⟨rfl, rfl⟩ := Prod.mk.inj (Option.some.inj h)
      split
      · refine ⟨rfl, fun ⟨ha, hr⟩ => ⟨ha, congrArg (· + 1) hr⟩, ?_, fun hg => by cases hg⟩
        simp [Phase.holds]
      · refine ⟨rfl, fun ⟨ha, hr⟩ => ⟨(congrArg (· + 1) hr).trans ha.symm, Nat.le_of_eq ha⟩, ?_,
          fun hg => by cases hg⟩
        simp [Phase.holds]
  | releaseDelete missing =>
      obtain ⟨rfl, rfl⟩ := Prod.mk.inj (Option.some.inj h)
      have hzero := hdel rfl
      refine ⟨rfl, fun ⟨ha, hr⟩ => ⟨hr.trans ha.symm, Nat.le_of_eq ha⟩, ?_,
        fun hg => by cases hg⟩
      simp only [Request.goto, Phase.holds, Option.getD_none]
      omega
  | ended => cases h

/-- An end before anything is counted, or after the release. -/
theorem moved_ended (hholds : r.phase.holds = false) :
    Moved maxSlots counter r counter (r.goto .ended) := by
  obtain ⟨internalId, phase, acquires, releases⟩ := r
  have hnone : ∀ hs : acquires = phase.inProgress.toNat ∧ releases = 0,
      phase.inProgress = false → releases = acquires ∧ acquires ≤ 1 := by
    rintro ⟨rfl, rfl⟩ hp
    simp [hp]
  refine moved_goto (fun hs => ?_) hholds.symm (fun hg => by cases hg)
  cases phase with
  | releaseDelete missing => exact ⟨hs.2.trans hs.1.symm, Nat.le_of_eq hs.1⟩
  | ended => exact hs
  | validating => exact hnone hs rfl
  | cleanup => exact hnone hs rfl
  | cleanupDelete => exact hnone hs rfl
  | _ => cases hholds

theorem react_moved {signal : Signal} (h : react maxSlots counter r signal = some (counter', r'))
    (hpos : 0 ≤ counter.getD 0)
    (hdel : signal = .advance → r.phase.deletes = true → counter.getD 0 ≤ 0)
    (hend : signal = .fail ∨ signal = .cancel → r.phase.holds = true → r.phase = .streaming) :
    Moved maxSlots counter r counter' r' := by
  cases signal with
  | advance => exact advance_moved h hpos (hdel rfl)
  | found exists_ =>
      simp only [react] at h
      split at h
      · rename_i hphase
        obtain ⟨rfl, rfl⟩ := Prod.mk.inj (Option.some.inj h)
        obtain ⟨internalId, phase, acquires, releases⟩ := r
        obtain rfl : phase = .lookup := hphase
        cases exists_ with
        | true => exact moved_goto (fun hs => hs) rfl (fun hg => hg)
        | false => exact moved_goto (fun hs => hs) rfl (fun hg => hg)
      · cases h
  | fail =>
      simp only [react] at h
      split at h
      · rename_i hphase
        obtain ⟨rfl, rfl⟩ := Prod.mk.inj (Option.some.inj h)
        refine moved_ended ?_
        cases hholds : r.phase.holds with
        | false => rfl
        | true =>
            rw [hend (.inl rfl) hholds] at hphase
            rcases hphase with hp | hp <;> cases hp
      · cases h
  | cancel =>
      have hend' := hend (.inr rfl)
      simp only [react] at h
      obtain ⟨internalId, phase, acquires, releases⟩ := r
      cases phase with
      | streaming =>
          obtain ⟨rfl, rfl⟩ := Prod.mk.inj (Option.some.inj h)
          exact moved_goto (fun hs => hs) rfl (fun hg => hg)
      | validating =>
          obtain ⟨rfl, rfl⟩ := Prod.mk.inj (Option.some.inj h)
          exact moved_ended rfl
      | cleanup =>
          obtain ⟨rfl, rfl⟩ := Prod.mk.inj (Option.some.inj h)
          exact moved_ended rfl
      | cleanupDelete =>
          obtain ⟨rfl, rfl⟩ := Prod.mk.inj (Option.some.inj h)
          exact moved_ended rfl
      | releaseDelete missing =>
          cases missing with
          | true =>
              obtain ⟨rfl, rfl⟩ := Prod.mk.inj (Option.some.inj h)
              exact moved_ended rfl
          | false => cases h
      | ended => cases h
      | _ => cases hend' rfl

theorem granted_of_inProgress {phase : Phase} (h : phase.inProgress = true) :
    phase.granted maxSlots = true := by
  cases phase with
  | expire count => cases h
  | _ => exact h

theorem holds_of_granted {phase : Phase} (h : phase.granted maxSlots = true) :
    phase.holds = true := by
  cases phase with
  | expire count => rfl
  | rollback => rfl
  | _ => exact h

/-! ## Whole runs -/

def Request.granted (maxSlots : Nat) (u : String) (r : Request) : Bool :=
  r.internalId == u && r.phase.granted maxSlots

/-- The counter of every user counts the requests that hold it. -/
structure Exact (maxSlots : Nat) (s : State) : Prop where
  counted : ∀ u, (s.counters u).getD 0 = (s.requests.countP (Request.holds u) : Int)
  granted : ∀ u, s.requests.countP (Request.granted maxSlots u) ≤ maxSlots
  sound : ∀ r ∈ s.requests, r.Sound

theorem exact_start : Exact maxSlots .start where
  counted := fun _ => rfl
  granted := fun _ => Nat.zero_le _
  sound := fun _ hr => by cases hr

theorem Exact.download {s : State} (h : Exact maxSlots s) (internalId : String) :
    Exact maxSlots { s with requests := s.requests ++ [⟨internalId, .validating, 0, 0⟩] } where
  counted := fun u => by
    rw [countP_start]
    simpa [Request.holds, Phase.holds] using h.counted u
  granted := fun u => by
    rw [countP_start]
    simpa [Request.granted, Phase.granted, Phase.inProgress] using h.granted u
  sound := forall_start h.sound ⟨rfl, rfl⟩

theorem Exact.moved {s : State} {i : Nat} (h : Exact maxSlots s) (hi : s.requests[i]? = some r)
    (hm : Moved maxSlots (s.counters r.internalId) r counter' r') :
    Exact maxSlots
      ⟨fun u => if u = r.internalId then counter' else s.counters u, s.requests.set i r'⟩ where
  counted := fun u => by
    have hturn := countP_turn (Request.holds u) hi r'
    have hcount := h.counted u
    have hmove := hm.counted
    dsimp only
    by_cases hu : u = r.internalId
    · subst hu
      simp only [Request.holds, hm.user, beq_self_eq_true, Bool.true_and] at hturn
      rw [if_pos rfl]
      omega
    · have hne : (r.internalId == u) = false := beq_false_of_ne (Ne.symm hu)
      simp only [Request.holds, hm.user, hne, Bool.false_and, Bool.toNat_false] at hturn
      rw [if_neg hu]
      omega
  granted := fun u => by
    have hturn := countP_turn (Request.granted maxSlots u) hi r'
    have hgranted := h.granted u
    dsimp only
    by_cases hu : u = r.internalId
    · subst hu
      simp only [Request.granted, hm.user, beq_self_eq_true, Bool.true_and] at hturn
      have hle : s.requests.countP (Request.granted maxSlots r.internalId)
          ≤ s.requests.countP (Request.holds r.internalId) := by
        refine countP_mono_of (fun q hq => ?_) _
        simp only [Request.granted, Request.holds, Bool.and_eq_true] at hq ⊢
        exact ⟨hq.1, holds_of_granted hq.2⟩
      have hcount := h.counted r.internalId
      have hgrant := hm.grant
      cases hg' : r'.phase.granted maxSlots with
      | false =>
          rw [hg'] at hturn
          simp only [Bool.toNat_false] at hturn
          omega
      | true =>
          rcases hgrant hg' with hg | hroom
          · rw [hg', hg] at hturn
            omega
          · rw [hg'] at hturn
            simp only [Bool.toNat_true] at hturn
            omega
    · have hne : (r.internalId == u) = false := beq_false_of_ne (Ne.symm hu)
      simp only [Request.granted, hm.user, hne, Bool.false_and, Bool.toNat_false] at hturn
      omega
  sound := forall_turn h.sound (hm.sound (h.sound r (List.mem_of_getElem? hi)))

theorem exact_preserved : (downloads maxSlots).Preserves Careful (fun c => Exact maxSlots c.store)
    where
  start := fun c p _ _ _ => nomatch p
  turn := fun c i p _ _ _ _ _ _ => nomatch p
  env := by
    rintro c e s' h hc hs
    cases e with
    | download internalId =>
        obtain rfl := Option.some.inj hs
        exact h.download internalId
    | signal i signal =>
        obtain ⟨r, hi, hr⟩ := Option.bind_eq_some_iff.mp hs
        obtain ⟨⟨counter', r'⟩, hreact, rfl⟩ := Option.map_eq_some_iff.mp hr
        simp only [Careful, isCareful, careful, hi, Option.all_some] at hc
        have hpos : 0 ≤ (c.store.counters r.internalId).getD 0 := by
          rw [h.counted]
          exact Int.natCast_nonneg _
        refine h.moved hi (react_moved hreact hpos ?_ ?_)
        · rintro rfl hdel
          simpa [hdel] using hc
        · rintro (rfl | rfl) hholds
          · simpa [hholds] using hc
          · simpa [hholds] using hc

theorem Exact.kept {s : State} (h : Exact maxSlots s) : Kept maxSlots s where
  bounded := fun u => by
    refine Nat.le_trans (countP_mono_of (fun r hr => ?_) _) (h.granted u)
    simp only [Request.inProgress, Request.granted, Bool.and_eq_true] at hr ⊢
    exact ⟨hr.1, granted_of_inProgress hr.2⟩
  idle := fun u hidle => by
    rw [h.counted, List.countP_eq_zero.mpr fun r hr => by rw [hidle r hr]; exact Bool.false_ne_true]
    rfl
  released := fun r hr => by
    have hs := h.sound r hr
    obtain ⟨internalId, phase, acquires, releases⟩ := r
    cases phase with
    | ended => exact ⟨Nat.le_of_eq hs.1, hs.2, fun _ => hs.1⟩
    | releaseDelete missing =>
        exact ⟨Nat.le_of_eq (hs.2.trans hs.1.symm), Nat.le_of_eq hs.1, fun h => by cases h⟩
    | _ =>
        exact ⟨Nat.le_trans (Nat.le_of_eq hs.2) (Nat.zero_le _),
          Nat.le_trans (Nat.le_of_eq hs.1) (Bool.toNat_le _), fun h => by cases h⟩

/-- Where every deletion finds the counter at zero, and no request ends while it is counted
but through its rollback, its release or its stream, the slots are kept. -/
theorem slots_kept {c : Conf State Empty} (h : (downloads maxSlots).Run Careful ⟨.start, []⟩ c) :
    Kept maxSlots c.store :=
  (h.invariant exact_preserved exact_start).kept

/-- The signals that take request `i` to the stage where its blob is streamed. -/
def stream (i : Nat) : List (Action Empty Event) :=
  [.env (.signal i .advance), .env (.signal i .advance), .env (.signal i (.found true)),
    .env (.signal i .advance)]

/-- Of two requests for one slot the second is refused, and the first is streamed. -/
theorem slots_kept_refused : ∃ c, (downloads 1).Run Careful ⟨.start, []⟩ c ∧
    c.store.requests = [⟨"u", .ended, 1, 1⟩, ⟨"u", .ended, 0, 0⟩] ∧ Kept 1 c.store := by
  obtain ⟨c, hrun, hq⟩ := (downloads 1).exists_run_of_execWhile isCareful ⟨.start, []⟩
    ([.env (.download "u")] ++ stream 0 ++ [.env (.download "u"), .env (.signal 1 .advance),
      .env (.signal 1 .advance), .env (.signal 1 .advance), .env (.signal 1 .advance),
      .env (.signal 0 .cancel), .env (.signal 0 .advance), .env (.signal 0 .advance)])
    (fun c => c.store.requests == [⟨"u", .ended, 1, 1⟩, ⟨"u", .ended, 0, 0⟩])
    (fun _ _ ha => ha) (by decide +kernel)
  exact ⟨c, hrun, eq_of_beq hq, slots_kept hrun⟩

/-- A release that deletes after another acquire gives the slot out twice, and a storage
lookup that fails keeps the slot for good. -/
theorem slots_lost :
    (¬ ∀ c, (downloads 1).Reach ⟨.start, []⟩ c →
      c.store.requests.countP (Request.inProgress "u") ≤ 1)
    ∧ ¬ ∀ c, (downloads 1).Reach ⟨.start, []⟩ c →
      c.store.requests.all (·.phase == .ended) = true → (c.store.counters "u").getD 0 = 0 := by
  refine ⟨fun hall => ?_, fun hall => ?_⟩
  · obtain ⟨c, hrun, hq⟩ := (downloads 1).exists_reach_of_exec ⟨.start, []⟩
      ([.env (.download "u")] ++ stream 0 ++ [.env (.signal 0 .advance),
        .env (.signal 0 .advance), .env (.download "u"), .env (.signal 1 .advance),
        .env (.signal 1 .advance), .env (.signal 0 .advance), .env (.download "u"),
        .env (.signal 2 .advance), .env (.signal 2 .advance)])
      (fun c => c.store.requests.countP (Request.inProgress "u") == 2) (by decide +kernel)
    have hle := hall c hrun
    rw [eq_of_beq hq] at hle
    omega
  · obtain ⟨c, hrun, hq⟩ := (downloads 1).exists_reach_of_exec ⟨.start, []⟩
      [.env (.download "u"), .env (.signal 0 .advance), .env (.signal 0 .advance),
        .env (.signal 0 .fail)]
      (fun c => c.store.requests.all (·.phase == .ended)
        && (c.store.counters "u").getD 0 == 1) (by decide +kernel)
    rw [Bool.and_eq_true, beq_iff_eq] at hq
    have hzero := hall c hrun hq.1
    omega

end DownloadSlots

end BurnedChats

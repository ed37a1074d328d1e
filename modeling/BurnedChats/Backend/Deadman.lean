import BurnedChats.Lib.Program

/-!
# The dead man's switch

`user:deadman:cfg:{user}` says that the switch is on and `user:deadman:{user}`
expires when the user has been away for too long; its event waits for the
listener, which burns everything of the user if the config is still there.
Config and trigger are written and deleted by separate commands, and the
listener looks at the config alone.

`never_burns_active` says when the switch burns nobody who is back: what enables
it or refreshes it does not write while an event waits or is handled, and calls
that overlap do not undo each other's second half.
-/

namespace BurnedChats

namespace Deadman

open Program
open Interleave (Conf Server Action exists_turn forall_turn forall_start)

/-! ## The store -/

structure DeadmanConfig where
  periodDays : Nat
  wipeIdentity : Bool

structure DeadmanState where
  enabled : Bool
  periodDays : Option Nat
  wipeIdentity : Bool
  expiresAt : Option Nat

/-- `trigger` has the deadlines of the trigger keys, in milliseconds; `events`
counts the expiry events of a user that wait for the listener. -/
structure Store where
  now : Nat
  cfg : String → Option DeadmanConfig
  trigger : String → Option Nat
  events : String → Nat

def Store.empty : Store := ⟨0, fun _ => none, fun _ => none, fun _ => 0⟩

inductive Command where
  | setConfig (internalId : String) (config : DeadmanConfig)
  | setTrigger (internalId : String) (ttl : Nat)
  | deleteConfig (internalId : String)
  | deleteTrigger (internalId : String)
  | takeEvent (internalId : String)
  /-- The first command of `UserBurnService.burnAllForUser`, which leaves the keys
  of the switch alone. -/
  | burnAllForUser (internalId : String) (wipeIdentity : Bool)

def Store.exec (c : Command) (s : Store) : Store :=
  match c with
  | .setConfig u config => { s with cfg := Function.update s.cfg u (some config) }
  | .setTrigger u ttl => { s with trigger := Function.update s.trigger u (some (s.now + ttl)) }
  | .deleteConfig u => { s with cfg := Function.update s.cfg u none }
  | .deleteTrigger u => { s with trigger := Function.update s.trigger u none }
  | .takeEvent u => { s with events := Function.update s.events u (s.events u - 1) }
  | .burnAllForUser .. => s

/-- The trigger is past its deadline at `t`. -/
def Store.expires (s : Store) (t : Nat) (u : String) : Bool := (s.trigger u).any (· < t)

/-- Time passes, and every trigger that expires leaves an event. -/
def Store.wait (s : Store) (millis : Nat) : Store :=
  let now := s.now + millis
  { s with
    now := now
    trigger := fun u => if s.expires now u then none else s.trigger u
    events := fun u => if s.expires now u then s.events u + 1 else s.events u }

abbrev Prog := Program Store Command

/-! ## The requests -/

def days (n : Nat) : Nat := n * 24 * 60 * 60 * 1000

def ALLOWED_PERIOD_DAYS : List Nat := [7, 30, 90]

def disabledState : DeadmanState := ⟨false, none, false, none⟩

namespace DeadmanRepository

def buildEnabledState (internalId : String) (config : DeadmanConfig) : Prog DeadmanState :=
  ask fun s => ⟨true, some config.periodDays, config.wipeIdentity,
    (s.trigger internalId).filter (s.now < ·)⟩

def enable (internalId : String) (config : DeadmanConfig) : Prog DeadmanState := do
  if ¬ALLOWED_PERIOD_DAYS.contains config.periodDays then
    .fail "INVALID_DEADMAN_PERIOD"
  else
    write (.setConfig internalId config)
    write (.setTrigger internalId (days config.periodDays))
    buildEnabledState internalId config

def disable (internalId : String) : Prog DeadmanState := do
  write (.deleteConfig internalId)
  write (.deleteTrigger internalId)
  return disabledState

def getConfig (internalId : String) : Prog (Option DeadmanConfig) := ask (·.cfg internalId)

def refreshOnActivity (internalId : String) : Prog Bool := do
  match ← getConfig internalId with
  | none => return false
  | some config =>
      if ← ask fun s => (s.trigger internalId).isSome then
        write (.setTrigger internalId (days config.periodDays))
        return true
      else
        return false

def getState (internalId : String) : Prog DeadmanState := do
  match ← getConfig internalId with
  | none => return disabledState
  | some config => buildEnabledState internalId config

def clearConfig (internalId : String) : Prog Unit := write (.deleteConfig internalId)

end DeadmanRepository

structure SetDeadmanRequest where
  enabled : Option Bool
  periodDays : Option Nat
  wipeIdentity : Option Bool
deriving DecidableEq

namespace DeadmanService

open DeadmanRepository

def applySettings (internalId : String) (request : SetDeadmanRequest) : Prog DeadmanState :=
  if request.enabled ≠ some true then disable internalId
  else
    match request.periodDays.filter (ALLOWED_PERIOD_DAYS.contains ·) with
    | none => .fail "INVALID_DEADMAN_PERIOD"
    | some periodDays => enable internalId ⟨periodDays, request.wipeIdentity = some true⟩

def refreshOnConnect (internalId : String) : Prog Bool := refreshOnActivity internalId

def syncStateOnConnect (internalId : String) : Prog (Option DeadmanState) := do
  if ← refreshOnConnect internalId then
    let state ← getState internalId
    return some state
  else
    return none

/-- Whether the burn succeeds or not, the config goes. -/
def onTriggerExpired (internalId : String) : Prog Unit := do
  match ← getConfig internalId with
  | none => return ()
  | some config =>
      write (.burnAllForUser internalId config.wipeIdentity)
      clearConfig internalId

end DeadmanService

inductive Op where
  | applySettings (internalId : String) (request : SetDeadmanRequest)
  | connect (internalId : String)
  | expired (internalId : String)
deriving DecidableEq

def Op.user : Op → String
  | .applySettings u _ => u
  | .connect u => u
  | .expired u => u

def Op.program : Op → Prog (Option DeadmanState)
  | .applySettings u request => DeadmanService.applySettings u request >>= fun state =>
      .done (some state)
  | .connect u => DeadmanService.syncStateOnConnect u
  | .expired u => write (.takeEvent u) >>= fun _ => DeadmanService.onTriggerExpired u >>= fun _ =>
      .done none

/-! ## Runs -/

inductive Move where
  | wait (millis : Nat)

abbrev DeadmanCall := Call Op Store Command (Option DeadmanState)

/-- The log of a user: nothing was done about the switch since it expired. -/
def note (u : String) (op : Op) (command : Command) (untouched : Bool) : Bool :=
  match op, command with
  | .expired _, _ => untouched
  | _, .setConfig x _ => untouched && x ≠ u
  | _, .setTrigger x _ => untouched && x ≠ u
  | _, .deleteConfig x => untouched && x ≠ u
  | _, _ => untouched

def record (u : String) (p : DeadmanCall) (_ : Store) (untouched : Bool) : Bool :=
  match p.command? with
  | some (op, command) => note u op command untouched
  | none => untouched

def server : Server Store DeadmanCall Move :=
  Call.server Store.exec Op.program fun e s =>
    match e with
    | .wait millis => some (s.wait millis)

/-- The server, with a log for one user. -/
def tracked (u : String) : Server (Store × Bool) DeadmanCall Move :=
  server.tracking (record u) fun e s untouched =>
    match e with
    | .wait millis => untouched || s.expires (s.now + millis) u

abbrev State := Conf (Store × Bool) DeadmanCall

def start (s : Store) : State := ⟨(s, false), []⟩

/-- Config and trigger exist together, and no event waits. -/
structure Balanced (u : String) (s : Store) : Prop where
  keys : (s.cfg u).isSome = true ↔ (s.trigger u).isSome = true
  events : s.events u = 0

/-- What is asked of the switch of a user. -/
structure Watched (u : String) (c : State) : Prop where
  /-- Where a burn is about to start, the switch is on, its trigger is gone, and the
  user has done nothing about it since it expired. -/
  burns : ∀ p ∈ c.pool, ∀ op wipeIdentity, p.command? = some (op, .burnAllForUser u wipeIdentity) →
    (c.store.1.cfg u).isSome = true ∧ c.store.1.trigger u = none ∧ c.store.2 = true
  balanced : (∀ p ∈ c.pool, p.op.user = u → p.isOver = true) → c.store.1.events u = 0 →
    ((c.store.1.cfg u).isSome = true ↔ (c.store.1.trigger u).isSome = true)

/-! ## The condition -/

def setsConfig (u : String) (c : Command) : Prop := ∃ config, c = .setConfig u config

def setsTrigger (u : String) (c : Command) : Prop := ∃ ttl, c = .setTrigger u ttl

def deletesConfig (u : String) (c : Command) : Prop := c = .deleteConfig u

def deletesTrigger (u : String) (c : Command) : Prop := c = .deleteTrigger u

def takes : Prog (Option DeadmanState) → Bool
  | .exec (.takeEvent _) _ => true
  | _ => false

/-- The listener has taken the event of the user and is not through with it. -/
def handles (u : String) (p : DeadmanCall) : Bool :=
  p.op = .expired u && !(p.rest Op.program).isOver && !takes (p.rest Op.program)

/-- An event of the user waits or is handled. -/
def Busy (u : String) (c : State) : Prop :=
  0 < c.store.1.events u ∨ ∃ p ∈ c.pool, handles u p = true

def burning (u : String) (p : DeadmanCall) : Prop :=
  ∃ op wipeIdentity, p.command? = some (op, .burnAllForUser u wipeIdentity)

/-- Some call will still execute a command with `ψ`. -/
def Due (c : State) (ψ : Command → Prop) : Prop := ∃ p ∈ c.pool, p.Owes Op.program ψ

/-- The switch is not written while an event waits or is handled; the trigger is
set for a switch that is on, or deleted again; it is deleted for one that is off,
or set again; and no burn is about to start when the config goes. -/
def Timely (u : String) (c : State) : Command → Prop
  | .setConfig x _ => x = u → ¬ Busy u c
  | .setTrigger x _ => x = u →
      ¬ Busy u c ∧ ((c.store.1.cfg u).isSome = true ∨ Due c (deletesTrigger u))
  | .deleteTrigger x => x = u →
      c.store.1.cfg u = none ∨ c.store.1.trigger u = none ∨ Due c (setsTrigger u)
  | .deleteConfig x => x = u → ∀ p ∈ c.pool, ¬ burning u p
  | _ => True

/-- An event is delivered once. -/
def delivers (c : State) : Command → Prop
  | .takeEvent x => 0 < c.store.1.events x
  | _ => True

def Orderly (u : String) (c : State) : Action DeadmanCall Move → Prop
  | .turn i => ∀ p op command, c.pool[i]? = some p → p.command? = some (op, command) →
      delivers c command ∧ Timely u c command
  | _ => True

/-! ## What calls have ahead of them -/

def clear (u : String) : Prog (Option DeadmanState) :=
  .exec (.deleteConfig u) fun _ => .done none

def burn (u : String) (wipeIdentity : Bool) : Prog (Option DeadmanState) :=
  .exec (.burnAllForUser u wipeIdentity) fun _ => clear u

/-- What the listener does about the config that it has read. -/
def judged (u : String) : Option DeadmanConfig → Prog (Option DeadmanState)
  | none => .done none
  | some config => burn u config.wipeIdentity

/-- The handler of an event, once it is taken. -/
def judge (u : String) : Prog (Option DeadmanState) := .read fun s => judged u (s.cfg u)

theorem expired_eq (u : String) :
    Op.program (.expired u) = .exec (.takeEvent u) fun _ => judge u := by
  simp only [Op.program, DeadmanService.onTriggerExpired, DeadmanRepository.getConfig, ask_bind,
    read_bind, write_bind, judge]
  refine congrArg (Program.exec _) (funext fun _ => congrArg Program.read (funext fun s => ?_))
  cases s.cfg u with
  | none => rfl
  | some config => rfl

/-- A refresh that finds the trigger writes it, and reads the state again. -/
def refreshed (u : String) (config : DeadmanConfig) (found : Bool) : Prog (Option DeadmanState) :=
  if found then
    .exec (.setTrigger u (days config.periodDays)) fun _ =>
      DeadmanRepository.getState u >>= fun state => .done (some state)
  else .done none

def refreshing (u : String) : Option DeadmanConfig → Prog (Option DeadmanState)
  | none => .done none
  | some config => .read fun s => refreshed u config (s.trigger u).isSome

theorem connect_eq (u : String) :
    Op.program (.connect u) = .read fun s => refreshing u (s.cfg u) := by
  simp only [Op.program, DeadmanService.syncStateOnConnect, DeadmanService.refreshOnConnect,
    DeadmanRepository.refreshOnActivity, DeadmanRepository.getConfig, ask_bind, read_bind]
  refine congrArg Program.read (funext fun s => ?_)
  cases s.cfg u with
  | none => rfl
  | some config =>
      refine congrArg Program.read (funext fun s => ?_)
      dsimp only [refreshed]
      cases (s.trigger u).isSome with
      | false => rfl
      | true => rfl

inductive Stage (u : String) : Prog (Option DeadmanState) → Prop where
  | waiting : Stage u (Op.program (.expired u))
  | judging : Stage u (judge u)
  | burning (wipeIdentity : Bool) : Stage u (burn u wipeIdentity)
  | clearing : Stage u (clear u)
  | ended : Stage u (.done none)

/-- Whose keys a command is about, and that only the listener takes events and burns. -/
def Issues (op : Op) : Command → Prop
  | .setConfig x _ => x = op.user ∧ op ≠ .expired x
  | .setTrigger x _ => x = op.user ∧ op ≠ .expired x
  | .deleteConfig x => x = op.user
  | .deleteTrigger x => x = op.user ∧ op ≠ .expired x
  | .takeEvent x => op = .expired x
  | .burnAllForUser x _ => op = .expired x

def Op.handler : Op → Bool
  | .expired _ => true
  | _ => false

/-- What the settings write first is followed by its second half. -/
structure Formed (p : DeadmanCall) : Prop where
  obeys : p.Obeys Op.program Issues
  stage : ∀ u, p.op = .expired u → Stage u (p.rest Op.program)
  sets : p.op.handler = false → ∀ u, p.Follows Op.program (setsConfig u) (setsTrigger u)
  deletes : p.op.handler = false → ∀ u, p.Follows Op.program (deletesConfig u) (deletesTrigger u)

def disabling (u : String) : Prog (Option DeadmanState) :=
  .exec (.deleteConfig u) fun _ => .exec (.deleteTrigger u) fun _ => .done (some disabledState)

def enabling (u : String) (config : DeadmanConfig) : Prog (Option DeadmanState) :=
  .exec (.setConfig u config) fun _ => .exec (.setTrigger u (days config.periodDays)) fun _ =>
    DeadmanRepository.buildEnabledState u config >>= fun state => .done (some state)

theorem applySettings_cases (u : String) (request : SetDeadmanRequest) :
    Op.program (.applySettings u request) = disabling u
      ∨ (∃ error, Op.program (.applySettings u request) = .fail error)
      ∨ ∃ config, Op.program (.applySettings u request) = enabling u config := by
  simp only [Op.program, DeadmanService.applySettings]
  by_cases hen : request.enabled = some true
  · rw [if_neg (not_not.mpr hen)]
    cases request.periodDays.filter (ALLOWED_PERIOD_DAYS.contains ·) with
    | none => exact .inr (.inl ⟨_, rfl⟩)
    | some periodDays =>
        simp only [DeadmanRepository.enable]
        split
        · exact .inr (.inl ⟨_, rfl⟩)
        · exact .inr (.inr ⟨_, rfl⟩)
  · rw [if_pos hen]
    exact .inl rfl

theorem connect_all {u : String} {φ : Command → Prop} (h : ∀ ttl, φ (.setTrigger u ttl)) :
    (Op.program (.connect u)).All φ := by
  rw [connect_eq]
  intro s _
  dsimp only
  cases s.cfg u with
  | none => trivial
  | some config =>
      intro s _
      dsimp only [refreshed]
      cases (s.trigger u).isSome with
      | false => trivial
      | true =>
          refine ⟨h _, fun _ _ => ?_⟩
          simp only [DeadmanRepository.getState, DeadmanRepository.getConfig, ask_bind, read_bind]
          intro s _
          dsimp only
          cases s.cfg u with
          | none => trivial
          | some config => exact fun _ _ => trivial

theorem program_issues (op : Op) : op.program.All (Issues op) := by
  cases op with
  | applySettings u request =>
      rcases applySettings_cases u request with h | ⟨error, h⟩ | ⟨config, h⟩
      · rw [h]
        exact ⟨rfl, fun _ _ => ⟨⟨rfl, by simp⟩, fun _ _ => trivial⟩⟩
      · rw [h]
        trivial
      · rw [h]
        exact ⟨⟨rfl, by simp⟩, fun _ _ => ⟨⟨rfl, by simp⟩, fun _ _ _ _ => trivial⟩⟩
  | connect u => exact connect_all fun ttl => ⟨rfl, by simp⟩
  | expired u =>
      rw [expired_eq]
      refine ⟨rfl, fun _ _ s _ => ?_⟩
      dsimp only
      cases s.cfg u with
      | none => trivial
      | some config => exact ⟨rfl, fun _ _ => ⟨rfl, fun _ _ => trivial⟩⟩

theorem program_sets {op : Op} (h : op.handler = false) (u : String) :
    op.program.Follows (setsConfig u) (setsTrigger u) := by
  cases op with
  | applySettings x request =>
      rcases applySettings_cases x request with h | ⟨error, h⟩ | ⟨config, h⟩
      · rw [h]
        exact follows_of_all ⟨by simp [setsConfig], fun _ _ => ⟨by simp [setsConfig],
          fun _ _ => trivial⟩⟩
      · rw [h]
        trivial
      · rw [h]
        refine fun _ => ⟨?_, fun _ => ⟨by simp [setsConfig], fun _ => trivial⟩⟩
        rintro ⟨_, hc⟩
        obtain ⟨rfl, -⟩ := Command.setConfig.inj hc
        exact .inl ⟨_, rfl⟩
  | connect x => exact follows_of_all (connect_all (by simp [setsConfig]))
  | expired x => cases h

theorem program_deletes {op : Op} (h : op.handler = false) (u : String) :
    op.program.Follows (deletesConfig u) (deletesTrigger u) := by
  cases op with
  | applySettings x request =>
      rcases applySettings_cases x request with h | ⟨error, h⟩ | ⟨config, h⟩
      · rw [h]
        refine fun _ => ⟨fun hc => ?_, fun _ => ⟨by simp [deletesConfig], trivial⟩⟩
        obtain rfl := Command.deleteConfig.inj hc
        exact .inl rfl
      · rw [h]
        trivial
      · rw [h]
        exact follows_of_all ⟨by simp [deletesConfig], fun _ _ => ⟨by simp [deletesConfig],
          fun _ _ _ _ => trivial⟩⟩
  | connect x => exact follows_of_all (connect_all (by simp [deletesConfig]))
  | expired x => cases h

theorem formed_arriving (op : Op) : Formed (.arriving op) where
  obeys := program_issues op
  stage u h := by
    obtain rfl : op = .expired u := h
    exact .waiting
  sets h u := program_sets h u
  deletes h u := program_deletes h u

theorem Stage.step {u : String} {p p' : Prog (Option DeadmanState)} {s s' : Store}
    (h : Stage u p) (hs : p.step Store.exec s = some (s', p')) : Stage u p' := by
  cases h with
  | waiting =>
      rw [expired_eq] at hs
      obtain ⟨-, rfl⟩ := Prod.mk.inj (Option.some.inj hs)
      exact .judging
  | judging =>
      obtain ⟨-, rfl⟩ := Prod.mk.inj (Option.some.inj hs)
      dsimp only
      cases s.cfg u with
      | none => exact .ended
      | some config => exact .burning _
  | burning wipe =>
      obtain ⟨-, rfl⟩ := Prod.mk.inj (Option.some.inj hs)
      exact .clearing
  | clearing =>
      obtain ⟨-, rfl⟩ := Prod.mk.inj (Option.some.inj hs)
      exact .ended
  | ended => cases hs

theorem Formed.step {p p' : DeadmanCall} {s s' : Store} (h : Formed p)
    (hs : server.step p s = some (s', p')) : Formed p' := by
  have hop := (Call.step_cases hs).1
  refine ⟨h.obeys.step hs, fun u hu => ?_, fun hh u => (h.sets (hop ▸ hh) u).step hs,
    fun hh u => (h.deletes (hop ▸ hh) u).step hs⟩
  have hstage := h.stage u (hop ▸ hu)
  rcases Call.rest_step hs with ⟨-, hr⟩ | hr
  · rwa [hr]
  · exact hstage.step hr

/-! ## The invariant -/

section Step

variable {u : String} {c : State} {i : Nat} {p p' : DeadmanCall} {s s' : Store}

theorem handles_iff : handles u p = true ↔ p.op = .expired u
    ∧ (p.rest Op.program).isOver = false ∧ takes (p.rest Op.program) = false := by
  simp [handles, and_assoc]

/-- The listener begins to handle an event when it takes it. -/
theorem handles_step (h : Formed p) (hs : server.step p s = some (s', p'))
    (hh : handles u p' = true) :
    handles u p = true ∨ p.command? = some (p.op, .takeEvent u) := by
  obtain ⟨hop, hover, htakes⟩ := handles_iff.mp hh
  rw [(Call.step_cases hs).1] at hop
  rcases Call.step_rest hs with ⟨-, -, hr⟩ | ⟨next, hr, -, -, -⟩ | ⟨d, next, hr, hcmd, -, -⟩
  · rw [hr] at hover htakes
    exact .inl (handles_iff.mpr ⟨hop, hover, htakes⟩)
  · exact .inl (handles_iff.mpr ⟨hop, by rw [hr]; rfl, by rw [hr]; rfl⟩)
  · cases hd : takes (p.rest Op.program) with
    | false => exact .inl (handles_iff.mpr ⟨hop, by rw [hr]; rfl, hd⟩)
    | true =>
        rw [hr] at hd
        have hissues := h.obeys.command hcmd
        cases d with
        | takeEvent x =>
            obtain rfl : u = x := Op.expired.inj (hop.symm.trans hissues)
            exact .inr hcmd
        | _ => cases hd

/-- Commands take events and leave none. -/
theorem exec_events (d : Command) (s : Store) (x : String) : (s.exec d).events x ≤ s.events x := by
  cases d with
  | takeEvent y =>
      simp only [Store.exec, Function.update_apply]
      split
      · rename_i h
        subst h
        omega
      · exact Nat.le_refl _
  | _ => exact Nat.le_refl _

theorem busy_turn (hc : ∀ p ∈ c.pool, Formed p) (hi : c.pool[i]? = some p)
    (hs : server.step p c.store.1 = some (s', p')) (hg : Orderly u c (.turn i)) {l : Bool}
    (h : Busy u ⟨(s', l), c.pool.set i p'⟩) : Busy u c := by
  rcases h with h | h
  · rcases (Call.step_cases hs).2 with ⟨rfl, -⟩ | ⟨d, -, rfl⟩
    · exact .inl h
    · exact .inl (Nat.lt_of_lt_of_le h (exec_events ..))
  · obtain ⟨q, hq, hh⟩ := h
    rcases List.mem_or_eq_of_mem_set hq with hq | rfl
    · exact .inr ⟨q, hq, hh⟩
    · rcases handles_step (hc p (List.mem_of_getElem? hi)) hs hh with hp | hcmd
      · exact .inr ⟨p, List.mem_of_getElem? hi, hp⟩
      · exact .inl (hg p p.op _ hi hcmd).1

/-- A burn is about to start where the listener has just read a config. -/
theorem burning_step (h : Formed p) (hs : server.step p s = some (s', p')) (hb : burning u p') :
    (s.cfg u).isSome = true ∧ p.command? = none := by
  obtain ⟨op, wipe, hcmd⟩ := hb
  have hp' := h.step hs
  obtain ⟨next, rfl⟩ := Call.command?_eq_some hcmd
  have hissues : Issues op (.burnAllForUser u wipe) := hp'.obeys.command hcmd
  obtain rfl : op = .expired u := hissues
  have hop : p.op = .expired u := (Call.step_cases hs).1.symm
  have hstage := h.stage u hop
  rcases Call.step_rest hs with ⟨-, hnone, hr⟩ | ⟨next', hr, hnone, -, hr'⟩
    | ⟨d, next', hr, -, -, hr'⟩
  · exfalso
    cases p with
    | arriving op' =>
        obtain rfl : op' = .expired u := hop
        have hwait : Op.program (.expired u) = .exec (.burnAllForUser u wipe) next := hr.symm
        rw [expired_eq] at hwait
        cases hwait
    | running op' rest =>
        obtain rfl : Program.exec _ next = rest := hr
        cases hnone
  · refine ⟨?_, hnone⟩
    rw [hr] at hstage
    cases hstage with
    | judging =>
        have hj : Program.exec (.burnAllForUser u wipe) next = judged u (s.cfg u) := hr'
        cases hcfg : s.cfg u with
        | none =>
            rw [hcfg] at hj
            cases hj
        | some config => rfl
  · exfalso
    have hrest : Program.exec (.burnAllForUser u wipe) next = next' s := hr'
    generalize hp : p.rest Op.program = rest at hstage
    rw [hp] at hr
    cases hstage with
    | waiting =>
        rw [expired_eq] at hr
        obtain ⟨-, rfl⟩ := Program.exec.inj hr
        cases hrest
    | judging => cases hr
    | burning wipe' =>
        obtain ⟨-, rfl⟩ := Program.exec.inj hr
        cases hrest
    | clearing =>
        obtain ⟨-, rfl⟩ := Program.exec.inj hr
        cases hrest
    | ended => cases hr

/-- The call will still write the trigger, or delete the config if it is there. -/
def Resolves (u : String) (p : DeadmanCall) : Prop :=
  p.Owes Op.program (setsTrigger u) ∨ p.Owes Op.program (deletesConfig u)
    ∨ p.rest Op.program = judge u

/-- What holds of the switch in every run that is orderly. -/
structure Kept (u : String) (c : State) : Prop where
  calls : ∀ p ∈ c.pool, Formed p
  quiet : Busy u c → c.store.1.trigger u = none
    ∧ (c.store.2 = true ∨ c.store.1.cfg u = none)
  about : ∀ p ∈ c.pool, burning u p → (c.store.1.cfg u).isSome = true
  armed : (c.store.1.cfg u).isSome = true → c.store.1.trigger u = none →
    0 < c.store.1.events u ∨ ∃ p ∈ c.pool, Resolves u p
  disarmed : c.store.1.cfg u = none → (c.store.1.trigger u).isSome = true →
    Due c (deletesTrigger u)

/-- A call that resolves goes on to do so, unless it just has. -/
theorem Resolves.step (h : Resolves u p) (hs : server.step p s = some (s', p'))
    (hcfg : (s.cfg u).isSome = true)
    (hne : ∀ d, p.command? = some (p.op, d) → ¬ setsTrigger u d ∧ ¬ deletesConfig u d) :
    Resolves u p' := by
  rcases h with h | h | h
  · exact (h.step hs).elim (fun ⟨d, hd, hψ⟩ => absurd hψ (hne d hd).1) .inl
  · exact (h.step hs).elim (fun ⟨d, hd, hψ⟩ => absurd hψ (hne d hd).2) fun h => .inr (.inl h)
  · rcases Call.rest_step hs with ⟨-, hr⟩ | hr
    · exact .inr (.inr (hr.trans h))
    · rw [h] at hr
      obtain ⟨-, hrest⟩ := Prod.mk.inj (Option.some.inj hr)
      obtain ⟨config, hconfig⟩ := Option.isSome_iff_exists.mp hcfg
      refine .inr (.inl ?_)
      show (p'.rest Op.program).Owes _
      rw [← hrest]
      dsimp only
      rw [hconfig]
      exact .inr fun _ => .inl rfl

theorem due_turn {ψ : Command → Prop} {l : Bool} (hi : c.pool[i]? = some p)
    (hs : server.step p c.store.1 = some (s', p'))
    (hne : ∀ d, p.command? = some (p.op, d) → ¬ ψ d) (h : Due c ψ) :
    Due ⟨(s', l), c.pool.set i p'⟩ ψ :=
  Call.exists_owes_turn hi hs hne h

/-- A step that leaves the switch alone. -/
theorem Kept.same (h : Kept u c) (hg : Orderly u c (.turn i)) (hi : c.pool[i]? = some p)
    (hs : server.step p c.store.1 = some (s', p')) (hcfg : s'.cfg u = c.store.1.cfg u)
    (htrigger : s'.trigger u = c.store.1.trigger u) (hevents : s'.events u = c.store.1.events u)
    (hne : ∀ d, p.command? = some (p.op, d) →
      ¬ setsTrigger u d ∧ ¬ deletesConfig u d ∧ ¬ deletesTrigger u d) :
    Kept u ⟨(s', c.store.2), c.pool.set i p'⟩ where
  calls := forall_turn h.calls ((h.calls p (List.mem_of_getElem? hi)).step hs)
  quiet hb := by
    dsimp only
    rw [hcfg, htrigger]
    exact h.quiet (busy_turn h.calls hi hs hg hb)
  about q hq hb := by
    dsimp only
    rw [hcfg]
    rcases List.mem_or_eq_of_mem_set hq with hq | rfl
    · exact h.about q hq hb
    · exact (burning_step (h.calls p (List.mem_of_getElem? hi)) hs hb).1
  armed hon ht := by
    dsimp only at hon ht ⊢
    rw [hcfg] at hon
    rw [htrigger] at ht
    rw [hevents]
    exact (h.armed hon ht).imp_right (exists_turn hi fun hp =>
      hp.step hs hon fun d hd => ⟨(hne d hd).1, (hne d hd).2.1⟩)
  disarmed hoff ht := by
    dsimp only at hoff ht
    rw [hcfg] at hoff
    rw [htrigger] at ht
    exact due_turn hi hs (fun d hd => (hne d hd).2.2) (h.disarmed hoff ht)

/-- What a command of another user leaves of the switch. -/
theorem exec_other {d : Command} {op : Op} (hissues : Issues op d) (hne : op.user ≠ u) :
    ((s.exec d).cfg u = s.cfg u ∧ (s.exec d).trigger u = s.trigger u
      ∧ (s.exec d).events u = s.events u)
    ∧ ¬ setsTrigger u d ∧ ¬ deletesConfig u d ∧ ¬ deletesTrigger u d := by
  have hne' : u ≠ op.user := Ne.symm hne
  cases d with
  | setConfig x config =>
      obtain ⟨rfl, -⟩ := hissues
      simp [Store.exec, hne', setsTrigger, deletesConfig, deletesTrigger]
  | setTrigger x ttl =>
      obtain ⟨rfl, -⟩ := hissues
      simp [Store.exec, hne, hne', setsTrigger, deletesConfig, deletesTrigger]
  | deleteConfig x =>
      obtain rfl : x = op.user := hissues
      simp [Store.exec, hne, hne', setsTrigger, deletesConfig, deletesTrigger]
  | deleteTrigger x =>
      obtain ⟨rfl, -⟩ := hissues
      simp [Store.exec, hne, hne', setsTrigger, deletesConfig, deletesTrigger]
  | takeEvent x =>
      obtain rfl : op = .expired x := hissues
      have hx : u ≠ x := hne'
      simp [Store.exec, hx, setsTrigger, deletesConfig, deletesTrigger]
  | burnAllForUser x wipe => simp [Store.exec, setsTrigger, deletesConfig, deletesTrigger]

theorem note_other {d : Command} {op : Op} {l : Bool} (hissues : Issues op d)
    (hne : op.user ≠ u) : note u op d l = l := by
  unfold note
  split
  · rfl
  · obtain ⟨rfl, -⟩ := hissues
    simp [hne]
  · obtain ⟨rfl, -⟩ := hissues
    simp [hne]
  · obtain rfl := hissues
    simp [hne]
  · rfl

theorem handler_eq_false {op : Op} (hu : op.user = u) (h : op ≠ .expired u) :
    op.handler = false := by
  cases op with
  | expired x => exact absurd (congrArg Op.expired hu) h
  | _ => rfl

/-- What follows the taking of an event. -/
theorem judges_of_takeEvent (h : Formed p) (hcmd : p.command? = some (p.op, .takeEvent u))
    (hs : server.step p s = some (s', p')) : p'.rest Op.program = judge u := by
  have hop : p.op = .expired u := h.obeys.command hcmd
  have hstage := h.stage u hop
  obtain ⟨next, hp⟩ := Call.command?_eq_some hcmd
  have hrest : p.rest Op.program = .exec (.takeEvent u) next := by
    rw [hp]
    rfl
  have hnext : p'.rest Op.program = next s := by
    rw [hp] at hs
    obtain ⟨-, rfl⟩ := Prod.mk.inj (Option.some.inj hs)
    rfl
  rw [hnext]
  generalize p.rest Op.program = rest at hrest hstage
  cases hstage with
  | waiting =>
      rw [expired_eq] at hrest
      obtain ⟨-, rfl⟩ := Program.exec.inj hrest
      rfl
  | _ => cases hrest

theorem handles_of_deleteConfig (h : Formed p) (hh : p.op.handler = true)
    (hcmd : p.command? = some (p.op, .deleteConfig u)) : handles u p = true := by
  have hissues : u = p.op.user := h.obeys.command hcmd
  have hop : p.op = .expired u := by
    cases hp : p.op with
    | expired x =>
        rw [hp] at hissues
        exact congrArg Op.expired hissues.symm
    | _ =>
        rw [hp] at hh
        cases hh
  obtain ⟨next, hp⟩ := Call.command?_eq_some hcmd
  refine handles_iff.mpr ⟨hop, ?_, ?_⟩
  · rw [hp]
    rfl
  · rw [hp]
    rfl

/-- One command on the switch of the user. -/
theorem Kept.command {d : Command} (h : Kept u c) (hg : Orderly u c (.turn i))
    (hi : c.pool[i]? = some p) (hs : server.step p c.store.1 = some (c.store.1.exec d, p'))
    (hcmd : p.command? = some (p.op, d)) (hu : p.op.user = u) :
    Kept u ⟨(c.store.1.exec d, note u p.op d c.store.2), c.pool.set i p'⟩ := by
  have hmem := List.mem_of_getElem? hi
  have hp := h.calls p hmem
  have hissues : Issues p.op d := hp.obeys.command hcmd
  have hcalls : ∀ q ∈ c.pool.set i p', Formed q := forall_turn h.calls (hp.step hs)
  have hp' : p' ∈ c.pool.set i p' := List.mem_set (List.getElem?_eq_some_iff.mp hi).1 p'
  have hbusy : ∀ l, Busy u ⟨(c.store.1.exec d, l), c.pool.set i p'⟩ → Busy u c :=
    fun l => busy_turn h.calls hi hs hg
  have hburns : ∀ q ∈ c.pool.set i p', burning u q → q ∈ c.pool := by
    intro q hq hb
    rcases List.mem_or_eq_of_mem_set hq with hq | rfl
    · exact hq
    · have hnone := (burning_step hp hs hb).2
      rw [hcmd] at hnone
      cases hnone
  have honly : ∀ {ψ : Command → Prop}, ¬ ψ d → ∀ e, p.command? = some (p.op, e) → ¬ ψ e := by
    intro ψ hψ e he
    rw [hcmd] at he
    exact (Prod.mk.inj (Option.some.inj he)).2 ▸ hψ
  have htimely := (hg p p.op d hi hcmd).2
  cases d with
  | setConfig x config =>
      obtain ⟨hx, hne⟩ := hissues
      obtain rfl : x = u := hx.trans hu
      have hidle : ¬ Busy x c := htimely rfl
      refine ⟨hcalls, fun hb => absurd (hbusy _ hb) hidle, fun _ _ _ => ?_, fun _ _ => .inr
        ⟨p', hp', .inl ((hp.sets (handler_eq_false hu hne) x).owes hcmd ⟨_, rfl⟩ hs)⟩, fun hoff => ?_⟩
      · simp [Store.exec]
      · simp [Store.exec] at hoff
  | setTrigger x ttl =>
      obtain rfl : x = u := hissues.1.trans hu
      obtain ⟨hidle, hon⟩ := htimely rfl
      refine ⟨hcalls, fun hb => absurd (hbusy _ hb) hidle,
        fun q hq hb => h.about q (hburns q hq hb) hb, fun _ ht => ?_, fun hoff _ => ?_⟩
      · simp [Store.exec] at ht
      · have hnone : c.store.1.cfg x = none := hoff
        rw [hnone] at hon
        exact due_turn hi hs (honly (by simp [deletesTrigger])) (hon.resolve_left (by simp))
  | deleteConfig x =>
      obtain rfl : x = u := Eq.trans hissues hu
      have hnoburn := htimely rfl
      have hoff : (c.store.1.exec (.deleteConfig x)).cfg x = none := by simp [Store.exec]
      refine ⟨hcalls, fun hb => ⟨(h.quiet (hbusy _ hb)).1, .inr hoff⟩,
        fun q hq hb => absurd hb (hnoburn q (hburns q hq hb)), fun hon => ?_, fun _ ht => ?_⟩
      · rw [hoff] at hon
        cases hon
      · cases hh : p.op.handler with
        | false => exact ⟨p', hp', (hp.deletes hh x).owes hcmd rfl hs⟩
        | true =>
            have hnone := (h.quiet (.inr ⟨p, hmem, handles_of_deleteConfig hp hh hcmd⟩)).1
            have hsome : (c.store.1.trigger x).isSome = true := ht
            rw [hnone] at hsome
            cases hsome
  | deleteTrigger x =>
      obtain rfl : x = u := hissues.1.trans hu
      have hset := htimely rfl
      have hgone : (c.store.1.exec (.deleteTrigger x)).trigger x = none := by simp [Store.exec]
      refine ⟨hcalls, fun hb => ⟨hgone, ?_⟩, fun q hq hb => h.about q (hburns q hq hb) hb,
        fun hon _ => ?_, fun _ ht => ?_⟩
      · have hl : note x p.op (.deleteTrigger x) c.store.2 = c.store.2 := by
          cases p.op with
          | _ => rfl
        dsimp only
        rw [hl]
        exact (h.quiet (hbusy _ hb)).2
      · have hcfg : (c.store.1.cfg x).isSome = true := hon
        rcases hset with hoff | hnone | hdue
        · rw [hoff] at hcfg
          cases hcfg
        · refine (h.armed hcfg hnone).imp id (exists_turn hi fun hr => hr.step hs hcfg fun e he => ?_)
          exact ⟨honly (by simp [setsTrigger]) e he, honly (by simp [deletesConfig]) e he⟩
        · obtain ⟨q, hq, ho⟩ := due_turn (l := true) hi hs (honly (by simp [setsTrigger])) hdue
          exact .inr ⟨q, hq, .inl ho⟩
      · dsimp only at ht
        rw [hgone] at ht
        cases ht
  | takeEvent x =>
      obtain rfl : x = u := by
        rw [show p.op = .expired x from hissues] at hu
        exact hu
      have hl : note x p.op (.takeEvent x) c.store.2 = c.store.2 := by
        rw [show p.op = .expired x from hissues]
        rfl
      rw [hl]
      refine ⟨hcalls, fun hb => h.quiet (hbusy _ hb), fun q hq hb => h.about q (hburns q hq hb) hb,
        fun _ _ => .inr ⟨p', hp', .inr (.inr (judges_of_takeEvent hp hcmd hs))⟩,
        fun hoff ht => due_turn hi hs (honly (by simp [deletesTrigger])) (h.disarmed hoff ht)⟩
  | burnAllForUser x wipe =>
      have hl : note u p.op (.burnAllForUser x wipe) c.store.2 = c.store.2 := by
        rw [show p.op = .expired x from hissues]
        rfl
      rw [hl]
      refine h.same hg hi hs rfl rfl rfl fun e he => ?_
      exact ⟨honly (by simp [setsTrigger]) e he, honly (by simp [deletesConfig]) e he,
        honly (by simp [deletesTrigger]) e he⟩

/-- Time passes: a trigger that expires leaves an event. -/
theorem Kept.wait (h : Kept u c) (millis : Nat) :
    Kept u ⟨(c.store.1.wait millis, c.store.2 || c.store.1.expires (c.store.1.now + millis) u),
      c.pool⟩ := by
  have htrigger : (c.store.1.wait millis).trigger u
      = if c.store.1.expires (c.store.1.now + millis) u then none else c.store.1.trigger u := rfl
  have hevents : (c.store.1.wait millis).events u
      = if c.store.1.expires (c.store.1.now + millis) u then c.store.1.events u + 1
        else c.store.1.events u := rfl
  cases he : c.store.1.expires (c.store.1.now + millis) u with
  | true =>
      simp only [he, if_true] at htrigger hevents
      refine ⟨h.calls, fun _ => ⟨htrigger, .inl (by simp)⟩, h.about, fun _ _ => .inl ?_,
        fun _ ht => ?_⟩
      · dsimp only
        omega
      · dsimp only at ht
        rw [htrigger] at ht
        cases ht
  | false =>
      simp only [he, Bool.false_eq_true, if_false] at htrigger hevents
      refine ⟨h.calls, fun hb => ?_, h.about, fun hon ht => ?_, fun hoff ht => ?_⟩
      · have hold : Busy u c := hb.imp_left fun hpos => by
          dsimp only at hpos
          rwa [hevents] at hpos
        have hquiet := h.quiet hold
        dsimp only
        rw [htrigger, Bool.or_false]
        exact hquiet
      · dsimp only at ht ⊢
        rw [htrigger] at ht
        rw [hevents]
        exact h.armed hon ht
      · dsimp only at ht
        rw [htrigger] at ht
        exact h.disarmed hoff ht

theorem Kept.start (h : Kept u c) (op : Op) :
    Kept u { c with pool := c.pool ++ [.arriving op] } where
  calls := forall_start h.calls (formed_arriving op)
  quiet hb := by
    refine h.quiet (hb.imp_right ?_)
    rintro ⟨q, hq, hh⟩
    rcases List.mem_append.mp hq with hq | hq
    · exact ⟨q, hq, hh⟩
    · obtain rfl := List.mem_singleton.mp hq
      obtain ⟨hop, -, htakes⟩ := handles_iff.mp hh
      obtain rfl : op = .expired u := hop
      cases htakes
  about q hq hb := by
    rcases List.mem_append.mp hq with hq | hq
    · exact h.about q hq hb
    · obtain rfl := List.mem_singleton.mp hq
      obtain ⟨_, _, hcmd⟩ := hb
      cases hcmd
  armed hon ht := (h.armed hon ht).imp_right fun ⟨q, hq, hr⟩ =>
    ⟨q, List.mem_append_left _ hq, hr⟩
  disarmed hoff ht :=
    let ⟨q, hq, ho⟩ := h.disarmed hoff ht
    ⟨q, List.mem_append_left _ hq, ho⟩

end Step

theorem kept_preserved (u : String) : (tracked u).Preserves (Orderly u) (Kept u) where
  start c p h _ hp := by
    cases p with
    | arriving op => exact h.start op
    | running op rest => cases hp
  turn c i p s' p' h hg hi hs := by
    obtain ⟨hstep, hlog⟩ := Server.recording_step hs
    obtain ⟨s', l'⟩ := s'
    dsimp only at hstep hlog
    subst hlog
    rcases (Call.step_cases hstep).2 with ⟨rfl, hnone⟩ | ⟨d, hcmd, rfl⟩
    · have hl : record u p c.store.1 c.store.2 = c.store.2 := by
        simp [record, hnone]
      rw [hl]
      exact h.same hg hi hstep rfl rfl rfl (by simp [hnone])
    · have hl : record u p c.store.1 c.store.2 = note u p.op d c.store.2 := by
        simp [record, hcmd]
      rw [hl]
      by_cases hu : p.op.user = u
      · exact h.command hg hi hstep hcmd hu
      · have hissues := (h.calls p (List.mem_of_getElem? hi)).obeys.command hcmd
        obtain ⟨⟨hcfg, htrigger, hevents⟩, hne⟩ := exec_other (s := c.store.1) hissues hu
        rw [note_other hissues hu]
        refine h.same hg hi hstep hcfg htrigger hevents fun e he => ?_
        obtain rfl := (Prod.mk.inj (Option.some.inj (hcmd.symm.trans he))).2
        exact hne
  env c e s' h _ he := by
    obtain ⟨millis⟩ := e
    obtain ⟨hstore, hlog⟩ := Server.tracking_env he
    obtain ⟨s', l'⟩ := s'
    dsimp only at hstore hlog
    obtain rfl := Option.some.inj hstore
    subst hlog
    exact h.wait millis

/-- A call that still has to do with the switch is one of its user. -/
theorem Formed.pending {p : DeadmanCall} {u : String} (h : Formed p)
    (hp : Resolves u p ∨ p.Owes Op.program (deletesTrigger u)) :
    p.op.user = u ∧ p.isOver = false := by
  have howes : ∀ {ψ : Command → Prop}, p.Owes Op.program ψ →
      (∀ d, ψ d → Issues p.op d → p.op.user = u) → p.op.user = u ∧ p.isOver = false := by
    intro ψ ho hψ
    obtain ⟨d, hd, hissues⟩ := Program.Owes.exists ho h.obeys .empty
    exact ⟨hψ d hd hissues, ho.not_isOver⟩
  rcases hp with (ho | ho | hj) | ho
  · refine howes ho ?_
    rintro _ ⟨ttl, rfl⟩ hissues
    exact hissues.1.symm
  · refine howes ho ?_
    rintro _ rfl hissues
    exact Eq.symm hissues
  · have hall : (judge u).All (Issues p.op) := hj ▸ h.obeys
    have hop : p.op = .expired u :=
      (hall { Store.empty with cfg := fun _ => some ⟨7, false⟩ } trivial).1
    refine ⟨by rw [hop]; rfl, ?_⟩
    cases p with
    | arriving op => rfl
    | running op rest =>
        obtain rfl : rest = judge u := hj
        rfl
  · refine howes ho ?_
    rintro _ rfl hissues
    exact hissues.1.symm

theorem kept_start {u : String} {s : Store} (hs : Balanced u s) : Kept u (start s) where
  calls _ hp := by cases hp
  quiet hb := by
    rcases hb with hb | ⟨p, hp, -⟩
    · exact absurd hs.events (Nat.pos_iff_ne_zero.mp hb)
    · cases hp
  about _ hp := by cases hp
  armed hon ht := by
    have htrigger : (s.trigger u).isSome = true := hs.keys.mp hon
    rw [show s.trigger u = none from ht] at htrigger
    cases htrigger
  disarmed hoff ht := by
    have hcfg : (s.cfg u).isSome = true := hs.keys.mpr ht
    rw [show s.cfg u = none from hoff] at hcfg
    cases hcfg

/-- If what enables or refreshes the switch does not write while an event waits or
is handled, and overlapping calls leave both keys or none, the switch burns
nobody who is back, and it is never silently dead. -/
theorem never_burns_active {u : String} {s : Store} {c : State}
    (hrun : (tracked u).Run (Orderly u) (start s) c) (hs : Balanced u s) : Watched u c := by
  have hk := hrun.invariant (kept_preserved u) (kept_start hs)
  refine ⟨fun p hp op wipe hcmd => ?_, fun hidle hevents => ?_⟩
  · have hcfg := hk.about p hp ⟨op, wipe, hcmd⟩
    have hformed := hk.calls p hp
    obtain ⟨next, rfl⟩ := Call.command?_eq_some hcmd
    have hop : op = .expired u := hformed.obeys.command hcmd
    obtain ⟨htrigger, hlog⟩ := hk.quiet (.inr ⟨_, hp, handles_iff.mpr ⟨hop, rfl, rfl⟩⟩)
    refine ⟨hcfg, htrigger, hlog.resolve_right fun hoff => ?_⟩
    rw [hoff] at hcfg
    cases hcfg
  · have hnone : ∀ p ∈ c.pool, ¬ (Resolves u p ∨ p.Owes Op.program (deletesTrigger u)) := by
      intro p hp h
      obtain ⟨hu, hover⟩ := (hk.calls p hp).pending h
      rw [hidle p hp hu] at hover
      cases hover
    constructor
    · intro hon
      by_contra ht
      rcases hk.armed hon (by simpa using ht) with hpos | ⟨p, hp, hr⟩
      · omega
      · exact hnone p hp (.inl hr)
    · intro ht
      by_contra hon
      obtain ⟨p, hp, ho⟩ := hk.disarmed (by simpa using hon) ht
      exact hnone p hp (.inr ho)

/-! ## A user who stays away, and one who is back -/

def startsBurn (u : String) (p : DeadmanCall) : Bool :=
  match p.command? with
  | some (_, .burnAllForUser x _) => x = u
  | _ => false

theorem burning_of_startsBurn {u : String} {p : DeadmanCall} :
    startsBurn u p = true ↔ burning u p := by
  unfold startsBurn burning
  split
  · rename_i op x wipe h
    simp [h, eq_comm]
  · rename_i h
    simpa using fun op wipe he => h op u wipe he

def calm (u : String) (c : State) : Bool :=
  c.store.1.events u = 0 && c.pool.all (!handles u ·)

theorem not_busy_of_calm {u : String} {c : State} (h : calm u c = true) : ¬ Busy u c := by
  simp only [calm, Bool.and_eq_true, decide_eq_true_eq, List.all_eq_true, Bool.not_eq_true'] at h
  rintro (hpos | ⟨p, hp, hh⟩)
  · omega
  · rw [h.2 p hp] at hh
    cases hh

def careful (u : String) (c : State) : Action DeadmanCall Move → Bool
  | .turn i =>
      match c.pool[i]?.bind (·.command?) with
      | some (_, .setConfig x _) => x ≠ u || calm u c
      | some (_, .setTrigger x _) => x ≠ u || calm u c && (c.store.1.cfg u).isSome
      | some (_, .deleteTrigger x) => x ≠ u || (c.store.1.cfg u).isNone
      | some (_, .deleteConfig x) => x ≠ u || c.pool.all (!startsBurn u ·)
      | some (_, .takeEvent x) => 0 < c.store.1.events x
      | _ => true
  | _ => true

theorem orderly_of_careful {u : String} {c : State} {a : Action DeadmanCall Move}
    (h : careful u c a = true) : Orderly u c a := by
  cases a with
  | turn i =>
      intro p op d hi hcmd
      simp only [careful, hi, Option.bind_some, hcmd] at h
      cases d with
      | setConfig x config =>
          refine ⟨trivial, fun hx => not_busy_of_calm ?_⟩
          simpa [hx] using h
      | setTrigger x ttl =>
          refine ⟨trivial, fun hx => ?_⟩
          have hboth : calm u c = true ∧ (c.store.1.cfg u).isSome = true := by
            simpa [hx] using h
          exact ⟨not_busy_of_calm hboth.1, .inl hboth.2⟩
      | deleteTrigger x =>
          refine ⟨trivial, fun hx => .inl ?_⟩
          simpa [hx] using h
      | deleteConfig x =>
          refine ⟨trivial, fun hx q hq hb => ?_⟩
          have hall : c.pool.all (!startsBurn u ·) = true := by simpa [hx] using h
          have hq' := List.all_eq_true.mp hall q hq
          rw [burning_of_startsBurn.mpr hb] at hq'
          cases hq'
      | takeEvent x => exact ⟨by simpa [delivers] using h, trivial⟩
      | burnAllForUser x wipe => exact ⟨trivial, trivial⟩
  | _ => trivial

def enableWeek : Op := .applySettings "u" ⟨some true, some 7, some true⟩

/-- A call that arrives, and as many of its steps. -/
def arrives (op : Op) (i steps : Nat) : List (Action DeadmanCall Move) :=
  .start (.arriving op) :: List.replicate steps (.turn i)

/-- The user enables the switch, connects once more, and stays away. -/
def staysAway : List (Action DeadmanCall Move) :=
  arrives enableWeek 0 4 ++ arrives (.connect "u") 1 5 ++ [.env (.wait (days 8))]
    ++ arrives (.expired "u") 2 3

theorem balanced_empty (u : String) : Balanced u .empty := ⟨Iff.rfl, rfl⟩

theorem away_user_burned : ∃ c, (tracked "u").Run (Orderly "u") (start .empty) c
    ∧ (∃ p ∈ c.pool, burning "u" p) ∧ Watched "u" c := by
  obtain ⟨c, hrun, hc⟩ := (tracked "u").exists_run_of_execWhile (careful "u") (start .empty)
    staysAway (fun c => c.pool.any (startsBurn "u")) (fun _ _ => orderly_of_careful)
    (by decide +kernel)
  obtain ⟨p, hp, hb⟩ := List.any_eq_true.mp hc
  exact ⟨c, hrun, ⟨p, hp, burning_of_startsBurn.mp hb⟩,
    never_burns_active hrun (balanced_empty "u")⟩

/-- Events are delivered once, and nothing else is asked of a run. -/
def Delivered (c : State) : Action DeadmanCall Move → Prop
  | .turn i => ∀ p op command, c.pool[i]? = some p → p.command? = some (op, command) →
      delivers c command
  | _ => True

def deliveredB (c : State) : Action DeadmanCall Move → Bool
  | .turn i =>
      match c.pool[i]?.bind (·.command?) with
      | some (_, .takeEvent x) => 0 < c.store.1.events x
      | _ => true
  | _ => true

theorem delivered_of_deliveredB {c : State} {a : Action DeadmanCall Move}
    (h : deliveredB c a = true) : Delivered c a := by
  cases a with
  | turn i =>
      intro p op d hi hcmd
      simp only [deliveredB, hi, Option.bind_some, hcmd] at h
      cases d with
      | takeEvent x => simpa [delivers] using h
      | _ => trivial
  | _ => trivial

/-- The trigger expires, and the user enables the switch again before the
listener looks at the config. -/
def comesBack : List (Action DeadmanCall Move) :=
  arrives enableWeek 0 4 ++ [.env (.wait (days 8))] ++ arrives (.expired "u") 1 2
    ++ arrives enableWeek 2 4 ++ [.turn 1]

theorem active_user_burned : ¬ ∀ u s c, (tracked u).Run Delivered (start s) c → Balanced u s →
    Watched u c := by
  intro hall
  obtain ⟨c, hrun, hc⟩ := (tracked "u").exists_run_of_execWhile deliveredB (start .empty)
    comesBack (fun c => c.pool.any (startsBurn "u") && (c.store.1.trigger "u").isSome)
    (fun _ _ => delivered_of_deliveredB) (by decide +kernel)
  obtain ⟨hany, htrigger⟩ := Bool.and_eq_true_iff.mp hc
  obtain ⟨p, hp, hb⟩ := List.any_eq_true.mp hany
  obtain ⟨op, wipe, hcmd⟩ := burning_of_startsBurn.mp hb
  have hgone := ((hall "u" .empty c hrun (balanced_empty "u")).burns p hp op wipe hcmd).2.1
  rw [hgone] at htrigger
  cases htrigger

end Deadman

end BurnedChats

import BurnedChats.Backend.Sessions

/-!
# The verification flags of a session

`initiatorVerified` and `responderVerified` are set by one `HSET` each when a
participant confirms the fingerprint. Three other handlers matter to them:
`sendMessage` saves the whole session as it was read, with the flags of that
moment; a report of a mismatch leaves the flag of its reporter as it is; and a
relay of new public keys does not reset the flags, although it changes what
they speak about.

What the flags should say is kept in a log (`Reports`): whether a participant's
last report, since keys were last relayed, is a confirmation. `flags_current`
says when the stored flags agree with it.
-/

namespace BurnedChats

open Interleave

namespace Sessions

/-! ## What should be stored -/

/-- Has the participant's last report since the latest relay been a confirmation? -/
abbrev Reports := Role → Bool

def roleOf (s : Session) (user : String) : Role :=
  if s.isInitiator user then .initiator else .responder

/-- A report counts when the server takes it up; a confirmation only when it is
accepted. Handing out a public key starts over. -/
def Config.record (cfg : Config) (p : Call) (s : Store) (l : Reports) : Reports :=
  match p.todo, p.next with
  | .send _ (.peerPublicKey _) :: _, _ => fun _ => false
  | [], some (.confirm user) =>
      match cfg.findById s with
      | none => l
      | some session =>
          if (cfg.found s.now (.confirm user) (some session)).2.isSome then
            Function.update l (roleOf session user) true
          else l
  | [], some (.mismatch user) =>
      match cfg.findById s with
      | none => l
      | some session =>
          if session.isParticipant user then Function.update l (roleOf session user) false else l
  | _, _ => l

def Config.flagServer (cfg : Config) : Server (Store × Reports) Call Move :=
  cfg.server.recording cfg.record

/-- Confirmations, mismatch reports, key exchanges and message sends. -/
def Handler.concernsFlags : Handler → Bool
  | .confirm _ => true
  | .mismatch _ => true
  | .relayKey _ _ => true
  | .sendMessage _ _ => true
  | _ => false

/-- The session does not run out of its time to live meanwhile. -/
def flagScope (_ : Conf (Store × Reports) Call) : Action Call Move → Bool
  | .start p => p.next.any Handler.concernsFlags
  | .turn _ => true
  | .env (.tick _) => true
  | .env .lapse => false

def Store.flag (s : Store) (role : Role) : Bool :=
  match s.hash, role with
  | none, _ => false
  | some h, .initiator => h.initiatorVerified.getD false
  | some h, .responder => h.responderVerified.getD false

/-- A confirmation of `role` is under way: accepted, its flag not yet written. -/
def Call.confirms (initiator : String) (role : Role) (p : Call) : Bool :=
  (match p.next with
    | some (.updateVerification user _) =>
        (if user = initiator then Role.initiator else .responder) == role
    | _ => false)
  || p.todo.any fun c => match c with | .setVerified r _ => r == role | _ => false

/-- Nothing of `role` is confirmed, or being confirmed. -/
def unconfirmed (initiator : String) (role : Role) (c : Conf (Store × Reports) Call) : Bool :=
  !c.store.1.flag role && c.pool.all fun p => !p.confirms initiator role

/-- A whole session is saved with the flags that are stored; keys are relayed
while nothing is confirmed; and who reports a mismatch has not confirmed. -/
def Config.careful (cfg : Config) (initiator : String) (c : Conf (Store × Reports) Call) :
    Action Call Move → Bool
  | .turn i =>
      match c.pool[i]? with
      | some ⟨.save session :: _, _⟩ =>
          session.initiatorVerified == c.store.1.flag .initiator
            && session.responderVerified == c.store.1.flag .responder
      | some ⟨.send _ (.peerPublicKey _) :: _, _⟩ =>
          unconfirmed initiator .initiator c && unconfirmed initiator .responder c
      | some ⟨[], some (.mismatch user)⟩ =>
          match cfg.findById c.store.1 with
          | none => true
          | some session =>
              !session.isParticipant user || unconfirmed initiator (roleOf session user) c
      | _ => true
  | _ => true

/-! ## One command -/

/-- A hash that is gone without its keys had no flag and no initiator either. -/
theorem SessionHash.clearPublicKeys_cases (h : SessionHash) :
    h.clearPublicKeys = some { h with initiatorPublicKey := none, responderPublicKey := none }
      ∨ h.clearPublicKeys = none ∧ h.initiatorVerified = none ∧ h.responderVerified = none
        ∧ h.initiatorInternalId = none := by
  unfold SessionHash.clearPublicKeys
  dsimp only
  split
  · rename_i hempty
    exact .inr ⟨rfl, congrArg SessionHash.initiatorVerified hempty,
      congrArg SessionHash.responderVerified hempty,
      congrArg SessionHash.initiatorInternalId hempty⟩
  · exact .inl rfl

/-- Only three commands touch the flags. -/
theorem Store.exec_flag (s : Store) (cmd : Command) (role : Role) :
    (s.exec cmd).flag role = match cmd with
      | .save session => session.verified role
      | .setVerified r v => if r = role then v else s.flag role
      | .delete _ => false
      | _ => s.flag role := by
  cases hs : s.hash with
  | none =>
      cases cmd with
      | setVerified r v => cases r <;> cases role <;> simp [exec, flag, Command.fields,
          SessionHash.merge, hs]
      | setPublicKey r key => cases r <;> cases role <;> simp [exec, flag, Command.fields,
          SessionHash.merge, hs]
      | save | setStatus | setLastActivity | setHandshakeCompleted | setMessageTtl
      | clearPublicKeys | expire | delete | send | elsewhere =>
          cases role <;> simp [exec, flag, Command.fields, SessionHash.merge, Session.toMap,
            Session.verified, hs]
  | some h =>
      cases cmd with
      | setVerified r v => cases r <;> cases role <;> simp [exec, flag, Command.fields,
          SessionHash.merge, hs]
      | setPublicKey r key => cases r <;> cases role <;> simp [exec, flag, Command.fields,
          SessionHash.merge, hs]
      | clearPublicKeys =>
          rcases h.clearPublicKeys_cases with hc | ⟨hc, hi, hr, -⟩
          · cases role <;> simp [exec, Command.fields, flag, hs, hc]
          · cases role <;> simp [exec, Command.fields, flag, hs, hc, hi, hr]
      | save | setStatus | setLastActivity | setHandshakeCompleted | setMessageTtl
      | expire | delete | send | elsewhere =>
          cases role <;> simp [exec, flag, Command.fields, SessionHash.merge, Session.toMap,
            Session.verified, hs]

/-- The participants of the stored session. -/
def Store.Between (a b : String) (s : Store) : Prop :=
  ∃ h, s.hash = some h ∧ h.initiatorInternalId = some a ∧ h.responderInternalId = some b

/-- A command that keeps the session, with its participants. -/
def Command.Tame (a b : String) : Command → Prop
  | .save session => session.initiatorInternalId = some a ∧ session.responderInternalId = some b
  | .setVerified _ v => v = true
  | .delete _ => False
  | _ => True

theorem Store.Between.exec {a b : String} {s : Store} {cmd : Command} (h : s.Between a b)
    (hc : cmd.Tame a b) : (s.exec cmd).Between a b := by
  obtain ⟨h, hs, ha, hb⟩ := h
  cases cmd with
  | delete => cases hc
  | clearPublicKeys =>
      rcases h.clearPublicKeys_cases with hc | ⟨-, -, -, hi⟩
      · refine ⟨{ h with initiatorPublicKey := none, responderPublicKey := none }, ?_, ha, hb⟩
        simp only [Store.exec, Command.fields, hs, Option.bind_some, hc]
      · rw [hi] at ha
        cases ha
  | save session =>
      exact ⟨_, rfl, by simp [SessionHash.merge, Session.toMap, hc.1],
        by simp [SessionHash.merge, Session.toMap, hc.2]⟩
  | setPublicKey r key =>
      cases r <;> exact ⟨_, rfl, by simp [SessionHash.merge, hs, ha],
        by simp [SessionHash.merge, hs, hb]⟩
  | setVerified r v =>
      cases r <;> exact ⟨_, rfl, by simp [SessionHash.merge, hs, ha],
        by simp [SessionHash.merge, hs, hb]⟩
  | setStatus | setLastActivity | setHandshakeCompleted | setMessageTtl =>
      exact ⟨_, rfl, by simp [SessionHash.merge, hs, ha], by simp [SessionHash.merge, hs, hb]⟩
  | expire | send | elsewhere => exact ⟨h, hs, ha, hb⟩

/-- What a read gives: a session of the two participants. -/
theorem Store.Between.found {a b : String} {s : Store} (h : s.Between a b) (cfg : Config)
    (hta : isBlank a = false) (htb : isBlank b = false) :
    ∃ session, cfg.findById s = some session ∧ session.initiatorInternalId = some a
      ∧ session.responderInternalId = some b := by
  obtain ⟨h, hs, ha, hb⟩ := h
  refine ⟨cfg.mapToSession s.now h, by simp [Config.findById, hs], ?_, ?_⟩
  · simp [Config.mapToSession, Config.internalId, ha, hasText, hta]
  · simp [Config.mapToSession, Config.internalId, hb, hasText, htb]

/-! ## One read -/

/-- The handlers of `concernsFlags`, with their later reads. -/
def Handler.verifies : Handler → Bool
  | .setPublicKey .. => true
  | .afterPublicKey .. => true
  | .updateVerification .. => true
  | .emitConfirmation .. => true
  | handler => handler.concernsFlags

theorem sendTo_tame (a b : String) (recipient : Option String) (event : Event) :
    ∀ cmd ∈ sendTo recipient event, cmd.Tame a b := by
  intro cmd hcmd
  unfold sendTo at hcmd
  split at hcmd
  · obtain rfl := List.mem_singleton.mp hcmd
    trivial
  · cases hcmd

/-- What is decided on a session of the two keeps it, with its participants. -/
theorem Config.found_tame {a b : String} {session : Session} (cfg : Config) (now : Nat)
    (ha : session.initiatorInternalId = some a) (hb : session.responderInternalId = some b)
    {handler : Handler} (hh : handler.verifies = true) :
    (∀ cmd ∈ (cfg.found now handler (some session)).1, cmd.Tame a b)
      ∧ ∀ next ∈ (cfg.found now handler (some session)).2, next.verifies = true := by
  have hsend := sendTo_tame a b
  cases handler with
  | accept | reject | resume | listSessions | setMessageTtl | burn | burnAll => cases hh
  | afterPublicKey sender status peer =>
      simp only [found, afterPublicKeyAtomic]
      split
      · refine ⟨fun cmd hcmd => ?_, fun _ h => by cases h⟩
        simp only [List.mem_append] at hcmd
        rcases hcmd with ((hcmd | hcmd) | hcmd) | hcmd
        · exact hsend _ _ cmd hcmd
        · exact hsend _ _ cmd hcmd
        · split at hcmd
          · obtain rfl := List.mem_singleton.mp hcmd
            trivial
          · cases hcmd
        · simp only [List.mem_cons, List.not_mem_nil, or_false] at hcmd
          rcases hcmd with rfl | rfl | rfl | rfl <;> trivial
      · split
        · exact ⟨hsend _ _, by simp⟩
        · simp
  | emitConfirmation user before =>
      refine ⟨fun cmd hcmd => ?_, fun _ h => by cases h⟩
      rcases List.mem_cons.mp hcmd with rfl | hcmd
      · trivial
      · exact hsend _ _ cmd hcmd
  | mismatch reporter =>
      simp only [found]
      split
      · refine ⟨fun cmd hcmd => ?_, fun _ h => by cases h⟩
        rcases List.mem_cons.mp hcmd with rfl | hcmd
        · trivial
        · exact hsend _ _ cmd hcmd
      · simp
  | relayKey | setPublicKey | confirm | updateVerification | sendMessage =>
      simp only [found, fail]
      repeat' split
      all_goals simp [Command.Tame, Handler.verifies, ha, hb]

theorem sendTo_confirms (role : Role) (recipient : Option String) (event : Event) :
    ((sendTo recipient event).any fun c => match c with
      | .setVerified r _ => r == role
      | _ => false) = false := by
  unfold sendTo
  split <;> rfl

/-- A confirmation is under way from the read that accepts it on. -/
theorem Config.found_confirms {a : String} {session : Session} (cfg : Config) (now : Nat)
    (ha : session.initiatorInternalId = some a) (role : Role) {handler : Handler}
    (hh : handler.verifies = true) :
    Call.confirms a role ⟨(cfg.found now handler (some session)).1,
        (cfg.found now handler (some session)).2⟩ = match handler with
      | .confirm user => (cfg.found now handler (some session)).2.isSome
          && roleOf session user == role
      | .updateVerification user _ => (if user = a then Role.initiator else .responder) == role
      | _ => false := by
  have hinit : ∀ user, session.isInitiator user = decide (user = a) := fun user => by
    rw [Bool.eq_iff_iff]
    simp only [Session.isInitiator, ha, beq_iff_eq, Option.some.injEq, decide_eq_true_eq]
    exact eq_comm
  have hsend := sendTo_confirms role
  cases handler with
  | accept | reject | resume | listSessions | setMessageTtl | burn | burnAll => cases hh
  | afterPublicKey sender status peer =>
      simp only [found, afterPublicKeyAtomic]
      split
      · split <;> simp only [Call.confirms, List.any_append, hsend] <;> rfl
      · split
        · simp only [Call.confirms, hsend, Bool.false_or]
        · rfl
  | emitConfirmation user before =>
      simp only [found, Call.confirms, List.any_cons, hsend, Bool.or_false]
  | mismatch reporter =>
      simp only [found]
      split
      · simp only [Call.confirms, List.any_cons, hsend, Bool.or_false]
      · rfl
  | updateVerification user before =>
      simp [found, Call.confirms, hinit]
  | confirm user =>
      simp only [found, fail]
      repeat' split
      all_goals simp [Call.confirms, roleOf, hinit]
  | relayKey | setPublicKey | sendMessage =>
      simp only [found, fail]
      repeat' split
      all_goals rfl

/-! ## The flags through a run -/

def Call.Tame (a b : String) (p : Call) : Prop :=
  (∀ cmd ∈ p.todo, cmd.Tame a b) ∧ ∀ handler ∈ p.next, handler.verifies = true

theorem Call.confirms_cons (a : String) (role : Role) (cmd : Command) (todo : List Command)
    (next : Option Handler) :
    Call.confirms a role ⟨cmd :: todo, next⟩
      = ((match cmd with | .setVerified r _ => r == role | _ => false)
        || Call.confirms a role ⟨todo, next⟩) := by
  simp only [Call.confirms, List.any_cons, Bool.or_left_comm]

/-- The flags with the confirmations under way are what was reported. -/
structure Current (a b : String) (c : Conf (Store × Reports) Call) : Prop where
  between : c.store.1.Between a b
  tame : ∀ p ∈ c.pool, p.Tame a b
  reported : ∀ role, c.store.2 role = true ↔
    c.store.1.flag role = true ∨ 0 < c.pool.countP (Call.confirms a role)

variable {a b : String} {c : Conf (Store × Reports) Call}

theorem unconfirmed_iff {role : Role} :
    unconfirmed a role c = true ↔
      c.store.1.flag role = false ∧ c.pool.countP (Call.confirms a role) = 0 := by
  simp [unconfirmed, List.countP_eq_zero]

/-- A step after which a role counts as not confirmed. -/
theorem Current.reset {i : Nat} {p p' : Call} {s' : Store} {l' : Reports} (h : Current a b c)
    (hi : c.pool[i]? = some p) (hbetween : s'.Between a b) (htame : p'.Tame a b)
    (hflag : ∀ role, s'.flag role = c.store.1.flag role)
    (hconfirms : ∀ role, p'.confirms a role = p.confirms a role)
    (hlog : ∀ role, l' role = c.store.2 role
      ∨ l' role = false ∧ unconfirmed a role c = true) :
    Current a b ⟨(s', l'), c.pool.set i p'⟩ where
  between := hbetween
  tame := forall_turn h.tame htame
  reported role := by
    dsimp only
    rw [hflag, countP_turn_eq _ hi _ (hconfirms role)]
    rcases hlog role with hl | ⟨hl, hu⟩
    · rw [hl]
      exact h.reported role
    · obtain ⟨hf, hz⟩ := unconfirmed_iff.mp hu
      simp [hl, hf, hz]

/-- A step that touches neither flags nor reports. -/
theorem Current.keep {i : Nat} {p p' : Call} {s' : Store} (h : Current a b c)
    (hi : c.pool[i]? = some p) (hbetween : s'.Between a b) (htame : p'.Tame a b)
    (hflag : ∀ role, s'.flag role = c.store.1.flag role)
    (hconfirms : ∀ role, p'.confirms a role = p.confirms a role) :
    Current a b ⟨(s', c.store.2), c.pool.set i p'⟩ :=
  h.reset hi hbetween htame hflag hconfirms fun _ => .inl rfl

/-- The command of a request. -/
theorem Config.command_current (cfg : Config) {i : Nat} {cmd : Command} {todo : List Command}
    {next : Option Handler} (h : Current a b c) (hi : c.pool[i]? = some ⟨cmd :: todo, next⟩)
    (hg : cfg.careful a c (.turn i) = true) :
    Current a b ⟨(c.store.1.exec cmd, cfg.record ⟨cmd :: todo, next⟩ c.store.1 c.store.2),
      c.pool.set i ⟨todo, next⟩⟩ := by
  have hp := h.tame _ (List.mem_of_getElem? hi)
  have hcmd : cmd.Tame a b := hp.1 cmd (List.mem_cons_self ..)
  have hrest : Call.Tame a b ⟨todo, next⟩ := ⟨fun x hx => hp.1 x (List.mem_cons_of_mem _ hx), hp.2⟩
  have hbetween := h.between.exec hcmd
  have hcons := fun role => Call.confirms_cons a role cmd todo next
  have hflag := c.store.1.exec_flag cmd
  cases cmd with
  | delete => cases hcmd
  | setVerified r v =>
      obtain rfl : v = true := hcmd
      refine ⟨hbetween, forall_turn h.tame hrest, fun role => ?_⟩
      dsimp only [record]
      rw [h.reported role, hflag]
      dsimp only
      by_cases hr : r = role
      · -- the flag is written; until now the confirmation was under way
        have hpos : Call.confirms a role ⟨.setVerified r true :: todo, next⟩ = true := by
          rw [hcons]
          simp [hr]
        simp [hr, countP_pos_of _ hi hpos]
      · have heq : Call.confirms a role ⟨.setVerified r true :: todo, next⟩
            = Call.confirms a role ⟨todo, next⟩ := by
          rw [hcons]
          simp [hr]
        rw [if_neg hr, countP_turn_eq _ hi _ heq.symm]
  | save session =>
      refine h.keep hi hbetween hrest (fun role => ?_) (fun role => by rw [hcons, Bool.false_or])
      simp only [Config.careful, hi, Bool.and_eq_true, beq_iff_eq] at hg
      rw [hflag]
      cases role with
      | initiator => exact hg.1
      | responder => exact hg.2
  | send recipient event =>
      cases event with
      | peerPublicKey key =>
          refine h.reset hi hbetween hrest hflag (fun role => by rw [hcons, Bool.false_or])
            fun role => .inr ⟨rfl, ?_⟩
          simp only [Config.careful, hi, Bool.and_eq_true] at hg
          cases role with
          | initiator => exact hg.1
          | responder => exact hg.2
      | keyRefresh | verification | mismatch | error | notice =>
          exact h.keep hi hbetween hrest hflag fun role => by rw [hcons, Bool.false_or]
  | setStatus | setLastActivity | setPublicKey | setHandshakeCompleted | setMessageTtl
  | clearPublicKeys | expire | elsewhere =>
      exact h.keep hi hbetween hrest hflag fun role => by rw [hcons, Bool.false_or]

/-- A read by a request. -/
theorem Config.read_current (cfg : Config) (hta : isBlank a = false) (htb : isBlank b = false)
    {i : Nat} {handler : Handler} (h : Current a b c) (hi : c.pool[i]? = some ⟨[], some handler⟩)
    (hg : cfg.careful a c (.turn i) = true) :
    let r := cfg.found c.store.1.now handler (cfg.findById c.store.1)
    Current a b ⟨(c.store.1, cfg.record ⟨[], some handler⟩ c.store.1 c.store.2),
      c.pool.set i ⟨r.1, r.2⟩⟩ := by
  obtain ⟨session, hfound, ha, hb⟩ := h.between.found cfg hta htb
  have hh : handler.verifies = true := (h.tame _ (List.mem_of_getElem? hi)).2 handler rfl
  have htame := cfg.found_tame c.store.1.now ha hb hh
  have hconfirms := fun role => cfg.found_confirms c.store.1.now ha role hh
  rw [hfound]
  cases handler with
  | accept | reject | resume | listSessions | setMessageTtl | burn | burnAll => cases hh
  | confirm user =>
      refine ⟨h.between, forall_turn h.tame htame, fun role => ?_⟩
      generalize hr : cfg.found c.store.1.now (.confirm user) (some session) = r at hconfirms ⊢
      have hcount := countP_turn (Call.confirms a role) hi ⟨r.1, r.2⟩
      have hbefore : Call.confirms a role ⟨[], some (.confirm user)⟩ = false := rfl
      rw [hconfirms, hbefore, Bool.toNat_false, Nat.add_zero] at hcount
      have hlog := h.reported role
      dsimp only [record]
      rw [hfound]
      dsimp only
      rw [hr, hcount]
      by_cases hacc : r.2.isSome = true
      · by_cases hrole : roleOf session user = role
        · simp [hacc, hrole]
        · have hother : (roleOf session user == role) = false := by simpa using hrole
          simp [hacc, hother, Function.update_of_ne (Ne.symm hrole), hlog]
      · simp [hacc, hlog]
  | mismatch user =>
      refine h.reset hi h.between htame (fun _ => rfl) hconfirms fun role => ?_
      simp only [Config.careful, hi, hfound] at hg
      dsimp only [record]
      rw [hfound]
      dsimp only
      by_cases hpart : session.isParticipant user = true
      · rw [if_pos hpart]
        by_cases hrole : role = roleOf session user
        · rw [hrole, Function.update_self]
          simp only [hpart, Bool.not_true, Bool.false_or] at hg
          exact .inr ⟨rfl, hg⟩
        · exact .inl (Function.update_of_ne hrole ..)
      · rw [if_neg hpart]
        exact .inl rfl
  | updateVerification | emitConfirmation | relayKey | setPublicKey | afterPublicKey
  | sendMessage =>
      refine h.keep hi h.between htame (fun _ => rfl) fun role => ?_
      rw [hconfirms]
      simp [Call.confirms]

theorem Config.current_preserved (cfg : Config) (hta : isBlank a = false)
    (htb : isBlank b = false) :
    cfg.flagServer.Preserves (fun c act => (flagScope c act && cfg.careful a c act) = true)
      (Current a b) where
  start c p h hg hp := by
    simp only [flagScope, Bool.and_eq_true] at hg
    obtain ⟨todo, next⟩ := p
    simp only [flagServer, Server.recording, server, Bool.and_eq_true, List.isEmpty_iff] at hp
    obtain rfl : todo = [] := hp.1
    cases next with
    | none => cases hp.2
    | some handler =>
        have hopen : handler.opens = true := hp.2
        have hconcerns : handler.concernsFlags = true := hg.1
        have hidle : ∀ role, Call.confirms a role ⟨[], some handler⟩ = false := fun role => by
          cases handler with
          | updateVerification => cases hopen
          | accept | reject | relayKey | setPublicKey | afterPublicKey | confirm
          | emitConfirmation | mismatch | sendMessage | resume | listSessions | setMessageTtl
          | burn | burnAll => rfl
        have hverifies : handler.verifies = true := by
          cases handler <;> first | exact hconcerns | rfl
        refine ⟨h.between, forall_start h.tame ⟨(fun _ hc => by cases hc), fun x hx => ?_⟩,
          fun role => ?_⟩
        · obtain rfl := Option.some.inj hx
          exact hverifies
        · simpa [hidle] using h.reported role
  turn c i p s' p' h hg hi hs := by
    obtain ⟨-, hcare⟩ := Bool.and_eq_true_iff.mp hg
    obtain ⟨hstep, hlog⟩ := Server.recording_step hs
    obtain ⟨s₁, l₁⟩ := s'
    obtain rfl := hlog
    obtain ⟨todo, next⟩ := p
    cases todo with
    | cons cmd todo =>
        obtain ⟨rfl, rfl⟩ := Prod.mk.inj (Option.some.inj hstep)
        exact cfg.command_current h hi hcare
    | nil =>
        cases next with
        | none => cases hstep
        | some handler =>
            obtain ⟨rfl, rfl⟩ := Prod.mk.inj (Option.some.inj hstep)
            exact cfg.read_current hta htb h hi hcare
  env c e s' h hg hs := by
    obtain ⟨henv, hlog⟩ := Server.recording_env hs
    obtain ⟨s₁, l₁⟩ := s'
    obtain rfl := hlog
    cases e with
    | tick ms =>
        obtain rfl := Option.some.inj henv
        exact ⟨h.between, h.tame, h.reported⟩
    | lapse => simp [flagScope] at hg

/-- In every run whose steps are careful, the flags are what the participants
last reported, whenever no request is being processed. -/
theorem flags_current (cfg : Config) (hta : isBlank a = false) (htb : isBlank b = false)
    (s : Store) (hs : s.Between a b)
    (hrun : cfg.flagServer.Run (fun c act => (flagScope c act && cfg.careful a c act) = true)
      ⟨(s, s.flag), []⟩ c)
    (hidle : c.pool.all Call.isFinished = true) (role : Role) :
    c.store.1.flag role = c.store.2 role := by
  have hstart : Current a b ⟨(s, s.flag), []⟩ :=
    ⟨hs, (fun _ hp => by cases hp), fun role => by simp⟩
  have hreported := (hrun.invariant (cfg.current_preserved hta htb) hstart).reported role
  have hnone : c.pool.countP (Call.confirms a role) = 0 := by
    refine List.countP_eq_zero.mpr fun p hp => ?_
    have hfin := List.all_eq_true.mp hidle p hp
    simp only [Call.isFinished, Bool.and_eq_true, List.isEmpty_iff, Option.isNone_iff_eq_none]
      at hfin
    simp [Call.confirms, hfin.1, hfin.2]
  rw [hnone] at hreported
  rw [Bool.eq_iff_iff]
  simpa using hreported.symm

/-! ### A message that takes a confirmation back -/

/-- `bob`'s message reads the session; `ann` confirms; `bob`'s `save` writes the
flags as they were. -/
def staleSave : List (Action Call Move) :=
  List.flatten
    [[.start (.arriving (.sendMessage "bob" none)), .start (.arriving (.confirm "ann")), .turn 0],
      List.replicate 8 (.turn 1), List.replicate 5 (.turn 0)]

theorem sampleStore_between : sampleStore.Between "ann" "bob" := ⟨_, rfl, rfl, rfl⟩

theorem confirmation_lost : ¬ ∀ (cfg : Config) (a b : String) (s : Store)
    (c : Conf (Store × Reports) Call), isBlank a = false → isBlank b = false → s.Between a b →
    cfg.flagServer.Run (fun c act => flagScope c act = true) ⟨(s, s.flag), []⟩ c →
    c.pool.all Call.isFinished = true → ∀ role, c.store.1.flag role = c.store.2 role := by
  intro h
  have hrun : (sampleConfig.flagServer.execWhile flagScope ⟨(sampleStore, sampleStore.flag), []⟩
      staleSave).map (fun c => (c.pool.all Call.isFinished, c.store.1.flag .initiator,
        c.store.2 .initiator)) = some (true, false, true) := by decide +kernel
  obtain ⟨c, hc, heq⟩ := Option.map_eq_some_iff.mp hrun
  simp only [Prod.mk.injEq] at heq
  obtain ⟨hidle, hflag, hlog⟩ := heq
  have hsame := h sampleConfig "ann" "bob" sampleStore c (by decide +kernel) (by decide +kernel)
    sampleStore_between (Server.run_of_execWhile (fun _ _ h => h) hc) hidle .initiator
  rw [hflag, hlog] at hsame
  cases hsame

/-- `ann` submits a key, `bob` another, and both are relayed; then a message is
sent and `ann` confirms. -/
def carefulRun : List (Action Call Move) :=
  List.flatten
    [[.start (.arriving (.relayKey "ann" "ka"))], List.replicate 6 (.turn 0),
      [.start (.arriving (.relayKey "bob" "kb"))], List.replicate 12 (.turn 1),
      [.start (.arriving (.sendMessage "bob" none))], List.replicate 6 (.turn 2),
      [.start (.arriving (.confirm "ann"))], List.replicate 8 (.turn 3)]

theorem flags_current_careful :
    ∃ c, sampleConfig.flagServer.execWhile
        (fun c act => flagScope c act && sampleConfig.careful "ann" c act)
        ⟨(sampleStore, sampleStore.flag), []⟩ carefulRun = some c
      ∧ c.store.2 .initiator = true ∧ c.store.1.flag .initiator = c.store.2 .initiator := by
  have hrun : (sampleConfig.flagServer.execWhile
      (fun c act => flagScope c act && sampleConfig.careful "ann" c act)
      ⟨(sampleStore, sampleStore.flag), []⟩ carefulRun).map
      (fun c => (c.pool.all Call.isFinished, c.store.2 .initiator)) = some (true, true) := by
    decide +kernel
  obtain ⟨c, hc, heq⟩ := Option.map_eq_some_iff.mp hrun
  obtain ⟨hidle, hlog⟩ := Prod.mk.inj heq
  refine ⟨c, hc, hlog, ?_⟩
  exact flags_current sampleConfig (by decide +kernel) (by decide +kernel) sampleStore
    sampleStore_between (Server.run_of_execWhile (fun _ _ h => h) hc) hidle .initiator

end Sessions

end BurnedChats

import BurnedChats.Backend.Flags

/-!
# What the two clients show of a verification

A confirmation writes its flag, reads the session again and sends two events.
The peer is told what that read says of both flags. The confirming side is told
`peerVerified` from the *first* read of the request, and `bothVerified` along
with it. A client takes over every field an event carries.

So there are two ways to leave a client waiting. The peer's flag may be written
between the two reads of a confirmation: the event to the confirming side then
says `false`, and nothing else may follow. Or an older event arrives after a
newer one and takes `bothVerified` back. Where neither happens, both clients
end up showing the session as verified by both (`verified_on_both_sides`).
-/

namespace BurnedChats

open Interleave

namespace Sessions

/-! ## Clients -/

/-- `VerificationStatus`. -/
structure VerificationStatus where
  selfVerified : Bool
  peerVerified : Bool
  bothVerified : Bool
  mismatchReported : Bool
deriving DecidableEq

def createInitialStatus : VerificationStatus := ⟨false, false, false, false⟩

/-- `handleVerificationEvent`; events of other queues do not reach it. -/
def handleVerificationEvent (event : Event) (status : VerificationStatus) : VerificationStatus :=
  match event with
  | .mismatch => ⟨false, false, false, true⟩
  | .verification verified peerVerified bothVerified =>
      { status with
        selfVerified := verified.getD status.selfVerified
        peerVerified := peerVerified.getD status.peerVerified
        bothVerified := bothVerified.getD status.bothVerified }
  | _ => status

def isFullyVerified (status : VerificationStatus) : Bool := status.bothVerified

/-- The clients, by the internal identifiers of their users. -/
abbrev Clients := String → VerificationStatus

/-- A client confirms (its own status at once, the request comes on its own
way), an event is delivered, or the server's surroundings move. -/
inductive ClientMove where
  | confirmVerification (user : String)
  | deliver (j : Nat)
  | server (move : Move)

def Config.verificationServer (cfg : Config) :
    Server ((Store × Reports) × Clients) Call ClientMove where
  opens := cfg.flagServer.opens
  step p s := (cfg.flagServer.step p s.1).map fun r => ((r.1, s.2), r.2)
  env move s :=
    match move with
    | .confirmVerification user =>
        some (s.1, Function.update s.2 user { s.2 user with selfVerified := true })
    | .deliver j =>
        match s.1.1.outbox[j]? with
        | none => none
        | some (user, event) =>
            let rest := { s.1.1 with outbox := s.1.1.outbox.eraseIdx j }
            some ((rest, s.1.2),
              Function.update s.2 user (handleVerificationEvent event (s.2 user)))
    | .server move => (cfg.flagServer.env move s.1).map fun s' => (s', s.2)

/-- Confirmations only; the session does not run out of its time to live. -/
def confirmScope (_ : Conf ((Store × Reports) × Clients) Call) : Action Call ClientMove → Bool
  | .start p => p.next.any fun handler => match handler with | .confirm _ => true | _ => false
  | .env (.server .lapse) => false
  | _ => true

/-- The request is a confirmation that has yet to read the session again. -/
def Call.emits (p : Call) : Bool :=
  match p.next with
  | some (.emitConfirmation _ _) => true
  | _ => false

/-- What a confirmation read first of the peer is still so when it reads again,
or some other confirmation reads later. -/
def Config.freshRead (cfg : Config) (c : Conf ((Store × Reports) × Clients) Call) :
    Action Call ClientMove → Bool
  | .turn i =>
      match c.pool[i]? with
      | some ⟨[], some (.emitConfirmation user before)⟩ =>
          match cfg.findById c.store.1.1 with
          | none => true
          | some session =>
              (before == if session.isInitiator user then session.responderVerified
                else session.initiatorVerified)
              || (c.pool.eraseIdx i).any Call.emits
      | _ => true
  | _ => true

/-- No event takes `bothVerified` back. -/
def inOrder (c : Conf ((Store × Reports) × Clients) Call) : Action Call ClientMove → Bool
  | .env (.deliver j) =>
      match c.store.1.1.outbox[j]? with
      | some (user, .verification _ _ (some false)) => !isFullyVerified (c.store.2 user)
      | _ => true
  | _ => true

/-! ## Confirmations -/

/-- Verification events without a report of a mismatch. -/
def Event.confirming : Event → Bool
  | .verification _ _ _ => true
  | .error _ => true
  | _ => false

def Command.confirming : Command → Bool
  | .setVerified _ _ => true
  | .setLastActivity _ => true
  | .expire => true
  | .send _ event => event.confirming
  | _ => false

def Command.isSetVerified : Command → Bool
  | .setVerified _ _ => true
  | _ => false

/-- The reads of a confirmation, after the first one by a participant. -/
def Handler.confirming (a b : String) : Handler → Bool
  | .confirm _ => true
  | .updateVerification user _ => user == a || user == b
  | .emitConfirmation user _ => user == a || user == b
  | _ => false

/-- A request that is a confirmation. -/
structure Call.Confirming (a b : String) (p : Call) : Prop where
  commands : ∀ cmd ∈ p.todo, cmd.confirming = true
  reads : ∀ handler ∈ p.next, handler.confirming a b = true
  later : p.todo.any Command.isSetVerified = true → p.emits = true

def Command.announces (user : String) : Command → Bool
  | .send recipient (.verification _ _ (some true)) => recipient == user
  | _ => false

/-- The request will still tell `user`, or has yet to read what to tell. -/
def Call.tells (user : String) (p : Call) : Bool :=
  p.emits || p.todo.any (Command.announces user)

theorem Call.tells_iff {user : String} {p : Call} :
    p.tells user = true ↔ p.emits = true ∨ p.todo.any (Command.announces user) = true := by
  rw [Call.tells, Bool.or_eq_true]

theorem Command.announces_send {user recipient : String} {event : Event}
    (h : Command.announces user (.send recipient event) = true) :
    ∃ verified peerVerified, recipient = user
      ∧ event = .verification verified peerVerified (some true) := by
  cases event with
  | verification verified peerVerified bothVerified =>
      cases bothVerified with
      | none => cases h
      | some both =>
          cases both with
          | false => cases h
          | true => exact ⟨verified, peerVerified, beq_iff_eq.mp h, rfl⟩
  | peerPublicKey | keyRefresh | mismatch | error | notice => cases h

variable {a b : String}

theorem mem_eraseIdx_of_ne {α : Type} {l : List α} {j : Nat} {x y : α} (hj : l[j]? = some x)
    (hy : y ∈ l) (hne : y ≠ x) : y ∈ l.eraseIdx j := by
  obtain ⟨k, hk⟩ := List.getElem?_of_mem hy
  refine List.mem_eraseIdx_iff_getElem?.mpr ⟨k, fun heq => hne ?_, hk⟩
  subst heq
  exact Option.some.inj (hk.symm.trans hj)

theorem Config.verified_of_findById (cfg : Config) {s : Store} {session : Session}
    (h : cfg.findById s = some session) (role : Role) : session.verified role = s.flag role := by
  obtain ⟨hash, hs, rfl⟩ := Option.map_eq_some_iff.mp h
  cases role <;> simp [Session.verified, Store.flag, hs, mapToSession]

theorem sendTo_confirming {recipient : Option String} {event : Event}
    (h : event.confirming = true) : ∀ cmd ∈ sendTo recipient event, cmd.confirming = true := by
  intro cmd hcmd
  unfold sendTo at hcmd
  split at hcmd
  · obtain rfl := List.mem_singleton.mp hcmd
    exact h
  · cases hcmd

theorem fail_confirming (a b user code : String) :
    Call.Confirming a b ⟨(fail user code).1, (fail user code).2⟩ :=
  ⟨by simp [fail, Command.confirming, Event.confirming], by simp [fail],
    by simp [fail, Command.isSetVerified]⟩

/-- A confirmation stays one, read by read. -/
theorem Config.found_confirming {session : Session} (cfg : Config) (now : Nat)
    (ha : session.initiatorInternalId = some a) (hb : session.responderInternalId = some b)
    {handler : Handler} (hh : handler.confirming a b = true) :
    Call.Confirming a b ⟨(cfg.found now handler (some session)).1,
      (cfg.found now handler (some session)).2⟩ := by
  cases handler with
  | confirm user =>
      simp only [found]
      split
      · exact fail_confirming ..
      · rename_i hpart
        split
        · exact fail_confirming ..
        · refine ⟨by simp, fun next hnext => ?_, by simp⟩
          obtain rfl := Option.some.inj hnext
          simp only [Session.isParticipant, Session.isInitiator, Session.isResponder, ha, hb,
            Bool.not_eq_true', Bool.not_eq_false, Bool.or_eq_true, beq_iff_eq,
            Option.some.injEq] at hpart
          rcases hpart with rfl | rfl <;> simp [Handler.confirming]
  | updateVerification user before =>
      refine ⟨by simp [found, Command.confirming], fun next hnext => ?_, fun _ => rfl⟩
      obtain rfl := Option.some.inj hnext
      exact hh
  | emitConfirmation user before =>
      refine ⟨fun cmd hcmd => ?_, (fun _ h => by cases h), ?_⟩
      · rcases List.mem_cons.mp hcmd with rfl | hcmd
        · rfl
        · exact sendTo_confirming rfl cmd hcmd
      · simp only [found, List.any_cons, Command.isSetVerified, Bool.false_or, sendTo]
        split <;> simp [Command.isSetVerified]
  | accept | reject | relayKey | setPublicKey | afterPublicKey | mismatch | sendMessage | resume
  | listSessions | setMessageTtl | burn | burnAll => cases hh

/-- The second read of a confirmation with both flags set tells the peer; it
tells the confirming side too, unless its first read is out of date. -/
theorem Config.emitConfirmation_tells {s : Store} {session : Session} (cfg : Config) (now : Nat)
    (hta : isBlank a = false) (htb : isBlank b = false)
    (hfound : cfg.findById s = some session)
    (ha : session.initiatorInternalId = some a) (hb : session.responderInternalId = some b)
    {user : String} {before : Bool} (huser : user = a ∨ user = b)
    (hboth : ∀ role, s.flag role = true)
    (hfresh : before = if session.isInitiator user then session.responderVerified
      else session.initiatorVerified) {other : String} (hother : other = a ∨ other = b) :
    (cfg.found now (.emitConfirmation user before) (some session)).1.any
      (Command.announces other) = true := by
  have hi : session.initiatorVerified = true :=
    (cfg.verified_of_findById hfound .initiator).trans (hboth .initiator)
  have hr : session.responderVerified = true :=
    (cfg.verified_of_findById hfound .responder).trans (hboth .responder)
  obtain rfl : before = true := by
    rw [hfresh, hi, hr, ite_self]
  simp only [found, hi, hr, Bool.and_self, List.any_cons, Bool.or_eq_true]
  by_cases hsame : user = other
  · exact .inl (by simp [Command.announces, hsame])
  · refine .inr ?_
    rcases huser with rfl | rfl
    · obtain rfl : other = b := hother.resolve_left (Ne.symm hsame)
      simp [Session.getPeerInternalId, Session.isInitiator, ha, hb, sendTo, hasText, htb,
        Command.announces]
    · obtain rfl : other = a := hother.resolve_right (Ne.symm hsame)
      simp [Session.getPeerInternalId, Session.isInitiator, Session.isResponder, ha, hb, sendTo,
        hasText, hta, Command.announces, Ne.symm hsame]

/-! ## Both sides are told -/

/-- `user` shows the session as verified by both, or an event that says so is on
its way, or some request still tells. -/
def Told (user : String) (c : Conf ((Store × Reports) × Clients) Call) : Prop :=
  (c.store.2 user).bothVerified = true
    ∨ (∃ verified peerVerified,
      (user, Event.verification verified peerVerified (some true)) ∈ c.store.1.1.outbox)
    ∨ ∃ p ∈ c.pool, p.tells user = true

structure Announced (a b : String) (c : Conf ((Store × Reports) × Clients) Call) : Prop where
  current : Current a b ⟨c.store.1, c.pool⟩
  confirming : ∀ p ∈ c.pool, p.Confirming a b
  events : ∀ e ∈ c.store.1.1.outbox, e.2.confirming = true
  told : (∀ role, c.store.1.1.flag role = true) → ∀ user, user = a ∨ user = b → Told user c

variable {c : Conf ((Store × Reports) × Clients) Call}

/-- Confirmations alone are careful. -/
theorem Announced.careful (h : Announced a b c) (cfg : Config) (i : Nat) :
    cfg.careful a ⟨c.store.1, c.pool⟩ (.turn i) = true := by
  simp only [Config.careful]
  cases hi : c.pool[i]? with
  | none => rfl
  | some p =>
      have hp := h.confirming p (List.mem_of_getElem? hi)
      obtain ⟨todo, next⟩ := p
      cases todo with
      | cons cmd todo =>
          have hcmd := hp.commands cmd (List.mem_cons_self ..)
          cases cmd with
          | save | setStatus | setPublicKey | setHandshakeCompleted | setMessageTtl
          | clearPublicKeys | delete | elsewhere => cases hcmd
          | setVerified | setLastActivity | expire => rfl
          | send recipient event =>
              cases event with
              | peerPublicKey | keyRefresh | mismatch | notice => cases hcmd
              | verification | error => rfl
      | nil =>
          cases next with
          | none => rfl
          | some handler =>
              have hread := hp.reads handler rfl
              cases handler with
              | confirm | updateVerification | emitConfirmation => rfl
              | accept | reject | relayKey | setPublicKey | afterPublicKey | mismatch
              | sendMessage | resume | listSessions | setMessageTtl | burn | burnAll => cases hread

/-- A request that tells still does after a step of another one; the one that
steps is looked at by the caller. -/
theorem Told.turn {user : String} {i : Nat} {p p' : Call} {s' : Store} {l' : Reports}
    (h : Told user c) (hi : c.pool[i]? = some p)
    (hout : ∀ e ∈ c.store.1.1.outbox, e ∈ s'.outbox)
    (htells : p.tells user = true → p'.tells user = true
      ∨ ∃ verified peerVerified,
        (user, Event.verification verified peerVerified (some true)) ∈ s'.outbox) :
    Told user ⟨((s', l'), c.store.2), c.pool.set i p'⟩ := by
  rcases h with h | ⟨v, q, h⟩ | h
  · exact .inl h
  · exact .inr (.inl ⟨v, q, hout _ h⟩)
  · by_cases hnew : p.tells user = true → p'.tells user = true
    · exact .inr (.inr (exists_turn hi hnew h))
    · obtain ⟨hp, hp'⟩ := Classical.not_imp.mp hnew
      exact .inr (.inl ((htells hp).resolve_left hp'))

/-- The command of a confirmation. -/
theorem Announced.command {i : Nat} {cmd : Command} {todo : List Command}
    {next : Option Handler} {l' : Reports} (h : Announced a b c)
    (hi : c.pool[i]? = some ⟨cmd :: todo, next⟩)
    (hcurrent : Current a b ⟨(c.store.1.1.exec cmd, l'), c.pool.set i ⟨todo, next⟩⟩) :
    Announced a b ⟨((c.store.1.1.exec cmd, l'), c.store.2), c.pool.set i ⟨todo, next⟩⟩ := by
  have hp := h.confirming _ (List.mem_of_getElem? hi)
  have hcmd := hp.commands cmd (List.mem_cons_self ..)
  have hrest : Call.Confirming a b ⟨todo, next⟩ := by
    refine ⟨fun x hx => hp.commands x (List.mem_cons_of_mem _ hx), hp.reads, fun hset => ?_⟩
    exact hp.later (by simp [List.any_cons, hset])
  have hconfirming := forall_turn (i := i) h.confirming hrest
  have hflag := c.store.1.1.exec_flag cmd
  cases cmd with
  | save | setStatus | setPublicKey | setHandshakeCompleted | setMessageTtl | clearPublicKeys
  | delete | elsewhere => cases hcmd
  | setVerified role v =>
      -- whoever writes a flag still has its second read to come
      refine ⟨hcurrent, hconfirming, ?_, fun _ user _ => .inr (.inr ⟨⟨todo, next⟩, ?_, ?_⟩)⟩
      · cases role <;> exact h.events
      · exact List.mem_set (List.getElem?_eq_some_iff.mp hi).1 _
      · have hemits : Call.emits ⟨todo, next⟩ = true := hp.later rfl
        exact Call.tells_iff.mpr (.inl hemits)
  | setLastActivity | expire =>
      refine ⟨hcurrent, hconfirming, h.events, fun hboth user huser => ?_⟩
      simp only [hflag] at hboth
      refine (h.told hboth user huser).turn hi (fun _ he => he) fun ht => .inl ?_
      simpa [Call.tells, Call.emits, Command.announces] using ht
  | send recipient event =>
      refine ⟨hcurrent, hconfirming, ?_, fun hboth user huser => ?_⟩
      · intro e he
        rcases List.mem_append.mp he with he | he
        · exact h.events e he
        · obtain rfl := List.mem_singleton.mp he
          exact hcmd
      · simp only [hflag] at hboth
        refine (h.told hboth user huser).turn hi (fun _ he => List.mem_append_left _ he)
          fun ht => ?_
        rw [Call.tells_iff, List.any_cons, Bool.or_eq_true] at ht
        rcases ht with ht | ht | ht
        · exact .inl (Call.tells_iff.mpr (.inl ht))
        · obtain ⟨v, q, rfl, rfl⟩ := Command.announces_send ht
          exact .inr ⟨v, q, List.mem_append_right _ (List.mem_singleton_self _)⟩
        · exact .inl (Call.tells_iff.mpr (.inr ht))

/-- A read by a confirmation. -/
theorem Config.announced_read (cfg : Config) (hta : isBlank a = false) (htb : isBlank b = false)
    {i : Nat} {handler : Handler} {l' : Reports} (h : Announced a b c)
    (hi : c.pool[i]? = some ⟨[], some handler⟩) (hg : cfg.freshRead c (.turn i) = true) :
    let r := cfg.found c.store.1.1.now handler (cfg.findById c.store.1.1)
    Current a b ⟨(c.store.1.1, l'), c.pool.set i ⟨r.1, r.2⟩⟩ →
      Announced a b ⟨((c.store.1.1, l'), c.store.2), c.pool.set i ⟨r.1, r.2⟩⟩ := by
  intro r hcurrent
  have hh := (h.confirming _ (List.mem_of_getElem? hi)).reads handler rfl
  obtain ⟨session, hfound, ha, hb⟩ := h.current.between.found cfg hta htb
  have hr : r = cfg.found c.store.1.1.now handler (some session) := by rw [← hfound]
  have hconfirming : Call.Confirming a b ⟨r.1, r.2⟩ := by
    rw [hr]
    exact cfg.found_confirming _ ha hb hh
  refine ⟨hcurrent, forall_turn h.confirming hconfirming, h.events, fun hboth user huser => ?_⟩
  by_cases hemits : Call.emits ⟨[], some handler⟩ = true
  · cases handler with
    | emitConfirmation sender before =>
        have hsender : sender = a ∨ sender = b := by simpa [Handler.confirming] using hh
        simp only [freshRead, hi, hfound, Bool.or_eq_true, beq_iff_eq, List.any_eq_true] at hg
        rcases hg with hfresh | ⟨q, hq, hlater⟩
        · refine (h.told hboth user huser).turn hi (fun _ he => he) fun _ => .inl ?_
          rw [Call.tells_iff, hr]
          exact .inr (cfg.emitConfirmation_tells c.store.1.1.now hta htb hfound ha hb hsender
            hboth hfresh huser)
        · obtain ⟨j, hj, hqj⟩ := List.mem_eraseIdx_iff_getElem?.mp hq
          refine .inr (.inr ⟨q, ?_, Call.tells_iff.mpr (.inl hlater)⟩)
          refine List.mem_of_getElem? (i := j) ?_
          rw [List.getElem?_set_ne (Ne.symm hj)]
          exact hqj
    | accept | reject | relayKey | setPublicKey | afterPublicKey | confirm | updateVerification
    | mismatch | sendMessage | resume | listSessions | setMessageTtl | burn | burnAll => cases hemits
  · refine (h.told hboth user huser).turn hi (fun _ he => he) fun ht => absurd ?_ hemits
    simpa [Call.tells] using ht

/-- An event that neither reports a mismatch nor denies it leaves a client verified. -/
theorem handleVerificationEvent_bothVerified {event : Event} {status : VerificationStatus}
    (h : status.bothVerified = true) (hevent : event.confirming = true)
    (hg : ∀ v q, event ≠ .verification v q (some false)) :
    (handleVerificationEvent event status).bothVerified = true := by
  cases event with
  | verification v q both =>
      rcases both with - | - | -
      · exact h
      · exact absurd rfl (hg v q)
      · rfl
  | error => exact h
  | peerPublicKey | keyRefresh | mismatch | notice => cases hevent

theorem inOrder_deliver {j : Nat} {user : String} {event : Event}
    (hj : c.store.1.1.outbox[j]? = some (user, event))
    (hg : inOrder c (.env (.deliver j)) = true) (h : (c.store.2 user).bothVerified = true)
    (v q : Option Bool) : event ≠ .verification v q (some false) := by
  rintro rfl
  simp [inOrder, hj, isFullyVerified, h] at hg

/-- The delivery of an event. -/
theorem Announced.deliver {j : Nat} {user : String} {event : Event} (h : Announced a b c)
    (hj : c.store.1.1.outbox[j]? = some (user, event))
    (hg : inOrder c (.env (.deliver j)) = true) :
    Announced a b ⟨(({ c.store.1.1 with outbox := c.store.1.1.outbox.eraseIdx j }, c.store.1.2),
      Function.update c.store.2 user (handleVerificationEvent event (c.store.2 user))),
      c.pool⟩ where
  current := ⟨h.current.between, h.current.tame, h.current.reported⟩
  confirming := h.confirming
  events e he := h.events e (List.mem_of_mem_eraseIdx he)
  told hboth other hother := by
    -- unless the event delivered says so itself, who was told stays told
    by_cases hsays : ∃ v q, other = user ∧ event = .verification v q (some true)
    · obtain ⟨v, q, rfl, rfl⟩ := hsays
      exact .inl (by simp [handleVerificationEvent])
    · rcases h.told hboth other hother with ht | ⟨v, q, ht⟩ | ht
      · refine .inl ?_
        dsimp only
        by_cases hsame : other = user
        · subst hsame
          rw [Function.update_self]
          exact handleVerificationEvent_bothVerified ht
            (h.events _ (List.mem_of_getElem? hj)) (inOrder_deliver hj hg ht)
        · rw [Function.update_of_ne hsame]
          exact ht
      · refine .inr (.inl ⟨v, q, mem_eraseIdx_of_ne hj ht fun heq => hsays ⟨v, q, ?_⟩⟩)
        exact ⟨congrArg Prod.fst heq, (congrArg Prod.snd heq).symm⟩
      · exact .inr (.inr ht)

/-- Confirmations in the scope of the claim, whose reads are fresh and whose
events come in order. -/
def Config.orderly (cfg : Config) (c : Conf ((Store × Reports) × Clients) Call)
    (act : Action Call ClientMove) : Bool :=
  confirmScope c act && cfg.freshRead c act && inOrder c act

theorem Config.announced_preserved (cfg : Config) (hta : isBlank a = false)
    (htb : isBlank b = false) :
    cfg.verificationServer.Preserves (fun c act => cfg.orderly c act = true)
      (Announced a b) where
  start c p h hg hp := by
    simp only [orderly, confirmScope, Bool.and_eq_true] at hg
    obtain ⟨⟨hscope, -⟩, -⟩ := hg
    obtain ⟨todo, next⟩ := p
    cases next with
    | none => cases hscope
    | some handler =>
        cases handler with
        | confirm user =>
            have hcurrent := (cfg.current_preserved hta htb).start ⟨c.store.1, c.pool⟩ _
              h.current rfl hp
            obtain rfl : todo = [] := by
              have htodo := (Bool.and_eq_true_iff.mp hp).1
              simpa using htodo
            refine ⟨hcurrent, forall_start h.confirming ?_, h.events,
              fun hboth other hother => ?_⟩
            · exact ⟨by simp, by simp [Handler.confirming], by simp⟩
            · rcases h.told hboth other hother with ht | ht | ⟨q, hq, ht⟩
              · exact .inl ht
              · exact .inr (.inl ht)
              · exact .inr (.inr ⟨q, List.mem_append_left _ hq, ht⟩)
        | accept | reject | relayKey | setPublicKey | afterPublicKey | updateVerification
        | emitConfirmation | mismatch | sendMessage | resume | listSessions | setMessageTtl | burn
        | burnAll => cases hscope
  turn c i p s' p' h hg hi hs := by
    simp only [orderly, Bool.and_eq_true] at hg
    obtain ⟨⟨⟨s₁, l₁⟩, p₁⟩, hstep, heq⟩ := Option.map_eq_some_iff.mp hs
    obtain ⟨rfl, rfl⟩ := Prod.mk.inj heq
    have hcurrent := (cfg.current_preserved hta htb).turn ⟨c.store.1, c.pool⟩ i p _ _ h.current
      (h.careful cfg i) hi hstep
    have hplain := (Server.recording_step hstep).1
    obtain ⟨todo, next⟩ := p
    cases todo with
    | cons cmd todo =>
        obtain ⟨rfl, rfl⟩ := Prod.mk.inj (Option.some.inj hplain)
        exact h.command hi hcurrent
    | nil =>
        cases next with
        | none => cases hplain
        | some handler =>
            obtain ⟨rfl, rfl⟩ := Prod.mk.inj (Option.some.inj hplain)
            exact cfg.announced_read hta htb h hi hg.1.2 hcurrent
  env c e s' h hg hs := by
    simp only [orderly, Bool.and_eq_true] at hg
    cases e with
    | confirmVerification user =>
        obtain rfl := Option.some.inj hs
        refine ⟨h.current, h.confirming, h.events, fun hboth other hother => ?_⟩
        rcases h.told hboth other hother with ht | ht | ht
        · refine .inl ?_
          by_cases hsame : other = user
          · subst hsame
            simpa using ht
          · simpa [Function.update_of_ne hsame] using ht
        · exact .inr (.inl ht)
        · exact .inr (.inr ht)
    | deliver j =>
        simp only [verificationServer] at hs
        cases hj : c.store.1.1.outbox[j]? with
        | none => simp [hj] at hs
        | some e =>
            obtain ⟨user, event⟩ := e
            simp only [hj] at hs
            obtain rfl := Option.some.inj hs
            exact h.deliver hj hg.2
    | server move =>
        obtain ⟨⟨s₁, l₁⟩, hstep, rfl⟩ := Option.map_eq_some_iff.mp hs
        obtain ⟨henv, rfl⟩ := Server.recording_env hstep
        cases move with
        | tick ms =>
            obtain rfl := Option.some.inj henv
            refine ⟨⟨h.current.between, h.current.tame, h.current.reported⟩, h.confirming, h.events,
              h.told⟩
        | lapse => cases hg.1.1

/-- In every orderly run from a session nobody has confirmed: once both
confirmations have been processed and all events delivered, both clients show
the session as verified by both sides. -/
theorem verified_on_both_sides (cfg : Config) (hta : isBlank a = false)
    (htb : isBlank b = false) (s : Store) (hs : s.Between a b)
    (hfresh : ∀ role, s.flag role = false) (hempty : s.outbox = []) (clients : Clients)
    (hrun : cfg.verificationServer.Run (fun c act => cfg.orderly c act = true)
      ⟨((s, s.flag), clients), []⟩ c)
    (hidle : c.pool.all Call.isFinished = true) (hdelivered : c.store.1.1.outbox = [])
    (hboth : ∀ role, c.store.1.2 role = true) :
    isFullyVerified (c.store.2 a) = true ∧ isFullyVerified (c.store.2 b) = true := by
  have hstart : Announced a b ⟨((s, s.flag), clients), []⟩ := by
    refine ⟨⟨hs, (fun _ hp => by cases hp), fun role => by simp⟩, (fun _ hp => by cases hp), ?_,
      fun hset => ?_⟩
    · simp [hempty]
    · have := hset .initiator
      dsimp only at this
      rw [hfresh] at this
      cases this
  have h := hrun.invariant (cfg.announced_preserved hta htb) hstart
  have hfin : ∀ p ∈ c.pool, p.todo = [] ∧ p.next = none := fun p hp => by
    have := List.all_eq_true.mp hidle p hp
    simpa [Call.isFinished] using this
  have hflags : ∀ role, c.store.1.1.flag role = true := fun role => by
    have hcount : c.pool.countP (Call.confirms a role) = 0 :=
      List.countP_eq_zero.mpr fun p hp => by simp [Call.confirms, hfin p hp]
    have hreported := (h.current.reported role).mp (hboth role)
    dsimp only at hreported
    rw [hcount] at hreported
    exact hreported.resolve_right (Nat.lt_irrefl 0)
  have hshown : ∀ user, user = a ∨ user = b → isFullyVerified (c.store.2 user) = true := by
    intro user huser
    rcases h.told hflags user huser with ht | ⟨v, q, ht⟩ | ⟨p, hp, ht⟩
    · exact ht
    · rw [hdelivered] at ht
      cases ht
    · simp [Call.tells, Call.emits, hfin p hp] at ht
  exact ⟨hshown a (.inl rfl), hshown b (.inr rfl)⟩

/-! ### A confirmation that reads too early -/

/-- `bob`'s confirmation reads first; `ann`'s runs from beginning to end; `bob`'s
goes on. The events are delivered in the order they were sent. -/
def earlyRead : List (Action Call ClientMove) :=
  List.flatten
    [[.env (.confirmVerification "bob"), .start (.arriving (.confirm "bob")), .turn 0,
        .env (.confirmVerification "ann"), .start (.arriving (.confirm "ann"))],
      List.replicate 8 (.turn 1), List.replicate 7 (.turn 0),
      List.replicate 4 (.env (.deliver 0))]

theorem left_waiting : ¬ ∀ (cfg : Config) (a b : String) (s : Store) (clients : Clients)
    (c : Conf ((Store × Reports) × Clients) Call), isBlank a = false → isBlank b = false →
    s.Between a b → (∀ role, s.flag role = false) → s.outbox = [] →
    cfg.verificationServer.Run (fun c act => confirmScope c act = true)
      ⟨((s, s.flag), clients), []⟩ c →
    c.pool.all Call.isFinished = true → c.store.1.1.outbox = [] →
    (∀ role, c.store.1.2 role = true) →
    isFullyVerified (c.store.2 a) = true ∧ isFullyVerified (c.store.2 b) = true := by
  intro h
  have hrun : (sampleConfig.verificationServer.execWhile confirmScope
      ⟨((sampleStore, sampleStore.flag), fun _ => createInitialStatus), []⟩ earlyRead).map
      (fun c => (c.pool.all Call.isFinished, c.store.1.1.outbox.isEmpty, c.store.1.2 .initiator,
        c.store.1.2 .responder, isFullyVerified (c.store.2 "bob")))
      = some (true, true, true, true, false) := by decide +kernel
  obtain ⟨c, hc, heq⟩ := Option.map_eq_some_iff.mp hrun
  simp only [Prod.mk.injEq, List.isEmpty_iff] at heq
  obtain ⟨hidle, hdelivered, hi, hr, hbob⟩ := heq
  have hboth : ∀ role, c.store.1.2 role = true := fun role => by
    cases role with
    | initiator => exact hi
    | responder => exact hr
  have hshown := h sampleConfig "ann" "bob" sampleStore (fun _ => createInitialStatus) c
    (by decide +kernel) (by decide +kernel) sampleStore_between (fun role => by cases role <;> rfl)
    rfl (Server.run_of_execWhile (fun _ _ h => h) hc) hidle hdelivered hboth
  rw [hbob] at hshown
  cases hshown.2

/-- The two confirmations overlap, but `bob`'s reads after `ann`'s flag is written. -/
def orderlyRun : List (Action Call ClientMove) :=
  List.flatten
    [[.env (.confirmVerification "ann"), .start (.arriving (.confirm "ann")), .turn 0, .turn 0,
        .turn 0, .env (.confirmVerification "bob"), .start (.arriving (.confirm "bob")), .turn 1],
      List.replicate 5 (.turn 0), List.replicate 7 (.turn 1),
      List.replicate 4 (.env (.deliver 0))]

theorem verified_on_both_sides_orderly :
    ∃ c, sampleConfig.verificationServer.execWhile sampleConfig.orderly
        ⟨((sampleStore, sampleStore.flag), fun _ => createInitialStatus), []⟩ orderlyRun = some c
      ∧ isFullyVerified (c.store.2 "ann") = true ∧ isFullyVerified (c.store.2 "bob") = true := by
  have hrun : (sampleConfig.verificationServer.execWhile sampleConfig.orderly
      ⟨((sampleStore, sampleStore.flag), fun _ => createInitialStatus), []⟩ orderlyRun).map
      (fun c => (c.pool.all Call.isFinished, c.store.1.1.outbox.isEmpty, c.store.1.2 .initiator,
        c.store.1.2 .responder)) = some (true, true, true, true) := by decide +kernel
  obtain ⟨c, hc, heq⟩ := Option.map_eq_some_iff.mp hrun
  simp only [Prod.mk.injEq, List.isEmpty_iff] at heq
  obtain ⟨hidle, hdelivered, hi, hr⟩ := heq
  have hboth : ∀ role, c.store.1.2 role = true := fun role => by
    cases role with
    | initiator => exact hi
    | responder => exact hr
  refine ⟨c, hc, ?_⟩
  exact verified_on_both_sides sampleConfig (by decide +kernel) (by decide +kernel) sampleStore
    sampleStore_between (fun role => by cases role <;> rfl) rfl (fun _ => createInitialStatus)
    (Server.run_of_execWhile (fun _ _ h => h) hc) hidle hdelivered hboth

end Sessions

end BurnedChats

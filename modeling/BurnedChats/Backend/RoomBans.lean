import BurnedChats.Backend.RoomFootprint

/-!
# Bans against joins

`banMember` takes the member out first and records the ban last; a join looks at
the bans first and adds the member last. A join that begins after the removal
and ends before the record leaves a user both banned and a member.

`ban_effective` says when a ban holds from its record on: every join that adds a
member finds no ban of that user, every record of a ban finds that its user is
no member, and no unban that was already under way takes the record back.
-/

namespace BurnedChats

open Interleave

namespace RoomBans

open Rooms Store Program

inductive Op where
  | requestJoin (a : JoinAttempt)
  | acceptJoin (owner roomId sender : String)
  | banMember (owner roomId target : String)
  | unbanMember (owner roomId target : String)

/-- A join returns its result. -/
def Op.program : Op → Program Store Command (Option JoinResult)
  | .requestJoin a => do
      let result ← RoomJoinService.requestJoin a
      pure (some result)
  | .acceptJoin owner roomId sender => do
      RoomJoinService.acceptJoin owner roomId sender
      pure (some (.approved roomId owner))
  | .banMember owner roomId target => do
      RoomHandler.banMember owner roomId target
      pure none
  | .unbanMember owner roomId target => do
      RoomHandler.unbanMember owner roomId target
      pure none

abbrev OpCall := Call Op Store Command (Option JoinResult)

def server : Server Store OpCall Empty := Call.server Store.exec Op.program fun e _ => nomatch e

/-- The user who joins. -/
def Op.joiner : Op → Option String
  | .requestJoin a => some a.senderInternalId
  | .acceptJoin _ _ sender => some sender
  | _ => none

def isJoin (p : OpCall) : Bool := p.op.joiner.isSome

/-- The join has ended with the user admitted to the room, or with a pending
request. -/
def succeeded (roomId : String) : OpCall → Bool
  | .running _ (.done (some result)) => result.roomId == roomId
  | _ => false

/-- A new member is not banned when it is added, and who is banned is no member
when the ban is recorded. -/
def checksHold (_ : Op) (command : Command) (s : Store) : Bool :=
  match command with
  | .sadd r .members u => !s.sismember r .bans u
  | .sadd r .bans u => !s.sismember r .members u
  | _ => true

/-- An unban of the user in the room that takes effect. -/
def unbans (roomId user : String) : Command → Bool
  | .srem r .bans u => r == roomId && u == user
  | _ => false

def noUnban (roomId user : String) (_ : Op) (command : Command) (_ : Store) : Bool :=
  !unbans roomId user command

/-! ## Joins that see the ban -/

def Banned (r u : String) (s : Store) : Prop := u ∈ s.smembers r .bans

section Joins

variable {r u : String} {φ : Command → Prop}

theorem ensureNotBanned_refuses {Q : Unit → Prop} {r' : String} (hQ : r' ≠ r → Q ()) :
    (RoomJoinService.ensureNotBanned r' u).Ensures (Banned r u) φ Q := by
  simp only [RoomJoinService.ensureNotBanned, RoomBansRepository.isBanned, ensures_bind,
    ensures_ask, ensures_demand]
  intro s hs hno
  refine hQ ?_
  rintro rfl
  simp only [sismember, Bool.not_eq_true', List.contains_eq_mem, decide_eq_false_iff_not] at hno
  exact hno hs

/-- The result of a join that is written names the room that it was asked for. -/
theorem joinByPassword_roomId {room : Room} {a : JoinAttempt} {I : Store → Prop} :
    (RoomJoinService.joinByPassword r room a).Ensures I (fun _ => True)
      fun result => result.roomId = r := by
  simp only [RoomJoinService.joinByPassword, ensures_bind]
  exact Ensures.of_all (ensures_true _) fun _ => Ensures.of_all (ensures_true _) fun _ =>
    Ensures.of_all (ensures_true _) fun _ => rfl

theorem joinByRequest_roomId {a : JoinAttempt} {I : Store → Prop} :
    (RoomJoinService.joinByRequest r a).Ensures I (fun _ => True)
      fun result => result.roomId = r := by
  simp only [RoomJoinService.joinByRequest, RoomJoinRequestRepository.exists',
    RoomJoinRequestRepository.save, clock, ensures_bind, ensures_ask, ensures_demand,
    ensures_write, true_and]
  exact fun _ _ _ _ _ _ _ _ _ => rfl

theorem continueJoin_refused {r' : String} {room : Room} {a : JoinAttempt}
    (hu : a.senderInternalId = u) :
    (RoomJoinService.continueJoinAfterPassword r' room a).Ensures (Banned r u) (fun _ => True)
      fun result => result.roomId ≠ r := by
  subst hu
  simp only [RoomJoinService.continueJoinAfterPassword, RoomMembersRepository.isMember,
    ensures_bind, ensures_ask, ensures_demand]
  intro s _ _
  refine ensureNotBanned_refuses fun hne => ?_
  have hrest : ∀ result : JoinResult, result.roomId = r' →
      (InviteTokenService.consumeInviteUse a.inviteToken).Ensures (Banned r a.senderInternalId)
        (fun _ => True) fun _ => result.roomId ≠ r :=
    fun result h => Ensures.of_all (ensures_true _) fun _ => h ▸ hne
  rw [ensures_ite, ensures_bind, ensures_bind]
  exact ⟨fun _ => joinByPassword_roomId.mono (fun _ h => h) (fun _ h => h) fun result h =>
      (ensures_bind ..).mpr (hrest result h),
    fun _ => joinByRequest_roomId.mono (fun _ h => h) (fun _ h => h) fun result h =>
      (ensures_bind ..).mpr (hrest result h)⟩

theorem requestJoin_refused {a : JoinAttempt} (hu : a.senderInternalId = u) :
    (RoomJoinService.requestJoin a).Ensures (Banned r u) (fun _ => True)
      fun result => result.roomId ≠ r := by
  simp only [RoomJoinService.requestJoin, RoomJoinService.validatePasswordAndJoin,
    InviteTokenRepository.findByToken, RoomRepository.findById, ensures_bind, ensures_ask,
    ensures_found, ensures_demand]
  intro s _ token _
  exact Ensures.of_all (ensures_true _) fun _ s _ room _ _ => continueJoin_refused hu

theorem acceptJoin_refused {owner : String} :
    (RoomJoinService.acceptJoin owner r u).Ensures (Banned r u) (fun _ => True)
      fun _ => False := by
  simp only [RoomJoinService.acceptJoin, RoomJoinService.loadRoomAsOwner,
    RoomRepository.findById, ensures_bind, ensures_ask, ensures_found, ensures_demand]
  intro s _ room _ _
  exact ensureNotBanned_refuses fun hne => absurd rfl hne

end Joins

/-- What the result of a join of the user may be while it is banned. -/
def Refused (r : String) (result : Option JoinResult) : Prop :=
  result.any (fun result => result.roomId == r) = false

/-- A join of the banned user into the room does not succeed. -/
theorem program_refused {r u : String} {op : Op} (hjoin : op.joiner = some u) :
    op.program.Ensures (Banned r u) (fun _ => True) (Refused r) := by
  cases op with
  | requestJoin a =>
      refine (ensures_bind ..).mpr ((requestJoin_refused (Option.some.inj hjoin)).mono
        (fun _ h => h) (fun _ h => h) fun result h => ?_)
      simpa [Refused] using h
  | acceptJoin owner r' sender =>
      obtain rfl : sender = u := Option.some.inj hjoin
      by_cases hr : r' = r
      · subst hr
        exact (ensures_bind ..).mpr (acceptJoin_refused.mono (fun _ h => h) (fun _ h => h)
          fun _ h => h.elim)
      · exact (ensures_bind ..).mpr (Ensures.of_all (ensures_true _) fun _ => by
          simpa [Refused, JoinResult.roomId] using hr)
  | banMember => cases hjoin
  | unbanMember => cases hjoin

/-! ## Bans that are recorded -/

/-- No command takes a whole set of bans away. -/
def keepsBans : Command → Prop
  | .del _ keys => .set .bans ∉ keys
  | _ => True

theorem cleanup_keepsBans {r u : String} {c : Command} (h : Cleanup r u c) : keepsBans c := by
  cases h <;> simp [keepsBans]

theorem acceptJoin_keepsBans (owner r u : String) :
    (RoomJoinService.acceptJoin owner r u).All keepsBans := by
  simp only [RoomJoinService.acceptJoin, RoomJoinService.loadRoomAsOwner,
    RoomRepository.findById, RoomJoinService.ensureNotBanned, RoomBansRepository.isBanned,
    RoomJoinRequestRepository.findByRoomAndSender, RoomMembersRepository.add,
    RoomJoinRequestRepository.remove, All, ensures_bind, ensures_ask, ensures_found,
    ensures_demand, ensures_write, ensures_done, pure_eq]
  intro s _ room _ _ s' _ _ s'' _ request _
  refine ⟨trivial, fun _ _ => ⟨trivial, fun _ _ => ⟨trivial, fun _ _ => ?_⟩⟩⟩
  refine Ensures.of_all (putPublicKey_all fun _ => trivial) fun _ => ?_
  exact ⟨by simp [keepsBans], fun _ _ => ⟨trivial, fun _ _ => extendTtl_all fun _ => trivial⟩⟩

theorem requestJoin_keepsBans (a : JoinAttempt) :
    (RoomJoinService.requestJoin a).All keepsBans := by
  have hconsume : ∀ token, (InviteTokenService.consumeInviteUse token).All keepsBans :=
    fun token => consumeInviteUse_all (fun _ => trivial) (fun _ => trivial) fun _ _ => trivial
  simp only [RoomJoinService.requestJoin, RoomJoinService.validatePasswordAndJoin,
    InviteTokenRepository.findByToken, RoomRepository.findById,
    RoomJoinService.continueJoinAfterPassword, RoomMembersRepository.isMember,
    RoomJoinService.ensureNotBanned, RoomBansRepository.isBanned,
    RoomJoinService.joinByPassword, RoomJoinService.joinByRequest, RoomMembersRepository.add,
    RoomJoinRequestRepository.exists', RoomJoinRequestRepository.save, clock, All,
    ensures_bind, ensures_ask, ensures_found, ensures_demand, ensures_ite, ensures_write,
    ensures_done, pure_eq]
  intro s _ token _
  refine Ensures.of_all (validateInviteToken_all (fun _ => trivial) fun _ _ => trivial) ?_
  intro _ s _ room _ _ _ _ _ _ _ _
  refine ⟨fun _ => ⟨trivial, fun _ _ => ⟨trivial, fun _ _ => ⟨trivial, fun _ _ => ?_⟩⟩⟩,
    fun _ _ _ _ _ _ => ⟨trivial, fun _ _ => ⟨trivial, fun _ _ => ?_⟩⟩⟩
  · refine Ensures.of_all (putPublicKey_all fun _ => trivial) fun _ => ?_
    exact Ensures.of_all (extendTtl_all fun _ => trivial) fun _ => hconsume _
  · exact hconsume _

theorem program_keepsBans (op : Op) : op.program.All keepsBans := by
  cases op with
  | requestJoin a => exact (ensures_bind ..).mpr (Ensures.of_all (requestJoin_keepsBans a)
      fun _ => trivial)
  | acceptJoin owner r u => exact (ensures_bind ..).mpr (Ensures.of_all
      (acceptJoin_keepsBans owner r u) fun _ => trivial)
  | banMember owner r u => exact (ensures_bind ..).mpr (Ensures.of_all
      (banMember_all (fun _ => cleanup_keepsBans) trivial fun _ => trivial) fun _ => trivial)
  | unbanMember owner r u =>
      simp [Op.program, RoomHandler.unbanMember, RoomService.requireOwner,
        RoomRepository.findById, RoomBansRepository.remove, keepsBans]

/-- A ban does not complete without having been recorded. -/
theorem banMember_needs (owner r u : String) :
    (Op.banMember owner r u).program.Needs (· = .sadd r .bans u) := by
  refine Needs.bind ?_ _
  simp only [RoomHandler.banMember]
  refine needs_bind _ fun room => needs_bind _ fun _ => needs_bind _ fun _ => ?_
  exact needs_bind _ fun isMember => needs_bind _ fun _ => needs_bind _ fun _ => .inl rfl

/-! ## The run -/

/-- The condition on every step after the ban has begun. -/
def holding (r u : String) (c : Conf Store OpCall) (a : Action OpCall Empty) : Prop :=
  (Call.guarded checksHold c a && Call.guarded (noUnban r u) c a) = true

/-- Recorded, and the user is out. -/
def Out (r u : String) (s : Store) : Prop := Banned r u s ∧ u ∉ s.smembers r .members

/-- One command keeps a banned user out. -/
theorem out_command {r u : String} {s : Store} {op : Op} {c : Command} (hout : Out r u s)
    (hkeeps : keepsBans c) (hcheck : checksHold op c s = true)
    (hno : noUnban r u op c s = true) : Out r u (exec c s) := by
  unfold Out Banned at *
  cases c with
  | sadd r' key x =>
      refine ⟨mem_smembers_sadd.mpr (.inl hout.1), fun h => ?_⟩
      rcases mem_smembers_sadd.mp h with h | ⟨rfl, rfl, rfl⟩
      · exact hout.2 h
      · simp [checksHold, sismember, hout.1] at hcheck
  | srem r' key x =>
      refine ⟨mem_smembers_srem.mpr ⟨hout.1, ?_⟩, fun h => hout.2 (mem_smembers_srem.mp h).1⟩
      rintro ⟨rfl, rfl, rfl⟩
      simp [noUnban, unbans] at hno
  | del r' keys =>
      refine ⟨mem_smembers_del.mpr ⟨hout.1, fun h => hkeeps h.2⟩,
        fun h => hout.2 (mem_smembers_del.mp h).1⟩
  | _ => rwa [smembers_exec rfl]

/-- The record of the ban finds the user outside. -/
theorem out_record {r u : String} {s : Store} {op : Op}
    (hcheck : checksHold op (.sadd r .bans u) s = true) :
    Out r u (exec (.sadd r .bans u) s) := by
  refine ⟨mem_smembers_sadd.mpr (.inr ⟨rfl, rfl, rfl⟩), fun h => ?_⟩
  rcases mem_smembers_sadd.mp h with h | ⟨-, h, -⟩
  · simp [checksHold, sismember, h] at hcheck
  · cases h

/-- A join of the user that arrived as number `n` or later has not got past the
ban. -/
def refusing (n : Nat) (r u : String) (pool : List OpCall) : Prop :=
  ∀ j p, n ≤ j → pool[j]? = some p → p.op.joiner = some u →
    (p.rest Op.program).Ensures (Banned r u) (fun _ => True) (Refused r)

section Steps

variable {r u : String} {n k i : Nat} {c c' : Conf Store OpCall} {p p' : OpCall} {s' : Store}

theorem refusing_start {op : Op} {pool : List OpCall} (h : refusing n r u pool) :
    refusing n r u (pool ++ [.arriving op]) := by
  intro j q hj hq hjoin
  rcases Nat.lt_trichotomy j pool.length with hlt | heq | hgt
  · exact h j q hj (by rwa [List.getElem?_append_left hlt] at hq) hjoin
  · rw [heq, List.getElem?_concat_length] at hq
    obtain rfl := Option.some.inj hq
    exact program_refused hjoin
  · rw [List.getElem?_eq_none (by simp; omega)] at hq
    cases hq

theorem refusing_turn (h : refusing n r u c.pool) (hban : Banned r u c.store)
    (hi : c.pool[i]? = some p) (hs : server.step p c.store = some (s', p')) :
    refusing n r u (c.pool.set i p') := by
  intro j q hj hq hjoin
  rcases eq_or_ne i j with rfl | hne
  · rw [List.getElem?_set_self (List.getElem?_eq_some_iff.mp hi).1] at hq
    obtain rfl := Option.some.inj hq
    rw [(Call.step_cases hs).1] at hjoin
    rcases Call.rest_step hs with ⟨-, hr⟩ | hr
    · rw [hr]
      exact h i p hj hi hjoin
    · exact (h i p hj hi hjoin).step hban hr
  · rw [List.getElem?_set_ne hne] at hq
    exact h j q hj hq hjoin

theorem guarded_turn {g : Op → Command → Store → Bool} {op : Op} {command : Command}
    (hi : c.pool[i]? = some p) (hc : p.command? = some (op, command))
    (hg : Call.guarded g c (.turn (E := Empty) i) = true) : g op command c.store = true := by
  simpa [Call.guarded, hi, hc] using hg

theorem obeys_step (h : ∀ q ∈ c.pool, q.Obeys Op.program fun _ => keepsBans)
    {a : Action OpCall Empty} {d : Conf Store OpCall} (hs : server.next c a = some d) :
    ∀ q ∈ d.pool, q.Obeys Op.program fun _ => keepsBans :=
  (Call.preserves (G := fun _ _ => True) (I := fun _ => True)
    (fun _ op _ => program_keepsBans op) (fun _ _ _ _ _ _ _ _ _ _ => trivial)
    fun _ e => nomatch e).next ⟨trivial, h⟩ trivial hs |>.2

end Steps

/-- Until the ban is recorded its call needs to record it; from then on the user
is out. -/
structure Recording (k : Nat) (r u : String) (c : Conf Store OpCall) : Prop where
  recorded : (∃ p, c.pool[k]? = some p ∧ p.Needs Op.program (.sadd r .bans u)) ∨ Out r u c.store
  obeys : ∀ q ∈ c.pool, q.Obeys Op.program fun _ => keepsBans

structure Holding (n : Nat) (r u : String) (c : Conf Store OpCall) : Prop where
  out : Out r u c.store
  refusing : refusing n r u c.pool
  obeys : ∀ q ∈ c.pool, q.Obeys Op.program fun _ => keepsBans

section Preserved

variable {r u : String} {n k : Nat}

theorem out_step {c : Conf Store OpCall} {i : Nat} {p p' : OpCall} {s' : Store}
    (hout : Out r u c.store) (hobeys : ∀ q ∈ c.pool, q.Obeys Op.program fun _ => keepsBans)
    (hg : holding r u c (.turn i)) (hi : c.pool[i]? = some p)
    (hs : server.step p c.store = some (s', p')) : Out r u s' := by
  rcases (Call.step_cases hs).2 with ⟨rfl, -⟩ | ⟨command, hc, rfl⟩
  · exact hout
  · obtain ⟨hcheck, hno⟩ := Bool.and_eq_true_iff.mp hg
    exact out_command hout ((hobeys p (List.mem_of_getElem? hi)).command hc)
      (guarded_turn hi hc hcheck) (guarded_turn hi hc hno)

theorem recording_preserved : server.Preserves (holding r u) (Recording k r u) where
  start c p hc hg hp := by
    have hobeys := obeys_step hc.obeys (d := { c with pool := c.pool ++ [p] })
      (a := .start p) (by simp [Server.next, hp])
    refine ⟨hc.recorded.imp ?_ id, hobeys⟩
    rintro ⟨q, hq, hneeds⟩
    refine ⟨q, ?_, hneeds⟩
    rw [List.getElem?_append_left (List.getElem?_eq_some_iff.mp hq).1]
    exact hq
  turn c i p s' p' hc hg hi hs := by
    have hobeys := obeys_step hc.obeys (d := ⟨s', c.pool.set i p'⟩) (a := .turn i)
      (by simp [Server.next, hi, hs])
    refine ⟨?_, hobeys⟩
    rcases hc.recorded with ⟨q, hq, hneeds⟩ | hout
    · rcases eq_or_ne i k with rfl | hne
      · obtain rfl : p = q := Option.some.inj (hi.symm.trans hq)
        rcases hneeds.step hs with hc' | hneeds'
        · obtain ⟨hcheck, -⟩ := Bool.and_eq_true_iff.mp hg
          rcases (Call.step_cases hs).2 with ⟨-, hnone⟩ | ⟨command, hcmd, rfl⟩
          · rw [hc'] at hnone
            cases hnone
          · obtain rfl := (Prod.mk.inj (Option.some.inj (hc'.symm.trans hcmd))).2
            exact .inr (out_record (guarded_turn hi hc' hcheck))
        · exact .inl ⟨p', List.getElem?_set_self (List.getElem?_eq_some_iff.mp hi).1, hneeds'⟩
      · exact .inl ⟨q, by rwa [List.getElem?_set_ne hne], hneeds⟩
    · exact .inr (out_step hout hc.obeys hg hi hs)
  env c e := nomatch e

theorem holding_preserved : server.Preserves (holding r u) (Holding n r u) where
  start c p hc hg hp := by
    have hobeys := obeys_step hc.obeys (d := { c with pool := c.pool ++ [p] })
      (a := .start p) (by simp [Server.next, hp])
    obtain ⟨op, rfl⟩ := Call.opens_eq hp
    exact ⟨hc.out, refusing_start hc.refusing, hobeys⟩
  turn c i p s' p' hc hg hi hs := by
    have hobeys := obeys_step hc.obeys (d := ⟨s', c.pool.set i p'⟩) (a := .turn i)
      (by simp [Server.next, hi, hs])
    exact ⟨out_step hc.out hc.obeys hg hi hs, refusing_turn hc.refusing hc.out.1 hi hs, hobeys⟩
  env c e := nomatch e

end Preserved

def ban : Action OpCall Empty := .start (.arriving (.banMember "o" "r" "u"))

def join : Action OpCall Empty := .start (.arriving (.requestJoin ⟨"u", "t", true, none⟩))

/-- The user is removed, joins again, and is then recorded as banned. -/
def joinInsideBan : List (Action OpCall Empty) :=
  List.flatten [List.replicate 4 (.turn 0), [join], List.replicate 13 (.turn 1),
    List.replicate 12 (.turn 0)]

/-- The whole ban, and after it an attempt to join. -/
def wholeBan : List (Action OpCall Empty) := List.replicate 15 (.turn 0)

def joinAfterBan : List (Action OpCall Empty) := List.append [join] (List.replicate 6 (.turn 1))

def begun : Conf Store OpCall := ⟨sampleStore, [.arriving (.banMember "o" "r" "u")]⟩

theorem begun_reached : server.Reach ⟨sampleStore, []⟩ begun :=
  .tail (.refl _) trivial (show server.next _ ban = some begun from rfl)

/-- No unban of the user in the room arrives. -/
def noUnbanIssued (r u : String) : Action OpCall Empty → Bool
  | .start p =>
      match p.op with
      | .unbanMember _ r' u' => !(r' == r && u' == u)
      | _ => true
  | _ => true

end RoomBans

end BurnedChats

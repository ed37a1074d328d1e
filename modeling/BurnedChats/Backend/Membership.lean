import BurnedChats.Backend.RoomFootprint

/-!
# The two directions of membership

`room_members:{room}` and `member_rooms:{user}` are written by two commands. An
operation that has written the one owes the write of the other, and calls that
overlap can undo each other's second half: an `add` between whose commands a
`remove` runs leaves a reverse entry without a member.

`membership_agrees` says when the two sets agree: every write of the reverse
set, and every deletion of the forward set, finds what its operation has made of
the other, or a call under way that still has to correct it.
-/

namespace BurnedChats

open Interleave

namespace Membership

open Rooms Store

inductive Op where
  | add (roomId internalId : String)
  | remove (roomId internalId : String)
  | deleteAll (roomId : String)
  | cleanupOrphanReverseEntry (roomId internalId : String)

def Op.program : Op → Prog Unit
  | .add roomId internalId => RoomMembersRepository.add roomId internalId
  | .remove roomId internalId => RoomMembersRepository.remove roomId internalId
  | .deleteAll roomId => RoomMembersRepository.deleteAll roomId
  | .cleanupOrphanReverseEntry roomId internalId =>
      RoomMembersRepository.cleanupOrphanReverseEntry roomId internalId

abbrev OpCall := Call Op Store Command Unit

def server : Server Store OpCall Empty := Call.server Store.exec Op.program fun e _ => nomatch e

/-- `u ∈ room_members:{r}` exactly when `r ∈ member_rooms:{u}`. -/
def Agree (s : Store) : Prop :=
  ∀ r u, u ∈ s.smembers r .members ↔ r ∈ s.memberRooms u

/-- Some call under way will still execute the command. -/
def Due (c : Conf Store OpCall) (d : Command) : Prop := ∃ p ∈ c.pool, p.Owes Op.program (· = d)

def deleteMembers (r : String) : Command := .del r [.set .members]

/-- The write finds the other direction as its operation has made it, or a call
that will still write that direction. -/
def Finds (c : Conf Store OpCall) : Command → Prop
  | .addRoom u r => u ∈ c.store.smembers r .members ∨ Due c (.removeRoom u r)
  | .removeRoom u r =>
      u ∉ c.store.smembers r .members ∨ Due c (.addRoom u r) ∨ Due c (deleteMembers r)
  | .del r _ => ∀ u ∈ c.store.smembers r .members,
      r ∉ c.store.memberRooms u ∨ Due c (.removeRoom u r)
  | _ => True

def Undisturbed (c : Conf Store OpCall) : Action OpCall Empty → Prop
  | .turn i => ∀ p op command, c.pool[i]? = some p → p.command? = some (op, command) →
      Finds c command
  | _ => True

/-! ## What is owed -/

/-- The second command of `add` and of `remove`. -/
def due : Command → Command → Prop
  | .sadd r .members u, d => d = .addRoom u r
  | .srem r .members u, d => d = .removeRoom u r
  | _, _ => False

/-- The commands of the four operations. -/
def Issues : Command → Prop
  | .sadd _ key _ => key = .members
  | .srem _ key _ => key = .members
  | .del _ keys => keys = [.set .members]
  | .addRoom _ _ => True
  | .removeRoom _ _ => True
  | .expireMembers _ _ => True
  | _ => False

theorem program_issues (op : Op) : op.program.All Issues := by
  cases op with
  | add r u => simp [Op.program, RoomMembersRepository.add, Issues]
  | remove r u => simp [Op.program, RoomMembersRepository.remove, Issues]
  | deleteAll r =>
      simp only [Op.program, RoomMembersRepository.deleteAll, RoomMembersRepository.getMembers,
        Program.ensures_bind, Program.ensures_ask, Program.ensures_write]
      exact fun s _ => Program.ensures_forEach (fun u _ => by simp [Issues]) (by simp [Issues])
  | cleanupOrphanReverseEntry r u =>
      simp [Op.program, RoomMembersRepository.cleanupOrphanReverseEntry,
        RoomMembersRepository.isMember, Issues]

theorem program_follows (op : Op) {c d : Command} (hd : due c d) :
    op.program.Follows (· = c) (· = d) := by
  have hnone : ∀ {p : Prog Unit}, (p.All fun c => ∀ d, ¬ due c d) →
      p.Follows (· = c) (· = d) := fun h =>
    Program.follows_of_all (h.mono (fun _ h => h) (fun _ h he => h d (he ▸ hd)) fun _ h => h)
  cases op with
  | add r u =>
      simp only [Op.program, RoomMembersRepository.add, Program.write_bind]
      refine fun _ => ⟨fun he => .inl ?_, hnone ?_⟩
      · subst he
        exact Eq.symm hd
      · simp [due]
  | remove r u =>
      simp only [Op.program, RoomMembersRepository.remove, Program.write_bind,
        Program.call_bind]
      refine fun s => ⟨fun he => .inl ?_, hnone ?_⟩
      · subst he
        exact Eq.symm hd
      · simp [due]
  | deleteAll r =>
      refine hnone ?_
      simp only [Op.program, RoomMembersRepository.deleteAll, RoomMembersRepository.getMembers,
        Program.ensures_bind, Program.ensures_ask, Program.ensures_write]
      exact fun s _ => Program.ensures_forEach (fun u _ => by simp [due]) (by simp [due])
  | cleanupOrphanReverseEntry r u =>
      refine hnone ?_
      simp [Op.program, RoomMembersRepository.cleanupOrphanReverseEntry,
        RoomMembersRepository.isMember, due]

/-! ## The invariant -/

/-- Where the two directions differ, a call is under way that will make them
agree. -/
structure Accounted (c : Conf Store OpCall) : Prop where
  reverse : ∀ r u, r ∈ c.store.memberRooms u → u ∉ c.store.smembers r .members →
    Due c (.removeRoom u r)
  forward : ∀ r u, u ∈ c.store.smembers r .members → r ∉ c.store.memberRooms u →
    Due c (.addRoom u r) ∨ Due c (deleteMembers r)
  follows : ∀ p ∈ c.pool, ∀ d e, due d e → p.Follows Op.program (· = d) (· = e)
  issues : ∀ p ∈ c.pool, p.Obeys Op.program fun _ => Issues

section Step

variable {c : Conf Store OpCall} {i : Nat} {p p' : OpCall} {s' : Store} {op : Op}
  {command d : Command}

theorem Due.start (h : Due c d) (p : OpCall) : Due { c with pool := c.pool ++ [p] } d :=
  let ⟨q, hq, hd⟩ := h
  ⟨q, List.mem_append_left _ hq, hd⟩

/-- A command other than the one that is owed. -/
theorem Due.turn (h : Due c d) (hi : c.pool[i]? = some p)
    (hs : server.step p c.store = some (s', p')) (hc : p.command? = some (op, command))
    (hne : command ≠ d) : Due ⟨s', c.pool.set i p'⟩ d := by
  refine Call.exists_owes_turn hi hs (fun e he hd => hne ?_) h
  rw [hc] at he
  exact (Prod.mk.inj (Option.some.inj he)).2.trans hd

theorem due_of_command (hall : Accounted c) (hi : c.pool[i]? = some p)
    (hs : server.step p c.store = some (s', p')) (hc : p.command? = some (op, command))
    (hd : due command d) : Due ⟨s', c.pool.set i p'⟩ d :=
  ⟨p', List.mem_set (List.getElem?_eq_some_iff.mp hi).1 p',
    (hall.follows p (List.mem_of_getElem? hi) _ _ hd).owes hc rfl hs⟩

/-- A step that leaves the store alone. -/
theorem Due.read (h : Due c d) (hi : c.pool[i]? = some p)
    (hs : server.step p c.store = some (s', p')) (hc : p.command? = none) :
    Due ⟨s', c.pool.set i p'⟩ d :=
  Call.exists_owes_turn hi hs (by simp [hc]) h

/-- One command: the direction it writes is accounted for by what the write
found, and everything else stays owed. -/
theorem accounted_command (hall : Accounted c) (hi : c.pool[i]? = some p)
    (hs : server.step p c.store = some (exec command c.store, p'))
    (hc : p.command? = some (op, command)) (hissues : Issues command)
    (hfinds : Finds c command) :
    (∀ r u, r ∈ (exec command c.store).memberRooms u →
        u ∉ (exec command c.store).smembers r .members →
        Due ⟨exec command c.store, c.pool.set i p'⟩ (.removeRoom u r))
      ∧ ∀ r u, u ∈ (exec command c.store).smembers r .members →
        r ∉ (exec command c.store).memberRooms u →
        Due ⟨exec command c.store, c.pool.set i p'⟩ (.addRoom u r)
          ∨ Due ⟨exec command c.store, c.pool.set i p'⟩ (deleteMembers r) := by
  have hkeep : ∀ {d}, Due c d → command ≠ d → Due ⟨exec command c.store, c.pool.set i p'⟩ d :=
    fun h hne => h.turn hi hs hc hne
  have howes : ∀ {d}, due command d → Due ⟨exec command c.store, c.pool.set i p'⟩ d :=
    fun hd => due_of_command hall hi hs hc hd
  cases command with
  | sadd r key u =>
      obtain rfl : key = .members := hissues
      refine ⟨fun r' u' hr hu => ?_, fun r' u' hu hr => ?_⟩
      · simp only [mem_smembers_sadd, not_or] at hu
        exact hkeep (hall.reverse r' u' hr hu.1) (by simp)
      · rcases mem_smembers_sadd.mp hu with hu | ⟨rfl, -, rfl⟩
        · exact (hall.forward r' u' hu hr).imp (hkeep · (by simp))
            (hkeep · (by simp [deleteMembers]))
        · exact .inl (howes rfl)
  | srem r key u =>
      obtain rfl : key = .members := hissues
      refine ⟨fun r' u' hr hu => ?_, fun r' u' hu hr => ?_⟩
      · by_cases hmem : u' ∈ c.store.smembers r' .members
        · simp only [mem_smembers_srem, hmem, true_and, not_not] at hu
          obtain ⟨rfl, rfl⟩ := hu
          exact howes rfl
        · exact hkeep (hall.reverse r' u' hr hmem) (by simp)
      · exact (hall.forward r' u' (mem_smembers_srem.mp hu).1 hr).imp (hkeep · (by simp))
          (hkeep · (by simp [deleteMembers]))
  | expireMembers r ttl =>
      refine ⟨fun r' u' hr hu => ?_, fun r' u' hu hr => ?_⟩
      · rw [smembers_exec rfl] at hu
        exact hkeep (hall.reverse r' u' hr hu) (by simp)
      · rw [smembers_exec rfl] at hu
        exact (hall.forward r' u' hu hr).imp (hkeep · (by simp))
          (hkeep · (by simp [deleteMembers]))
  | del r keys =>
      obtain rfl : keys = [.set .members] := hissues
      refine ⟨fun r' u' hr hu => ?_, fun r' u' hu hr => ?_⟩
      · by_cases hmem : u' ∈ c.store.smembers r' .members
        · simp only [mem_smembers_del, hmem, true_and, not_not, List.mem_singleton,
            and_true] at hu
          subst hu
          exact (hfinds u' hmem).elim (fun hno => absurd hr hno) (hkeep · (by simp))
        · exact hkeep (hall.reverse r' u' hr hmem) (by simp)
      · simp only [mem_smembers_del, List.mem_singleton, and_true] at hu
        refine (hall.forward r' u' hu.1 hr).imp (hkeep · (by simp)) (hkeep · ?_)
        exact fun h => hu.2 (Command.del.inj h).1.symm
  | addRoom u r =>
      refine ⟨fun r' u' hr hu => ?_, fun r' u' hu hr => ?_⟩
      · rcases mem_memberRooms_addRoom.mp hr with hr | ⟨rfl, rfl⟩
        · exact hkeep (hall.reverse r' u' hr hu) (by simp)
        · exact hfinds.elim (fun h => absurd h hu) (hkeep · (by simp))
      · simp only [mem_memberRooms_addRoom, not_or] at hr
        refine (hall.forward r' u' hu hr.1).imp (hkeep · ?_) (hkeep · (by simp [deleteMembers]))
        intro h
        obtain ⟨rfl, rfl⟩ := Command.addRoom.inj h
        exact hr.2 ⟨rfl, rfl⟩
  | removeRoom u r =>
      refine ⟨fun r' u' hr hu => ?_, fun r' u' hu hr => ?_⟩
      · simp only [mem_memberRooms_removeRoom] at hr
        refine hkeep (hall.reverse r' u' hr.1 hu) fun h => ?_
        obtain ⟨rfl, rfl⟩ := Command.removeRoom.inj h
        exact hr.2 ⟨rfl, rfl⟩
      · by_cases hmem : r' ∈ c.store.memberRooms u'
        · simp only [mem_memberRooms_removeRoom, hmem, true_and, not_not] at hr
          obtain ⟨rfl, rfl⟩ := hr
          exact (hfinds.resolve_left fun h => h hu).imp (hkeep · (by simp))
            (hkeep · (by simp [deleteMembers]))
        · exact (hall.forward r' u' hu hmem).imp (hkeep · (by simp))
            (hkeep · (by simp [deleteMembers]))
  | _ => exact hissues.elim

end Step

theorem preserves : server.Preserves (fun c a => Undisturbed c a) Accounted where
  start c p hc _ hp := by
    obtain ⟨op, rfl⟩ := Call.opens_eq hp
    refine ⟨fun r u hr hu => (hc.reverse r u hr hu).start _,
      fun r u hu hr => (hc.forward r u hu hr).imp (·.start _) (·.start _),
      forall_start hc.follows fun _ _ => program_follows op, forall_start hc.issues (program_issues op)⟩
  turn c i p s' p' hc hg hi hs := by
    have hmem := List.mem_of_getElem? hi
    have hfollows := forall_turn hc.follows
      (fun d e hd => (hc.follows p hmem d e hd).step hs) (i := i)
    have hissues := forall_turn hc.issues ((hc.issues p hmem).step hs) (i := i)
    rcases (Call.step_cases hs).2 with ⟨rfl, hnone⟩ | ⟨command, hcmd, rfl⟩
    · exact ⟨fun r u hr hu => (hc.reverse r u hr hu).read hi hs hnone,
        fun r u hu hr => (hc.forward r u hu hr).imp (·.read hi hs hnone) (·.read hi hs hnone),
        hfollows, hissues⟩
    · obtain ⟨hrev, hfwd⟩ := accounted_command hc hi hs hcmd ((hc.issues p hmem).command hcmd)
        (hg p p.op command hi hcmd)
      exact ⟨hrev, hfwd, hfollows, hissues⟩
  env c e := nomatch e

/-! ## The result -/

/-- In every run whose writes are undisturbed, the two directions agree whenever
no operation is in progress. -/
theorem membership_agrees {c₀ c : Conf Store OpCall}
    (h : server.Run (fun c a => Undisturbed c a) c₀ c) (hpool : c₀.pool = [])
    (hagree : Agree c₀.store) (hidle : ∀ p ∈ c.pool, p.isOver = true) : Agree c.store := by
  have hinit : Accounted c₀ :=
    ⟨fun r u hr hu => absurd ((hagree r u).mpr hr) hu,
      fun r u hu hr => absurd ((hagree r u).mp hu) hr,
      by simp [hpool], by simp [hpool]⟩
  have hall := h.invariant preserves hinit
  have hnone : ∀ d, ¬ Due c d := by
    rintro d ⟨p, hp, hd⟩
    have := hd.not_isOver
    rw [hidle p hp] at this
    cases this
  intro r u
  constructor
  · intro hu
    by_contra hr
    exact (hall.forward r u hu hr).elim (hnone _) (hnone _)
  · intro hr
    by_contra hu
    exact hnone _ (hall.reverse r u hr hu)

/-- Two users join and the first one leaves. -/
def joinJoinLeave : List (Action OpCall Empty) :=
  List.flatten [[.start (.arriving (.add "r" "u")), .start (.arriving (.add "r" "v"))],
    [.turn 0, .turn 1, .turn 0, .turn 1, .turn 1, .turn 0, .turn 0, .turn 1],
    [.start (.arriving (.remove "r" "u")), .turn 2, .turn 2, .turn 2, .turn 2]]

/-- The writes of the reverse set find the forward set as their operation made it. -/
def findsForward (_ : Op) (command : Command) (s : Store) : Bool :=
  match command with
  | .addRoom u r => (s.smembers r .members).contains u
  | .removeRoom u r => !(s.smembers r .members).contains u
  | .del _ _ => false
  | _ => true

theorem undisturbed_of_findsForward {c : Conf Store OpCall} {a : Action OpCall Empty}
    (h : Call.guarded findsForward c a = true) : Undisturbed c a := by
  cases a with
  | turn i =>
      intro p op command hi hc
      simp only [Call.guarded, hi, Option.bind_some, hc] at h
      cases command with
      | addRoom u r => exact .inl (by simpa [findsForward] using h)
      | removeRoom u r => exact .inl (by simpa [findsForward] using h)
      | del r keys => cases h
      | _ => trivial
  | _ => trivial

theorem joined_and_left_agree : ∃ c : Conf Store OpCall,
    server.Run (fun c a => Undisturbed c a) ⟨.empty, []⟩ c
      ∧ "v" ∈ c.store.smembers "r" .members ∧ Agree c.store := by
  obtain ⟨c, hrun, hc⟩ := server.exists_run_of_execWhile (Call.guarded findsForward)
    ⟨.empty, []⟩ joinJoinLeave
    (fun c => c.pool.all (·.isOver) && (c.store.smembers "r" .members).contains "v")
    (fun _ _ => undisturbed_of_findsForward) (by decide +kernel)
  simp only [Bool.and_eq_true, List.all_eq_true, List.contains_eq_mem, decide_eq_true_eq] at hc
  exact ⟨c, hrun, hc.2, membership_agrees hrun rfl
    (fun r u => by simp [smembers, Store.empty, RoomKeys.empty]) hc.1⟩

/-- A `remove` between the two commands of an `add`. -/
def overtakenAdd : List (Action OpCall Empty) :=
  List.flatten [[.start (.arriving (.add "r" "u")), .turn 0, .turn 0],
    [.start (.arriving (.remove "r" "u")), .turn 1, .turn 1, .turn 1, .turn 1],
    [.turn 0, .turn 0]]

theorem reverse_entry_left : ¬ ∀ c₀ c : Conf Store OpCall, server.Reach c₀ c → c₀.pool = [] →
    Agree c₀.store → (∀ p ∈ c.pool, p.isOver = true) → Agree c.store := by
  intro h
  obtain ⟨c, hrun, hc⟩ := server.exists_reach_of_exec ⟨.empty, []⟩ overtakenAdd
    (fun c => c.pool.all (·.isOver) && (c.store.memberRooms "u").contains "r"
      && !(c.store.smembers "r" .members).contains "u") (by decide +kernel)
  simp only [Bool.and_eq_true, List.all_eq_true, List.contains_eq_mem, decide_eq_true_eq,
    Bool.not_eq_true', decide_eq_false_iff_not] at hc
  have hempty : Agree Store.empty := fun r u => by simp [smembers, Store.empty, RoomKeys.empty]
  exact hc.2 ((h _ c hrun rfl hempty hc.1.1 "r" "u").mpr hc.1.2)

end Membership

end BurnedChats

import BurnedChats.Backend.RoomFootprint

/-!
# Rooms with an auto-burn instant

`setRoomTtl` stores the instant in the hash of the room, sets a trigger key that
expires at it, and lets the hash expire no later. Activity refreshes the time to
live of the hash. When a key has expired its event waits for the listener: that
of the trigger burns the room if the stored instant has come, that of the hash
burns what is left of the room, unless its member set is empty.

A log keeps the instant set last and whether a burn has reached the room.
`burned_in_time` says that no room outlives its instant, and that the trigger
burns none before, in every run whose commands are `Timely`.
-/

namespace BurnedChats

namespace AutoBurn

open Rooms Store Program
open Interleave (Conf Server Action)

/-! ## What happens to a room -/

def stored (s : Store) (r : String) : Option Nat := (s.hash r).bind RoomHash.autoBurnAt

/-- The instant that was set last, and whether a burn has deleted the hash or the
members of the room, as only a burn does. -/
structure Log where
  latest : Option Nat
  burned : Bool

def instantOf (fields : List Field) (instant : Option Nat) : Option Nat :=
  fields.foldl (fun instant field =>
    match field with
    | .autoBurnAt t => some t
    | _ => instant) instant

def note (r : String) (command : Command) (l : Log) : Log :=
  match command with
  | .hset x fields => if x = r then { l with latest := instantOf fields l.latest } else l
  | .del x keys =>
      if x = r ∧ (.room ∈ keys ∨ .set .members ∈ keys) then { l with burned := true } else l
  | _ => l

def record (r : String) (p : RoomCall) (_ : Store) (l : Log) : Log :=
  match p.command? with
  | some (_, command) => note r command l
  | none => l

abbrev State := Conf (Store × Log) RoomCall

/-- The server, with a log for one room. -/
def recording (r : String) : Server (Store × Log) RoomCall Move := server.recording (record r)

/-- A room as it is after its creation. -/
structure Opened (r : String) (s : Store) : Prop where
  hash : ∃ hash, s.hash r = some hash ∧ hash.saved.isSome ∧ hash.autoBurnAt = none
  trigger : (s.room r).trigger = none
  members : s.smembers r .members ≠ []

def start (s : Store) : State := ⟨(s, ⟨none, false⟩), []⟩

/-- What is asked of a room. -/
structure Managed (r : String) (c : State) : Prop where
  /-- Past its instant the hash is gone and a burn has reached the room, once no
  operation is in progress and no event is waiting. -/
  burned : c.pool.all Call.isOver = true → (c.store.1.room r).expired = [] →
    ∀ t, c.store.2.latest = some t → t < c.store.1.now →
      c.store.1.hash r = none ∧ c.store.2.burned = true
  /-- Where the trigger's burn comes to delete the hash, the instant set last has
  come. -/
  kept : ∀ p ∈ c.pool, ∀ keys, p.command? = some (.expired r .trigger, .del r keys) →
    .room ∈ keys → ∀ t, c.store.2.latest = some t → t ≤ c.store.1.now

/-! ## Runs -/

/-- What a managed room lives through: its owner moves the instant, there is activity,
and keys expire. -/
def manages : Op → Bool
  | .setTtl .. => true
  | .message .. => true
  | .requestJoin .. => true
  | .acceptJoin .. => true
  | .setName .. => true
  | .transferOwnership .. => true
  | .expired .. => true
  | _ => false

def delivers (c : State) : Command → Bool
  | .takeExpired x event => (c.store.1.room x).expired.contains event
  | _ => true

/-- Events are delivered once, and nothing else is asked of a run. -/
def delivered (c : State) : Action RoomCall Move → Bool
  | .start p => manages p.op
  | .turn i =>
      match c.pool[i]?.bind (·.command?) with
      | some (_, command) => delivers c command
      | none => true
  | .env _ => true

/-- The trigger's handler has read the room, has not refused to burn it and is not
through with it. -/
def Judging (r : String) (p : RoomCall) : Prop :=
  p.op = .expired r .trigger ∧ (p.rest Op.program).isOver = false
    ∧ p.rest Op.program ≠ onExpired r .trigger
    ∧ p.rest Op.program ≠ RoomService.executeAutoBurnAndNotify r

/-- A field is written to a hash that is there, and an instant while no handler of
the trigger judges the room by an earlier one; the trigger is set for the stored
instant; and until the room is burned not all its members leave. -/
def Timely (r : String) (c : State) : Command → Prop
  | .hset x fields => x = r → (c.store.1.hash r).isSome = true
      ∧ ((∃ t, .autoBurnAt t ∈ fields) → ∀ p ∈ c.pool, ¬ Judging r p)
  | .setTrigger x ttl => x = r → ∀ t, stored c.store.1 r = some t → t = c.store.1.now + ttl
  | .srem x .members u => x = r → c.store.2.burned = true
      ∨ ∃ v ∈ c.store.1.smembers r .members, v ≠ u
  | _ => True

/-- The member set of the room does not expire before the room is burned. -/
def Lasting (r : String) (c : State) : Prop := c.store.2.burned = true
  ∨ (c.store.1.room r).membersDeadline.any (· ≤ c.store.1.now + 1) = false

/-- What the run does to the room is timely. -/
def Orderly (r : String) (c : State) : Action RoomCall Move → Prop
  | .turn i => ∀ p op command, c.pool[i]? = some p → p.command? = some (op, command) →
      Timely r c command
  | .env .tick => Lasting r c
  | _ => True

/-! ## What calls have ahead of them -/

def deletesTrigger (r : String) (c : Command) : Prop := c = .del r [.autoBurn]

def deletesHash (r : String) (c : Command) : Prop := c = .del r [.room]

def setsInstant (r : String) (c : Command) : Prop :=
  ∃ fields t, c = .hset r fields ∧ .autoBurnAt t ∈ fields

def setsTrigger (r : String) (c : Command) : Prop := ∃ ttl, c = .setTrigger r ttl

section Programs

variable {r x u : String} {c : Command}

theorem deleteFile_total {f : String} : (FileMetadataRepository.delete f).Total := by
  intro s
  dsimp only [FileMetadataRepository.delete]
  cases s.fileMeta.lookup f with
  | none => trivial
  | some context => exact fun _ _ => trivial

theorem cascade_owes : (RoomService.burnRoomCascade r).Owes (deletesHash r) := by
  refine fun s => owes_bind (p := FileBurnService.deleteFilesForContext r) ?_ fun _ => ?_
  · exact fun s => (total_forEach fun f _ => deleteFile_total).bind fun _ _ => trivial
  · exact .inr fun _ => .inl rfl

/-- Only one part of a burn deletes the trigger. -/
theorem cascade_part {part : Part} (h : Cascade x part c) (hpart : part ≠ .plain .autoBurn) :
    ¬ deletesTrigger r c := by
  have hno : ∀ {keys : List Key}, .autoBurn ∉ keys → ¬ deletesTrigger r (.del x keys) := by
    intro keys hmem hd
    exact hmem (by simp [(Command.del.inj hd).2])
  cases h with
  | fileIndex => exact hno (by simp)
  | members => exact hno (by simp)
  | inviteIndex => exact hno (by simp)
  | epochs last => exact hno (by simp)
  | plain key hk => exact hno fun hmem => hpart (by rw [List.mem_singleton.mp hmem])
  | _ => simp [deletesTrigger]

theorem cascade_follows :
    (RoomService.burnRoomCascade x).Follows (deletesTrigger r) (deletesHash r) := by
  have hpart : ∀ {α : Type} {p : Prog α} {part : Part}, part ≠ .plain .autoBurn →
      p.All (Cascade x part) → p.Follows (deletesTrigger r) (deletesHash r) :=
    fun hne hall => follows_of_all (hall.mono (fun _ h => h) (fun _ h => cascade_part h hne)
      fun _ h => h)
  have hdel : ∀ {key : Key} {p : Prog (List String)}, key ∈ plainKeys → key ≠ .autoBurn →
      p.Follows (deletesTrigger r) (deletesHash r) →
      (write (.del x [key]) >>= fun _ => p).Follows (deletesTrigger r) (deletesHash r) :=
    fun hk hne hp _ => ⟨fun hd => absurd hd (cascade_part (.plain _ hk) (by simpa using hne)), hp⟩
  refine fun s => (hpart (by simp) (deleteFilesForContext_all fun _ h => h)).bind fun _ => ?_
  -- the hash goes right after the trigger
  refine fun _ => ⟨fun hd => .inl ?_, hdel (by decide) (by decide) ?_⟩
  · rw [(Command.del.inj hd).1]
    rfl
  refine (hpart (by simp) (deleteMembers_all fun _ h => h)).bind fun _ => ?_
  refine (hpart (by simp) (deleteInvites_all fun _ h => h)).bind fun _ => ?_
  refine (hpart (by simp) (deleteKeys_all fun _ h => h)).bind fun _ => ?_
  exact hdel (by decide) (by decide) (hdel (by decide) (by decide) (hdel (by decide) (by decide)
    (hdel (by decide) (by decide) (hdel (by decide) (by decide) trivial))))

theorem notify_follows {members : List String} :
    (RoomService.notifyRoomBurned x members).Follows (deletesTrigger r) (deletesHash r) :=
  follows_of_all (notifyRoomBurned_all fun _ _ h => by cases h)

theorem burnOwnedRoom_follows :
    (UserBurnService.burnOwnedRoom x u).Follows (deletesTrigger r) (deletesHash r) := by
  refine Follows.bind ?_ fun members => fun _ => ⟨fun hd => ?_, notify_follows⟩
  · exact (follows_of_all requireOwner_all).bind fun _ => cascade_follows
  · exact absurd hd (cascade_part (x := x) (.plain (.hash .presence) (by decide)) (by simp))

theorem onExpired_follows {event : Expired} :
    (onExpired x event).Follows (deletesTrigger r) (deletesHash r) := by
  have hburn : (RoomService.burnRoomCascade x >>= RoomService.notifyRoomBurned x).Follows
      (deletesTrigger r) (deletesHash r) := cascade_follows.bind fun _ => notify_follows
  refine fun _ => ⟨fun hd => (by cases hd), ?_⟩
  cases event with
  | trigger =>
      refine Follows.bind (p := RoomRepository.findById x) (fun _ => trivial) fun found => ?_
      cases found with
      | none => trivial
      | some room =>
          refine Follows.bind (p := clock) (fun _ => trivial) fun now => ?_
          cases room.autoBurnAt with
          | none => trivial
          | some t =>
              dsimp only
              split
              · trivial
              · exact hburn
  | hash =>
      refine Follows.bind (p := RoomMembersRepository.getMembers x) (fun _ => trivial)
        fun members => ?_
      split
      · exact follows_of_all ((deleteInvites_all fun _ h => h).mono (fun _ h => h)
          (fun _ h => cascade_part h (by simp)) fun _ h => h)
      · exact hburn

theorem burnAll_follows {wipe : Bool} :
    (UserBurnService.burnAllForUser u wipe).Follows (deletesTrigger r) (deletesHash r) := by
  refine Follows.bind ?_ fun _ => Follows.bind ?_ fun _ => ?_
  · refine fun s => follows_forEach fun x _ => ?_
    refine Follows.bind (p := RoomRepository.findById x) (fun _ => trivial) fun found => ?_
    cases found with
    | none => trivial
    | some room =>
        dsimp only
        split
        · exact burnOwnedRoom_follows.attempt
        · trivial
  · refine follows_of_all (leaveMemberRooms_all (fun x c h hd => ?_) fun _ _ hd => by cases hd)
    cases h <;> cases hd
  · split
    · exact follows_of_all ((ensures_write _).mpr ⟨fun hd => (by cases hd), fun _ _ => trivial⟩)
    · trivial

/-- What the listener does with an event that it has taken. -/
def handler (x : String) : Expired → Prog Unit
  | .trigger => RoomService.executeAutoBurnAndNotify x
  | .hash => RoomService.executeHashExpiryCascade x

/-- The trigger's handler, when it has read the clock. -/
def verdict (x : String) (instant : Option Nat) (now : Nat) : Prog Unit :=
  match instant with
  | none => pure ()
  | some t =>
      if now < t then pure ()
      else RoomService.burnRoomCascade x >>= RoomService.notifyRoomBurned x

/-- The trigger's handler, when it has read the instant of the room. -/
def judge (x : String) (instant : Option Nat) : Prog Unit := .read fun s => verdict x instant s.now

theorem onExpired_eq {event : Expired} :
    onExpired x event = .exec (.takeExpired x event) fun _ => handler x event := by
  cases event <;> rfl

theorem handler_trigger_eq : handler x .trigger
    = .read fun s => (findRoom s x).elim (pure ()) fun room => judge x room.autoBurnAt := by
  simp only [handler, RoomService.executeAutoBurnAndNotify, RoomRepository.findById, ask_bind]
  refine congrArg Program.read (funext fun s => ?_)
  rw [findRoom, Store.hash]
  cases (s.room x).hash.bind RoomHash.parse <;> rfl

theorem handler_hash_eq : handler x .hash = .read fun s =>
    if (s.smembers x .members).isEmpty then InviteTokenRepository.deleteAllForRoom x
    else RoomService.burnRoomCascade x >>= RoomService.notifyRoomBurned x := rfl

theorem burn_owes : (RoomService.burnRoomCascade r >>= RoomService.notifyRoomBurned r).Owes
    (deletesHash r) :=
  cascade_owes.bind _

/-- Only the first command of a handler takes an event. -/
def takes (c : Command) : Prop := ∃ x event, c = .takeExpired x event

theorem cascade_takes {part : Part} (h : Cascade x part c) : ¬ takes c := by
  rintro ⟨y, event, rfl⟩
  cases h

theorem handler_takes {event : Expired} : (handler x event).All (¬ takes ·) := by
  have hburn : (RoomService.burnRoomCascade x >>= RoomService.notifyRoomBurned x).All (¬ takes ·) :=
    (ensures_bind ..).mpr (Ensures.of_all (burnRoomCascade_all fun _ _ => cascade_takes)
      fun _ => notifyRoomBurned_all fun _ _ => by simp [takes])
  cases event with
  | trigger =>
      rw [handler_trigger_eq]
      intro s _
      dsimp only
      cases findRoom s x with
      | none => trivial
      | some room =>
          intro s' _
          dsimp only [verdict]
          cases room.autoBurnAt with
          | none => trivial
          | some t => exact (ensures_ite ..).mpr ⟨fun _ => trivial, fun _ => hburn⟩
  | hash =>
      rw [handler_hash_eq]
      exact fun s _ => (ensures_ite ..).mpr ⟨fun _ => deleteInvites_all fun _ => cascade_takes,
        fun _ => hburn⟩

theorem may_takes {op : Op} {event : Expired} (h : May op (.takeExpired x event)) :
    op = .expired x event := by
  cases h with
  | takes => rfl
  -- the programs that operations share
  | _ => rename_i h; cases h

/-- Only `setRoomTtl` writes an instant. -/
theorem may_instant {op : Op} (h : May op c) (hi : setsInstant r c) :
    ∃ owner ttl instant, op = .setTtl owner r ttl instant := by
  obtain ⟨fields, t, rfl, hmem⟩ := hi
  cases h with
  | autoBurnAt owner _ ttl instant => exact ⟨owner, ttl, instant, rfl⟩
  | create => simp at hmem
  | transfers => simp at hmem
  | sets op x field hr hset =>
      obtain rfl := List.mem_singleton.mp hmem
      cases op <;> exact hset.elim
  -- the programs that operations share
  | _ => rename_i h; cases h

/-- Only burns delete the trigger. -/
def burns : Op → Bool
  | .burn .. => true
  | .burnAll .. => true
  | .expired .. => true
  | _ => false

theorem may_deletes {op : Op} (h : May op c) (hd : deletesTrigger r c) : burns op = true := by
  subst hd
  cases h with
  | burns => rfl
  | burnsAll => rfl
  | leavesAll => rfl
  | expires => rfl
  | _ => rename_i h; cases h

/-- The trigger is deleted on its own. -/
theorem may_del {op : Op} {keys : List Key} (h : May op (.del r keys)) (hkey : .autoBurn ∈ keys) :
    deletesTrigger r (.del r keys) := by
  have hpart : ∀ {x part}, Cascade x part (.del r keys) → deletesTrigger r (.del r keys) := by
    intro x part hcascade
    cases hcascade with
    | plain key hk =>
        obtain rfl := List.mem_singleton.mp hkey
        rfl
    | _ => simp at hkey
  cases h with
  | burns _ _ _ _ h => exact hpart h
  | burnsAll _ _ _ _ _ h => exact hpart h
  | expires _ _ _ _ h => exact hpart h
  | rekeyDeletes => simp at hkey
  | _ => rename_i h; cases h <;> simp at hkey

theorem program_follows_deletes (op : Op) :
    op.program.Follows (deletesTrigger r) (deletesHash r) := by
  cases hop : burns op with
  | false =>
      exact follows_of_all ((program_may op).mono (fun _ h => h)
        (fun c hc hd => by rw [may_deletes hc hd] at hop; cases hop) fun _ h => h)
  | true =>
      cases op with
      | burn owner x => exact burnOwnedRoom_follows
      | burnAll u wipe => exact burnAll_follows
      | expired x event => exact onExpired_follows
      | _ => cases hop

/-- Where `setRoomTtl` has stored an instant, it goes on to set the trigger. -/
theorem updateAutoBurnAt_follows {instant : Int} :
    (RoomRepository.updateAutoBurnAt x instant).Follows (setsInstant r) (setsTrigger r) := by
  refine Follows.bind (p := clock) (fun _ => trivial) fun now => ?_
  dsimp only
  by_cases hpos : 0 < instant - now
  · rw [decide_eq_true hpos]
    refine fun _ => ⟨fun hset => ?_, ?_⟩
    · obtain ⟨fields, t, he, -⟩ := hset
      obtain ⟨rfl, -⟩ := Command.hset.inj he
      have hne : (instant - now).toNat ≠ 0 := by omega
      rw [RoomRepository.scheduleAutoBurnTrigger, if_neg hne]
      exact .inl ⟨_, rfl⟩
    · have hschedule : (RoomRepository.scheduleAutoBurnTrigger x (instant - now).toNat).All
          fun c => ¬ setsInstant r c := by
        simp [RoomRepository.scheduleAutoBurnTrigger, setsInstant]
      have happly : (RoomRepository.applyTtl x (instant - now).toNat).All
          fun c => ¬ setsInstant r c := applyTtl_all fun _ => by simp [setsInstant]
      exact (follows_of_all hschedule).bind fun _ => follows_of_all happly
  · rw [decide_eq_false hpos]
    trivial

theorem program_follows_instant (op : Op) :
    op.program.Follows (setsInstant r) (setsTrigger r) := by
  by_cases hop : ∃ owner ttl instant, op = .setTtl owner r ttl instant
  · obtain ⟨owner, ttl, instant, rfl⟩ := hop
    refine (follows_of_all requireOwner_all).bind fun _ => ?_
    refine Follows.bind (p := clock) (fun _ => trivial) fun now => ?_
    split
    · trivial
    · exact updateAutoBurnAt_follows
  · exact follows_of_all ((program_may op).mono (fun _ h => h)
      (fun c hc hd => hop (may_instant hc hd)) fun _ h => h)

theorem program_takes (op : Op) :
    (∃ x event, op = .expired x event) ∨ op.program.All (¬ takes ·) := by
  by_cases hop : ∃ x event, op = .expired x event
  · exact .inl hop
  · refine .inr ((program_may op).mono (fun _ h => h) (fun c hc ht => ?_) fun _ h => h)
    obtain ⟨x, event, rfl⟩ := ht
    exact hop ⟨x, event, may_takes hc⟩

end Programs

/-! ## What commands do to a room -/

/-- The commands that change the hash, the trigger, the members or the events of a
room. -/
def touches (r : String) : Command → Bool
  | .hset x _ => x = r
  | .setTrigger x _ => x = r
  | .sadd x key _ => x = r && key = .members
  | .srem x key _ => x = r && key = .members
  | .del x keys => x = r && keys.any fun key =>
      key = .room || key = .autoBurn || key = .set .members
  | .takeExpired x _ => x = r
  | _ => false

/-- What a run looks at. -/
structure Facets where
  hash : Option RoomHash
  trigger : Option Nat
  members : List String
  expired : List Expired

def facets (r : String) (s : Store) : Facets :=
  ⟨s.hash r, (s.room r).trigger, s.smembers r .members, (s.room r).expired⟩

section Facets

variable {r : String} {s : Store} {c : Command}

theorem now_exec : (exec c s).now = s.now := by
  cases c <;> rfl

theorem facets_atRoom {x : String} {f : RoomKeys → RoomKeys}
    (h : x = r → (f (s.room r)).hash = (s.room r).hash ∧ (f (s.room r)).trigger = (s.room r).trigger
      ∧ (f (s.room r)).sets .members = (s.room r).sets .members
      ∧ (f (s.room r)).expired = (s.room r).expired) :
    facets r (s.atRoom x f) = facets r s := by
  by_cases hx : x = r
  · obtain ⟨hhash, htrigger, hmembers, hexpired⟩ := h hx
    subst hx
    simp only [facets, Store.hash, smembers, atRoom_room, hhash, htrigger, hmembers, hexpired]
  · simp only [facets, Store.hash, smembers, atRoom_room_of_ne s x f (Ne.symm hx)]

theorem del_facets {k : RoomKeys} {keys : List Key} :
    (keys.foldl RoomKeys.del k).trigger = (if .autoBurn ∈ keys then none else k.trigger)
      ∧ (keys.foldl RoomKeys.del k).expired = k.expired := by
  induction keys generalizing k with
  | nil => exact ⟨rfl, rfl⟩
  | cons key keys ih =>
      rw [List.foldl_cons, ih.1, ih.2]
      cases key <;> simp [RoomKeys.del, RoomKeys.withSet]

theorem facets_exec (h : touches r c = false) : facets r (exec c s) = facets r s := by
  have hne : ∀ x : String, decide (x = r) = false → x ≠ r := fun _ => of_decide_eq_false
  cases c with
  | hset x fields =>
      rw [Store.exec]
      exact facets_atRoom fun hx => absurd hx (hne x h)
  | setTrigger x ttl =>
      rw [Store.exec]
      exact facets_atRoom fun hx => absurd hx (hne x h)
  | takeExpired x event =>
      rw [Store.exec]
      exact facets_atRoom fun hx => absurd hx (hne x h)
  | sadd x key v =>
      rw [Store.exec]
      refine facets_atRoom fun hx => ⟨rfl, rfl, ?_, rfl⟩
      rw [withSet_sets, if_neg]
      rintro rfl
      simp [touches, hx] at h
  | srem x key v =>
      rw [Store.exec]
      refine facets_atRoom fun hx => ⟨rfl, rfl, ?_, rfl⟩
      rw [withSet_sets, if_neg]
      rintro rfl
      simp [touches, hx] at h
  | del x keys =>
      rw [Store.exec]
      refine facets_atRoom fun hx => ?_
      have hno : ∀ key ∈ keys, ¬ (key = .room ∨ key = .autoBurn ∨ key = .set .members) := by
        simpa [touches, hx, not_or, and_assoc] using h
      rw [hash_foldl_del, del_facets.1, sets_del, del_facets.2, if_neg fun hk => hno _ hk (.inl rfl),
        if_neg fun hk => hno _ hk (.inr (.inl rfl)), if_neg fun hk => hno _ hk (.inr (.inr rfl))]
      exact ⟨rfl, rfl, rfl, rfl⟩
  | expire | expireMembers | hput | hdel | putJoinRequest | putBundle | removeBundle | setEpoch
  | setMessages =>
      rw [Store.exec]
      exact facets_atRoom fun _ => ⟨rfl, rfl, rfl, rfl⟩
  | _ => rfl

theorem facets_hset {fields : List Field} : facets r (exec (.hset r fields) s)
    = { facets r s with hash := some (Store.hset fields (s.hash r)) } := by
  simp [facets, Store.exec, Store.hash, smembers]

theorem facets_setTrigger {ttl : Nat} : facets r (exec (.setTrigger r ttl) s)
    = { facets r s with trigger := some (s.now + ttl) } := by
  simp [facets, Store.exec, Store.hash, smembers]

theorem facets_sadd {u : String} : facets r (exec (.sadd r .members u) s)
    = { facets r s with members := sadd (s.smembers r .members) u } := by
  simp [facets, Store.exec, Store.hash, smembers, RoomKeys.withSet]

theorem facets_srem {u : String} : facets r (exec (.srem r .members u) s)
    = { facets r s with members := srem (s.smembers r .members) u } := by
  simp [facets, Store.exec, Store.hash, smembers, RoomKeys.withSet]

theorem facets_del {keys : List Key} : facets r (exec (.del r keys) s)
    = ⟨if .room ∈ keys then none else s.hash r,
      if .autoBurn ∈ keys then none else (s.room r).trigger,
      if .set .members ∈ keys then [] else s.smembers r .members, (s.room r).expired⟩ := by
  simp only [facets, Store.exec, Store.hash, smembers, atRoom_room, hash_foldl_del, del_facets.1,
    del_facets.2, sets_del]

theorem facets_takeExpired {event : Expired} : facets r (exec (.takeExpired r event) s)
    = { facets r s with expired := (s.room r).expired.erase event } := by
  simp [facets, Store.exec, Store.hash, smembers]

end Facets

end AutoBurn

end BurnedChats

import BurnedChats.Backend.LiveSessions
import BurnedChats.Backend.RoomFootprint

/-!
# Who listens to a room

What concerns all of a room goes to its topic of the message broker. The
interceptor lets a client subscribe to a topic whose room the user is a member of
then, and the requests that take a member out of a room cut the subscriptions that
the user has. `listeners_are_members` says that this is enough, as long as no
subscription that has passed the check is overtaken by the removal of its user:
whoever is subscribed is a member, or is about to be cut off. A burn, and the
expiry of the member set, cut nothing.

A destination that does not begin with the prefix of rooms is not checked, and
the broker takes it for a pattern.
-/

namespace BurnedChats

namespace RoomTopics

open Program
open Interleave (Conf Server Action forall_turn forall_start)
open LiveSessions (InternalId)

/-! ## Subscriptions -/

def ROOM_TOPIC_PREFIX : String := "/topic/room/"

/-- `user` is the principal of the session, if it has one. -/
structure Subscription where
  sessionId : String
  subscriptionId : String
  user : Option InternalId
  destination : String
deriving DecidableEq

def Subscription.isUsers (s : Subscription) (internalId : String) : Bool :=
  s.user.any (·.val = internalId)

structure World where
  rooms : Rooms.Store
  subscriptions : List Subscription
  delivered : List (Subscription × String)
  errors : List (String × String)

inductive Command where
  | room (command : Rooms.Command)
  | registerSubscription (subscription : Subscription)
  | unsubscribeUserFromRoomTopic (roomId internalId : String)
  | denySubscribe (sessionId errorMessage : String)

/-- A session has one subscription of an id. Nothing is cut where an id is blank. -/
def World.exec (c : Command) (w : World) : World :=
  match c with
  | .room command => { w with rooms := w.rooms.exec command }
  | .registerSubscription s =>
      { w with
        subscriptions := w.subscriptions.filter (fun t =>
          !(t.sessionId = s.sessionId && t.subscriptionId = s.subscriptionId)) ++ [s] }
  | .unsubscribeUserFromRoomTopic roomId internalId =>
      if isBlank roomId || isBlank internalId then w
      else
        { w with
          subscriptions := w.subscriptions.filter fun t =>
            !(t.isUsers internalId && t.destination = ROOM_TOPIC_PREFIX ++ roomId) }
  | .denySubscribe sessionId errorMessage =>
      { w with errors := w.errors ++ [(sessionId, errorMessage)] }

abbrev Prog := Program World Command

/-- `RoomTopicSubscribeInterceptor.preSend`, and the broker's registration of what
it lets through. -/
def preSend (s : Subscription) : Prog Unit :=
  if !ROOM_TOPIC_PREFIX.toList.isPrefixOf s.destination.toList then write (.registerSubscription s)
  else
    let roomId := String.ofList (s.destination.toList.drop ROOM_TOPIC_PREFIX.length)
    if isBlank roomId || roomId.toList.contains '/' then
      write (.denySubscribe s.sessionId "SUBSCRIBE_DENIED: invalid room topic destination")
    else
      match s.user with
      | none =>
          write (.denySubscribe s.sessionId
            "AUTH_ERROR: Authentication required to subscribe to room topics")
      | some internalId => do
          if ← ask fun w => w.rooms.sismember roomId .members internalId.val then
            write (.registerSubscription s)
          else
            write (.denySubscribe s.sessionId
              ("NOT_MEMBER: subscribe denied for room " ++ roomId))

/-! ## Requests -/

inductive Op where
  | room (op : Rooms.Op)
  | subscribe (subscription : Subscription)

/-- The subscriptions of a user to a room are cut after the last command that takes
the user out: a kick, a ban and the burn of a user end with the role, a member
who leaves has the public key removed last. -/
def cutAfter : Rooms.Op → Rooms.Command → Option Command
  | .kick .., .hdel roomId .roles internalId =>
      some (.unsubscribeUserFromRoomTopic roomId internalId)
  | .ban .., .hdel roomId .roles internalId =>
      some (.unsubscribeUserFromRoomTopic roomId internalId)
  | .burnAll .., .hdel roomId .roles internalId =>
      some (.unsubscribeUserFromRoomTopic roomId internalId)
  | .leave .., .hdel roomId .publicKeys internalId =>
      some (.unsubscribeUserFromRoomTopic roomId internalId)
  | _, _ => none

def Op.program : Op → Prog Unit
  | .room op => op.program.weave World.rooms Command.room (cutAfter op)
  | .subscribe s => preSend s

abbrev TopicCall := Call Op World Command Unit

/-- Handlers and clients publish, clients unsubscribe and disconnect. -/
inductive Move where
  | room (move : Rooms.Move)
  | publish (destination : String)
  | unsubscribe (sessionId subscriptionId : String)
  | disconnect (sessionId : String)

/-- `isMatch` is the broker's path matcher, a pattern first. -/
def move (isMatch : String → String → Bool) (m : Move) (w : World) : Option World :=
  match m with
  | .room move => (Rooms.server.env move w.rooms).map fun rooms => { w with rooms := rooms }
  | .publish destination =>
      some { w with
        delivered := w.delivered
          ++ (w.subscriptions.filter (isMatch ·.destination destination)).map (·, destination) }
  | .unsubscribe sessionId subscriptionId =>
      some { w with
        subscriptions := w.subscriptions.filter fun t =>
          !(t.sessionId = sessionId && t.subscriptionId = subscriptionId) }
  | .disconnect sessionId =>
      some { w with subscriptions := w.subscriptions.filter fun t => !(t.sessionId = sessionId) }

def server (isMatch : String → String → Bool) : Server World TopicCall Move :=
  Call.server World.exec Op.program (move isMatch)

abbrev State := Conf World TopicCall

def start (rooms : Rooms.Store) : State := ⟨⟨rooms, [], [], []⟩, []⟩

/-! ## What a removal owes -/

section Removals

open Rooms (Cleanup May)

variable {r u x v : String}

theorem remove_total : (Rooms.RoomMembersRepository.remove x v).Total := by
  intro s s'
  split
  · exact fun _ => trivial
  · trivial

theorem removeRecipientAllEpochs_total :
    (Rooms.RoomKeysRepository.removeRecipientAllEpochs x v).Total :=
  fun _ => total_forEach fun _ _ _ => trivial

/-- What a kick, a ban and a burn do between the member set and the role. -/
def between (x v : String) (p : Rooms.Prog Unit) : Rooms.Prog Unit := do
  Rooms.RoomMemberPublicKeyRepository.remove x v
  Rooms.RoomJoinRequestRepository.remove x v
  Rooms.RoomKeysRepository.removeRecipientAllEpochs x v
  p

theorem between_owes {p : Rooms.Prog Unit} {ψ : Rooms.Command → Prop} (h : p.Owes ψ) :
    (between x v p).Owes ψ := by
  refine owes_bind (fun _ => trivial) fun _ => owes_bind (fun _ _ => trivial) fun _ => ?_
  exact owes_bind removeRecipientAllEpochs_total fun _ => h

/-- The command that takes the user out of the member set. -/
abbrev Removal (r u : String) (c : Rooms.Command) : Prop := c = .srem r .members u

theorem between_all {p : Rooms.Prog Unit} (h : p.All fun c => ¬ Removal r u c) :
    (between x v p).All fun c => ¬ Removal r u c := by
  simp only [between, Rooms.RoomMemberPublicKeyRepository.remove,
    Rooms.RoomJoinRequestRepository.remove, ensures_bind, ensures_write]
  refine ⟨by simp, fun _ _ => ⟨by simp, fun _ _ => ⟨by simp, fun _ _ => ?_⟩⟩⟩
  exact (Rooms.removeRecipientAllEpochs_all fun _ => by simp).mono (fun _ h => h) (fun _ h => h)
    fun _ _ => h

/-- What a request still does for the user after that, it does for whom it removes. -/
theorem removal_follows {p : Rooms.Prog Unit} (last : String → String → Rooms.Command)
    (howes : p.Owes (· = last x v)) (hall : p.All fun c => ¬ Removal r u c) :
    (Rooms.RoomMembersRepository.remove x v >>= fun _ => p).Follows (Removal r u)
      (· = last r u) := by
  by_cases h : x = r ∧ v = u
  · obtain ⟨rfl, rfl⟩ := h
    exact follows_of_owes remove_total (fun _ => howes) fun _ => follows_of_all hall
  · refine follows_of_all ((ensures_bind ..).mpr (Ensures.of_all (Rooms.remove_all fun c hc => ?_)
      fun _ => hall))
    rintro rfl
    cases hc
    exact h ⟨rfl, rfl⟩

abbrev roleRemoved (r u : String) : Rooms.Command := .hdel r .roles u

abbrev keyRemoved (r u : String) : Rooms.Command := .hdel r .publicKeys u

theorem performKickCleanup_follows :
    (Rooms.RoomHandler.performKickCleanup x v).Follows (Removal r u) (· = roleRemoved r u) :=
  removal_follows roleRemoved (between_owes (.inl rfl))
    (between_all ⟨by simp, fun _ _ => trivial⟩)

theorem sendToMembers_follows {members : List String} {event : Rooms.Event}
    {ψ : Rooms.Command → Prop} :
    (Rooms.RoomHandler.sendToMembers members event).Follows (Removal r u) ψ :=
  follows_of_all (Rooms.sendToMembers_all fun _ => by simp)

theorem kickMember_follows {caller : String} :
    (Rooms.RoomHandler.kickMember caller x v).Follows (Removal r u) (· = roleRemoved r u) :=
  (follows_of_all Rooms.requireAdminOrOwner_all).bind fun _ =>
    (follows_of_all Rooms.validateModerationTarget_all).bind fun _ =>
      performKickCleanup_follows.bind fun _ _ => sendToMembers_follows

theorem demand_follows {b : Bool} {error : String} {ψ : Rooms.Command → Prop} :
    (demand b error : Rooms.Prog Unit).Follows (Removal r u) ψ := by
  cases b <;> trivial

theorem banMember_follows {owner : String} :
    (Rooms.RoomHandler.banMember owner x v).Follows (Removal r u) (· = roleRemoved r u) := by
  refine (follows_of_all Rooms.requireOwner_all).bind fun _ => demand_follows.bind fun _ =>
    demand_follows.bind fun _ => Follows.bind (fun _ => trivial) fun _ => ?_
  refine demand_follows.bind fun _ => performKickCleanup_follows.bind fun _ => ?_
  exact fun _ => ⟨fun h => (by cases h), fun _ => sendToMembers_follows⟩

theorem leaveMemberRoom_follows :
    (Rooms.UserBurnService.leaveMemberRoom x v).Follows (Removal r u) (· = roleRemoved r u) := by
  refine Follows.bind (fun _ => trivial) fun isMember => ?_
  split
  · refine removal_follows roleRemoved (between_owes (.inl rfl))
      (between_all ⟨by simp, fun _ _ _ _ => ?_⟩)
    exact ensures_forEach (fun _ _ => ⟨by simp, fun _ _ => trivial⟩) trivial
  · trivial

theorem burnAllForUser_follows {wipe : Bool} :
    (Rooms.UserBurnService.burnAllForUser v wipe).Follows (Removal r u)
      (· = roleRemoved r u) := by
  refine (follows_of_all (Rooms.burnOwnedRooms_all ?_ ?_)).bind fun _ => Follows.bind ?_ fun _ => ?_
  · rintro _ _ _ h rfl
    cases h
  · exact fun _ _ _ h => by cases h
  · refine Follows.bind (fun _ => trivial) fun rooms => follows_forEach fun y _ => ?_
    refine Follows.bind (fun _ => trivial) fun room => ?_
    split
    · trivial
    · split
      · trivial
      · exact leaveMemberRoom_follows.attempt
  · split
    · exact fun _ => ⟨fun h => (by cases h), trivial⟩
    · trivial

theorem leaveRoom_follows :
    (Rooms.RoomHandler.leaveRoom v x).Follows (Removal r u) (· = keyRemoved r u) := by
  refine Follows.bind (fun _ => trivial) fun found => Follows.bind ?_ fun room =>
    demand_follows.bind fun _ => Follows.bind (fun _ => trivial) fun _ => ?_
  · cases found <;> trivial
  · refine demand_follows.bind fun _ => ?_
    refine removal_follows keyRemoved (.inl rfl) ⟨by simp, fun _ _ _ _ => ?_⟩
    exact Rooms.sendToMembers_all fun _ => by simp

/-- The requests that take someone out of a room. -/
def removes : Rooms.Op → Bool
  | .kick .. => true
  | .ban .. => true
  | .leave .. => true
  | .burnAll .. => true
  | _ => false

theorem removes_of_may {op : Rooms.Op} (h : May op (.srem r .members u)) : removes op = true := by
  cases h with
  | kicks | bans | leaves | leavesAll => rfl
  | burnsAll _ _ _ _ _ h => cases h
  | createJoins _ _ _ _ _ _ h => cases h
  | createInvites _ _ _ _ _ _ h => cases h
  | invites _ _ _ _ _ _ h => cases h
  | revokes _ _ _ _ h => cases h
  | joins _ _ _ h => cases h
  | consumes _ _ h => cases h
  | accepts _ _ _ _ h => cases h
  | acceptAnswers _ _ _ _ h => cases h
  | rejects _ _ _ _ h => cases h
  | burns _ _ _ _ h => cases h
  | expires _ _ _ _ h => cases h

theorem exists_last {op : Rooms.Op} (h : removes op = true) : ∃ last,
    cutAfter op last = some (.unsubscribeUserFromRoomTopic r u)
      ∧ op.program.Follows (Removal r u) (· = last) := by
  cases op with
  | kick caller x v => exact ⟨_, rfl, kickMember_follows⟩
  | ban owner x v => exact ⟨_, rfl, banMember_follows⟩
  | leave v x => exact ⟨_, rfl, leaveRoom_follows⟩
  | burnAll v wipe => exact ⟨_, rfl, burnAllForUser_follows⟩
  | _ => cases h

/-- What is added to the commands of a request cuts subscriptions, and does nothing else. -/
theorem of_cutAfter {φ : Command → Prop} (h : ∀ x v, φ (.unsubscribeUserFromRoomTopic x v))
    {op : Rooms.Op} (c : Rooms.Command) : ∀ d ∈ cutAfter op c, φ d := by
  intro d hd
  unfold cutAfter at hd
  split at hd <;> cases hd <;> exact h _ _

/-- The interceptor touches no room. -/
theorem preSend_all {s : Subscription} {φ : Command → Prop} (h : φ (.registerSubscription s))
    (hdeny : ∀ error, φ (.denySubscribe s.sessionId error)) : (preSend s).All φ := by
  unfold preSend
  split
  · exact ⟨h, fun _ _ => trivial⟩
  · dsimp only
    split
    · exact ⟨hdeny _, fun _ _ => trivial⟩
    · split
      · exact ⟨hdeny _, fun _ _ => trivial⟩
      · simp [h, hdeny]

/-- Whoever a request takes out of a room is cut off after that. -/
theorem program_follows (op : Op) :
    op.program.Follows (· = .room (.srem r .members u))
      (· = .unsubscribeUserFromRoomTopic r u) := by
  cases op with
  | subscribe s => exact follows_of_all (preSend_all (by simp) fun _ => by simp)
  | room op =>
      by_cases h : removes op = true
      · obtain ⟨last, hcut, hlast⟩ := exists_last (r := r) (u := u) h
        exact weave_follows hlast (fun c hc => Command.room.inj hc)
          (of_cutAfter fun _ _ => by simp) fun c hc => ⟨_, hc ▸ hcut, rfl⟩
      · refine follows_of_all (weave_all (Rooms.program_may op) (fun c hc he => ?_)
          (of_cutAfter fun _ _ => by simp))
        exact h (removes_of_may (Command.room.inj he ▸ hc))

end Removals

/-! ## Listeners -/

/-- The subscription is the user's, and to the topic of the room. -/
def Subscription.listens (r u : String) (s : Subscription) : Bool :=
  s.isUsers u && s.destination = ROOM_TOPIC_PREFIX ++ r

/-- The call has passed the check of a subscription of the user to the room. -/
def passed (r u : String) (p : TopicCall) : Bool :=
  match p.rest Op.program with
  | .exec (.registerSubscription s) _ => s.listens r u
  | _ => false

def removal (r u : String) : Rooms.Command → Bool
  | .srem x .members v => x = r && v = u
  | _ => false

/-- The user was in the member set and is not any more. -/
def loses (r u : String) (rooms rooms' : Rooms.Store) : Bool :=
  rooms.sismember r .members u && !rooms'.sismember r .members u

/-- The user leaves the member set only by a removal, and only where it overtakes no
subscription of the user that has passed the check. -/
def calm (r u : String) (c : State) : Action TopicCall Move → Bool
  | .turn i =>
      match c.pool[i]?.bind Call.command? with
      | some (_, .room command) =>
          !loses r u c.store.rooms (c.store.rooms.exec command)
            || removal r u command && c.pool.all fun p => !passed r u p
      | _ => true
  | .env (.room move) =>
      (Rooms.server.env move c.store.rooms).all fun rooms => !loses r u c.store.rooms rooms
  | _ => true

section Listeners

variable {isMatch : String → String → Bool} {r u : String} {c : State} {i : Nat}
  {p p' : TopicCall} {s : Subscription} {w' : World}

def Registers (r u : String) (command : Command) : Prop :=
  ∃ s, command = .registerSubscription s ∧ s.listens r u = true

/-- What the interceptor has to find. -/
def Admits (r u : String) (w : World) : Prop :=
  isBlank r = false ∧ w.rooms.sismember r .members u = true

theorem listens_cases (h : s.listens r u = true) :
    (∃ internalId, s.user = some internalId ∧ internalId.val = u)
      ∧ s.destination.toList = ROOM_TOPIC_PREFIX.toList ++ r.toList := by
  simp only [Subscription.listens, Subscription.isUsers, Bool.and_eq_true, Option.any_eq_true,
    decide_eq_true_eq] at h
  exact ⟨h.1, by rw [h.2, String.toList_append]⟩

theorem preSend_checked : (preSend s).Checked (Admits r u) (Registers r u) False := by
  have hdeny : ∀ {b : Prop} {error : String}, (write (.denySubscribe s.sessionId error)
      : Prog Unit).Checked (Admits r u) (Registers r u) b :=
    ⟨fun ⟨_, h, _⟩ => (by cases h), fun _ => trivial⟩
  unfold preSend
  split
  · rename_i hprefix
    refine ⟨fun ⟨t, ht, hl⟩ => ?_, fun _ => trivial⟩
    cases ht
    rw [(listens_cases hl).2, List.isPrefixOf_iff_prefix.mpr (List.prefix_append ..)] at hprefix
    cases hprefix
  · dsimp only
    split
    · exact hdeny
    · rename_i hid
      split
      · exact hdeny
      · rename_i internalId huser
        rw [ask_bind]
        intro w
        dsimp only
        split
        · rename_i hmember
          refine ⟨fun ⟨t, ht, hl⟩ => ?_, fun _ => trivial⟩
          cases ht
          obtain ⟨⟨v, hv, rfl⟩, hdestination⟩ := listens_cases hl
          obtain rfl := Option.some.inj (huser.symm.trans hv)
          have hroom : String.ofList (s.destination.toList.drop ROOM_TOPIC_PREFIX.length) = r := by
            rw [hdestination]
            exact (congrArg String.ofList List.drop_left).trans String.ofList_toList
          rw [hroom] at hid hmember
          simp only [Bool.or_eq_true, not_or, Bool.not_eq_true] at hid
          exact ⟨hid.1, hmember⟩
        · exact hdeny

theorem program_checked (op : Op) :
    op.program.Checked (Admits r u) (Registers r u) False := by
  cases op with
  | subscribe s => exact preSend_checked
  | room op =>
      exact checked_of_all (weave_all (Rooms.program_may op) (fun c _ ⟨_, h, _⟩ => by cases h)
        (of_cutAfter fun _ _ ⟨_, h, _⟩ => by cases h))

/-- Who is subscribed to the topic is a member, or a call is about to cut it. -/
structure Covered (r u : String) (c : State) : Prop where
  listening : ∀ s ∈ c.store.subscriptions, s.listens r u = true → isBlank r = false
    ∧ (c.store.rooms.sismember r .members u = true
      ∨ ∃ p ∈ c.pool, p.Owes Op.program (· = .unsubscribeUserFromRoomTopic r u))
  checked : ∀ p ∈ c.pool,
    (p.rest Op.program).Checked (Admits r u) (Registers r u) (Admits r u c.store)
  follows : ∀ p ∈ c.pool, p.Follows Op.program (· = .room (.srem r .members u))
    (· = .unsubscribeUserFromRoomTopic r u)

theorem admits_of_loses {w w' : World} (h : loses r u w.rooms w'.rooms = false)
    (hw : Admits r u w) : Admits r u w' := by
  refine ⟨hw.1, ?_⟩
  simpa [loses, hw.2] using h

theorem not_registers {command : Command} {next : World → Prog Unit} (h : passed r u p = false)
    (hp : p.rest Op.program = .exec command next) : ¬ Registers r u command := by
  rintro ⟨s, rfl, hs⟩
  rw [passed, hp] at h
  exact absurd (hs.symm.trans h) Bool.noConfusion

theorem loses_self (rooms : Rooms.Store) : loses r u rooms rooms = false := by simp [loses]

/-- A step on which the user stays in the member set. -/
theorem Covered.stays (h : Covered r u c) (hi : c.pool[i]? = some p)
    (hs : (server isMatch).step p c.store = some (w', p'))
    (hstays : loses r u c.store.rooms w'.rooms = false)
    (hchecked : (p'.rest Op.program).Checked (Admits r u) (Registers r u) (Admits r u w'))
    (hlistening : ∀ s ∈ w'.subscriptions, s.listens r u = true → isBlank r = false
      ∧ (w'.rooms.sismember r .members u = true
        ∨ ∃ p ∈ c.pool.set i p', p.Owes Op.program (· = .unsubscribeUserFromRoomTopic r u))) :
    Covered r u ⟨w', c.pool.set i p'⟩ where
  listening := hlistening
  checked := forall_turn (fun q hq => (h.checked q hq).change
    fun _ _ _ _ => admits_of_loses hstays) hchecked
  follows := forall_turn h.follows ((h.follows p (List.mem_of_getElem? hi)).step hs)

/-- Nobody is cut, and no subscription is added. -/
theorem Covered.still (h : Covered r u c) (hi : c.pool[i]? = some p)
    (hs : (server isMatch).step p c.store = some (w', p'))
    (hstays : loses r u c.store.rooms w'.rooms = false)
    (hchecked : (p'.rest Op.program).Checked (Admits r u) (Registers r u) (Admits r u w'))
    (hsubs : ∀ s ∈ w'.subscriptions, s ∈ c.store.subscriptions)
    (hne : ∀ d, p.command? = some (p.op, d) → d ≠ .unsubscribeUserFromRoomTopic r u) :
    Covered r u ⟨w', c.pool.set i p'⟩ := by
  refine h.stays hi hs hstays hchecked fun s hmem hl => ?_
  obtain ⟨hr, hmember | howes⟩ := h.listening s (hsubs s hmem) hl
  · exact ⟨hr, .inl (admits_of_loses hstays ⟨hr, hmember⟩).2⟩
  · exact ⟨hr, .inr (Call.exists_owes_turn hi hs hne howes)⟩

/-- The user is taken out, which the call follows up. -/
theorem Covered.removed (h : Covered r u c) (hi : c.pool[i]? = some p)
    (hs : (server isMatch).step p c.store = some (w', p'))
    (hcmd : p.command? = some (p.op, .room (.srem r .members u)))
    (hpassed : ∀ q ∈ c.pool, passed r u q = false)
    (hchecked : (p'.rest Op.program).Checked (Admits r u) (Registers r u) (Admits r u w'))
    (hsubs : ∀ s ∈ w'.subscriptions, s ∈ c.store.subscriptions) :
    Covered r u ⟨w', c.pool.set i p'⟩ where
  listening s hmem hl := by
    have hp' : p' ∈ c.pool.set i p' := List.mem_set (List.getElem?_eq_some_iff.mp hi).1 p'
    have hfollows := h.follows p (List.mem_of_getElem? hi)
    exact ⟨(h.listening s (hsubs s hmem) hl).1, .inr ⟨p', hp', hfollows.owes hcmd rfl hs⟩⟩
  checked := forall_turn (fun q hq => (h.checked q hq).change
    fun _ _ hexec hφ _ => absurd hφ (not_registers (hpassed q hq) hexec)) hchecked
  follows := forall_turn h.follows ((h.follows p (List.mem_of_getElem? hi)).step hs)

theorem eq_of_removal {command : Rooms.Command} (h : removal r u command = true) :
    command = .srem r .members u := by
  unfold removal at h
  split at h
  · obtain ⟨rfl, rfl⟩ := by simpa using h
    rfl
  · cases h

theorem isBlank_of_listens (h : s.listens r u = true) : isBlank u = false := by
  obtain ⟨⟨internalId, -, rfl⟩, -⟩ := listens_cases h
  exact internalId.property

theorem mem_subscriptions_cut {x v : String} {w : World}
    (h : s ∈ (w.exec (.unsubscribeUserFromRoomTopic x v)).subscriptions) :
    s ∈ w.subscriptions
      ∧ ((isBlank x || isBlank v) = true ∨ s.listens x v = false) := by
  simp only [World.exec] at h
  split at h
  · rename_i hblank
    exact ⟨h, .inl hblank⟩
  · obtain ⟨hmem, hnot⟩ := List.mem_filter.mp h
    exact ⟨hmem, .inr (Bool.not_eq_true' _ ▸ hnot)⟩

theorem rooms_cut {x v : String} {w : World} :
    (w.exec (.unsubscribeUserFromRoomTopic x v)).rooms = w.rooms := by
  simp only [World.exec]
  split <;> rfl

theorem Covered.turn (h : Covered r u c) (hg : calm r u c (.turn i) = true)
    (hi : c.pool[i]? = some p) (hs : (server isMatch).step p c.store = some (w', p')) :
    Covered r u ⟨w', c.pool.set i p'⟩ := by
  have hchecked := h.checked p (List.mem_of_getElem? hi)
  have hidle : p.command? = none →
      ∀ d, p.command? = some (p.op, d) → d ≠ .unsubscribeUserFromRoomTopic r u := by
    intro hnone d hd
    rw [hnone] at hd
    cases hd
  rcases Call.step_rest hs with ⟨rfl, hnone, hrest⟩ | ⟨next, hread, hnone, rfl, hrest⟩ |
    ⟨d, next, hexec, hcmd, rfl, hrest⟩
  · exact h.still hi hs (loses_self _) (hrest ▸ hchecked) (fun _ hs => hs) (hidle hnone)
  · rw [hread] at hchecked
    exact h.still hi hs (loses_self _) (hrest ▸ hchecked _) (fun _ hs => hs) (hidle hnone)
  · rw [hexec] at hchecked
    have hrest' : ∀ {b : Prop}, (p'.rest Op.program).Checked (Admits r u) (Registers r u) b := by
      rw [hrest]
      exact (hchecked.2 _).change fun _ _ _ _ => False.elim
    have hne : d ≠ .unsubscribeUserFromRoomTopic r u →
        ∀ d', p.command? = some (p.op, d') → d' ≠ .unsubscribeUserFromRoomTopic r u := by
      intro hd d' hd'
      obtain ⟨-, rfl⟩ := Prod.mk.inj (Option.some.inj (hcmd.symm.trans hd'))
      exact hd
    cases d with
    | denySubscribe sessionId error =>
        exact h.still hi hs (loses_self _) hrest' (fun _ hs => hs) (hne (by simp))
    | room command =>
        simp only [calm, hi, Option.bind_some, hcmd] at hg
        by_cases hl : loses r u c.store.rooms (c.store.rooms.exec command) = true
        · obtain ⟨hremoval, hpassed⟩ :
              removal r u command = true ∧ ∀ q ∈ c.pool, passed r u q = false := by
            simpa [hl] using hg
          obtain rfl := eq_of_removal hremoval
          exact h.removed hi hs hcmd hpassed hrest' fun _ hs => hs
        · exact h.still hi hs (Bool.eq_false_iff.mpr hl) hrest' (fun _ hs => hs) (hne (by simp))
    | registerSubscription t =>
        refine h.stays hi hs (loses_self _) hrest' fun s hmem hl => ?_
        rcases List.mem_append.mp hmem with hold | hnew
        · obtain ⟨hr, hmember⟩ := h.listening s (List.mem_filter.mp hold).1 hl
          exact ⟨hr, hmember.imp_right (Call.exists_owes_turn hi hs (hne (by simp)))⟩
        · obtain rfl := List.mem_singleton.mp hnew
          -- the check has been made in this very store
          have hadmits := hchecked.1 ⟨s, rfl, hl⟩
          exact ⟨hadmits.1, .inl hadmits.2⟩
    | unsubscribeUserFromRoomTopic x v =>
        have hstays : loses r u c.store.rooms
            (c.store.exec (.unsubscribeUserFromRoomTopic x v)).rooms = false := by
          rw [rooms_cut]
          exact loses_self _
        by_cases hxv : x = r ∧ v = u
        · obtain ⟨rfl, rfl⟩ := hxv
          refine h.stays hi hs hstays hrest' fun s hmem hl => ?_
          obtain ⟨hmem, hblank | hnot⟩ := mem_subscriptions_cut hmem
          · rw [(h.listening s hmem hl).1, isBlank_of_listens hl] at hblank
            cases hblank
          · rw [hl] at hnot
            cases hnot
        · refine h.still hi hs hstays hrest' (fun s hs => (mem_subscriptions_cut hs).1) (hne ?_)
          rintro heq
          cases heq
          exact hxv ⟨rfl, rfl⟩

/-- A move that takes the user out of no member set and adds no subscription. -/
theorem Covered.move (h : Covered r u c) (hstays : loses r u c.store.rooms w'.rooms = false)
    (hsubs : ∀ s ∈ w'.subscriptions, s ∈ c.store.subscriptions) : Covered r u ⟨w', c.pool⟩ where
  listening s hmem hl := by
    obtain ⟨hr, hmember⟩ := h.listening s (hsubs s hmem) hl
    exact ⟨hr, hmember.imp_left fun hm => (admits_of_loses hstays ⟨hr, hm⟩).2⟩
  checked q hq := (h.checked q hq).change fun _ _ _ _ => admits_of_loses hstays
  follows := h.follows

theorem covered_preserved :
    (server isMatch).Preserves (fun c a => calm r u c a = true) (Covered r u) where
  start c p h _ hp := by
    obtain ⟨op, rfl⟩ := Call.opens_eq hp
    refine ⟨fun s hmem hl => ?_, forall_start h.checked ?_,
      forall_start h.follows (program_follows op)⟩
    · obtain ⟨hr, hmember⟩ := h.listening s hmem hl
      exact ⟨hr, hmember.imp_right fun ⟨q, hq, howes⟩ => ⟨q, List.mem_append_left _ hq, howes⟩⟩
    · exact (program_checked op).change fun _ _ _ _ => False.elim
  turn c i p w' p' h hg hi hs := h.turn hg hi hs
  env c e w' h hg hs := by
    cases e with
    | room m =>
        obtain ⟨rooms, hrooms, rfl⟩ := Option.map_eq_some_iff.mp hs
        simp only [calm, hrooms, Option.all_some, Bool.not_eq_true'] at hg
        exact h.move hg fun _ hs => hs
    | publish destination =>
        obtain rfl := Option.some.inj hs
        exact h.move (loses_self _) fun _ hs => hs
    | unsubscribe sessionId subscriptionId =>
        obtain rfl := Option.some.inj hs
        exact h.move (loses_self _) fun _ hs => (List.mem_filter.mp hs).1
    | disconnect sessionId =>
        obtain rfl := Option.some.inj hs
        exact h.move (loses_self _) fun _ hs => (List.mem_filter.mp hs).1

end Listeners

/-! ## Kicks and patterns -/

def sameText (pattern path : String) : Bool := pattern = path

/-- The user of the sample room at the phone. -/
def phone (destination : String) : Subscription :=
  ⟨"s1", "sub-0", some ⟨"u", rfl⟩, destination⟩

/-- A request arrives and takes as many steps. -/
def runs (op : Op) (i steps : Nat) : List (Action TopicCall Move) :=
  .start (.arriving op) :: List.replicate steps (.turn i)

/-- The phone is subscribed to the topic of a room that its user is not in. -/
def overhears (c : State) : Bool :=
  c.store.subscriptions.any (·.listens "r" "u") && !c.store.rooms.sismember "r" .members "u"

/-- A kick that comes between the check and the registration cuts nothing. -/
example : ((server sameText).exec (start Rooms.sampleStore)
    (runs (.subscribe (phone "/topic/room/r")) 0 2 ++ runs (.room (.kick "o" "r" "u")) 1 16
      ++ [.turn 0])).any (fun c => c.pool.all Call.isOver && overhears c) = true := by
  decide +kernel

/-- A pattern is not checked, and its matches hear of every room. -/
example : ((server fun pattern path => pattern = path || pattern = "/topic/**").exec
    (start .empty) (runs (.subscribe (phone "/topic/**")) 0 2
      ++ [.env (.publish "/topic/room/r")])).map (·.store.delivered)
      = some [(phone "/topic/**", "/topic/room/r")] := by
  decide +kernel

end RoomTopics

end BurnedChats

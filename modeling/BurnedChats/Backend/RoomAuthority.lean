import BurnedChats.Backend.RoomBurn

/-!
# Who may manage a room

Authorisation looks at two things: the owner field of the room, and a role that
`setRole` and `transferOwnership` store. Membership is a third, and the removal of
a member must take the role along. Kicks, bans and the burn of a user do; leaving
does not, and who leaves as an admin stays one.

`view` is what the three say of a room, `Effect` what a completed request does to
it, and `admins` who is an admin by the history of requests alone.
`authority_granted` says that the two agree in every run in which no admin
leaves.
-/

namespace BurnedChats

namespace RoomAuthority

open Rooms Store Program RoomBurn

/-! ## What authority depends on -/

/-- The owner, the members and the stored roles of a room. -/
structure View where
  owner : Option String
  member : String → Prop
  role : String → Option String

def owner? (s : Store) (r : String) : Option String := (findRoom s r).map (·.ownerInternalId)

def view (r : String) (s : Store) : View :=
  ⟨owner? s r, fun u => u ∈ s.smembers r .members, fun u => s.hget r .roles u⟩

/-- The command may change the view of the room. -/
def touches (r : String) : Command → Bool
  | .hset x fields => x = r && fields.any fun field =>
      match field with
      | .saved _ => true
      | .ownerInternalId _ => true
      | _ => false
  | .sadd x key _ => x = r && key = .members
  | .srem x key _ => x = r && key = .members
  | .hput x key _ _ => x = r && key = .roles
  | .hdel x key _ => x = r && key = .roles
  | .del x keys => x = r && keys.any fun key =>
      key = .room || key = .set .members || key = .hash .roles
  | _ => false

section View

variable {r u : String} {s : Store} {c : Command}

theorem View.ext' {v w : View} (howner : v.owner = w.owner) (hmember : ∀ u, v.member u ↔ w.member u)
    (hrole : ∀ u, v.role u = w.role u) : v = w := by
  cases v
  cases w
  simp only [View.mk.injEq]
  exact ⟨howner, funext fun u => propext (hmember u), funext hrole⟩

theorem owner?_hash {t : Store} (h : t.hash r = s.hash r) : owner? t r = owner? s r := by
  rw [owner?, owner?, findRoom, findRoom, h]

theorem set_fields {fields : List Field} {hash : RoomHash}
    (h : (fields.any fun field =>
      match field with
      | .saved _ => true
      | .ownerInternalId _ => true
      | _ => false) = false) :
    (fields.foldl RoomHash.set hash).saved = hash.saved
      ∧ (fields.foldl RoomHash.set hash).ownerInternalId = hash.ownerInternalId := by
  induction fields generalizing hash with
  | nil => exact ⟨rfl, rfl⟩
  | cons field fields ih =>
      rw [List.any_cons, Bool.or_eq_false_iff] at h
      have hrest := @ih (hash.set field) h.2
      rw [List.foldl_cons]
      cases field with
      | saved => cases h.1
      | ownerInternalId => cases h.1
      | _ => exact hrest

theorem owner?_eq : owner? s r = (s.hash r).bind fun hash =>
    hash.saved.map fun _ => hash.ownerInternalId := by
  rw [owner?, findRoom]
  cases s.hash r with
  | none => rfl
  | some hash =>
      rw [Option.bind_some, Option.bind_some, RoomHash.parse, Option.map_map]
      rfl

/-- The fields of a setting leave the owner alone. -/
theorem owner?_hset {fields : List Field} (h : touches r (.hset r fields) = false) :
    owner? (exec (.hset r fields) s) r = owner? s r := by
  simp only [touches, decide_true, Bool.true_and] at h
  have hset : ∀ hash : Option RoomHash, (Store.hset fields hash).saved = (hash.getD .empty).saved
      ∧ (Store.hset fields hash).ownerInternalId = (hash.getD .empty).ownerInternalId :=
    fun hash => set_fields h
  rw [owner?_eq, owner?_eq, hash_hset, if_pos rfl, Option.bind_some, (hset _).1, (hset _).2]
  cases s.hash r <;> rfl

theorem view_exec (h : touches r c = false) : view r (exec c s) = view r s := by
  have hown : c.writesHash = false → owner? (exec c s) r = owner? s r :=
    fun hw => owner?_hash (by rw [hash_exec hw])
  have hmem : c.writesSet = false →
      ∀ u, u ∈ (exec c s).smembers r .members ↔ u ∈ s.smembers r .members :=
    fun hw u => by rw [smembers_exec hw]
  have hrole : c.writesFields = false → ∀ u, (exec c s).hget r .roles u = s.hget r .roles u :=
    fun hw u => by rw [hget_exec hw]
  cases c with
  | hset x fields =>
      refine View.ext' ?_ (hmem rfl) (hrole rfl)
      by_cases hx : x = r
      · subst hx
        exact owner?_hset h
      · exact owner?_hash (by rw [hash_hset, if_neg (Ne.symm hx)])
  | sadd x key v =>
      refine View.ext' (hown rfl) (fun u => ?_) (hrole rfl)
      simp only [touches, Bool.and_eq_false_iff, decide_eq_false_iff_not] at h
      simp only [view, mem_smembers_sadd]
      exact ⟨fun hu => hu.resolve_right fun he => h.elim (fun hr => hr he.1.symm) fun hk =>
        hk he.2.1.symm, .inl⟩
  | srem x key v =>
      refine View.ext' (hown rfl) (fun u => ?_) (hrole rfl)
      simp only [touches, Bool.and_eq_false_iff, decide_eq_false_iff_not] at h
      simp only [view, mem_smembers_srem]
      exact ⟨And.left, fun hu => ⟨hu, fun he => h.elim (fun hr => hr he.1.symm) fun hk =>
        hk he.2.1.symm⟩⟩
  | hput x key field value =>
      refine View.ext' (hown rfl) (hmem rfl) fun u => ?_
      simp only [touches, Bool.and_eq_false_iff, decide_eq_false_iff_not] at h
      simp only [view, hget_hput]
      exact if_neg fun he => h.elim (fun hr => hr he.1.symm) fun hk => hk he.2.1.symm
  | hdel x key field =>
      refine View.ext' (hown rfl) (hmem rfl) fun u => ?_
      simp only [touches, Bool.and_eq_false_iff, decide_eq_false_iff_not] at h
      simp only [view, hget_hdel]
      exact if_neg fun he => h.elim (fun hr => hr he.1.symm) fun hk => hk he.2.1.symm
  | del x keys =>
      have hno : ∀ key, key = .room ∨ key = .set .members ∨ key = .hash .roles →
          ¬ (r = x ∧ key ∈ keys) := by
        rintro key hkey ⟨rfl, hmem⟩
        simp only [touches, decide_true, Bool.true_and, List.any_eq_false] at h
        rcases hkey with rfl | rfl | rfl <;> simpa using h _ hmem
      refine View.ext' (owner?_hash ?_) (fun u => ?_) fun u => ?_
      · rw [hash_del, if_neg (hno _ (.inl rfl))]
      · simp only [view, mem_smembers_del]
        exact ⟨And.left, fun hu => ⟨hu, hno _ (.inr (.inl rfl))⟩⟩
      · simp only [view, hget_del]
        exact if_neg (hno _ (.inr (.inr rfl)))
  | _ => exact View.ext' (hown rfl) (hmem rfl) (hrole rfl)

/-! ### The commands that change it -/

def View.join (v : View) (u : String) : View := { v with member := fun y => v.member y ∨ y = u }

def View.remove (v : View) (u : String) : View := { v with member := fun y => v.member y ∧ y ≠ u }

def View.setRole (v : View) (u : String) (role : Option String) : View :=
  { v with role := Function.update v.role u role }

def View.setOwner (v : View) (owner : String) : View := { v with owner := some owner }

def View.gone : View := ⟨none, fun _ => False, fun _ => none⟩

theorem view_sadd : view r (exec (.sadd r .members u) s) = (view r s).join u := by
  refine View.ext' (owner?_hash (by rw [hash_exec rfl])) (fun y => ?_) fun y => ?_
  · simp [view, View.join]
  · simp only [view, View.join]
    rw [hget_exec rfl]

theorem view_srem : view r (exec (.srem r .members u) s) = (view r s).remove u := by
  refine View.ext' (owner?_hash (by rw [hash_exec rfl])) (fun y => ?_) fun y => ?_
  · simp [view, View.remove]
  · simp only [view, View.remove]
    rw [hget_exec rfl]

theorem view_hput {role : String} :
    view r (exec (.hput r .roles u role) s) = (view r s).setRole u (some role) := by
  refine View.ext' (owner?_hash (by rw [hash_exec rfl])) (fun y => ?_) fun y => ?_
  · simp only [view, View.setRole]
    rw [smembers_exec rfl]
  · simp [view, View.setRole, hget_hput, Function.update_apply]

theorem view_hdel : view r (exec (.hdel r .roles u) s) = (view r s).setRole u none := by
  refine View.ext' (owner?_hash (by rw [hash_exec rfl])) (fun y => ?_) fun y => ?_
  · simp only [view, View.setRole]
    rw [smembers_exec rfl]
  · simp [view, View.setRole, hget_hdel, Function.update_apply]

theorem view_hset_owner {owner : String} (h : (view r s).owner.isSome) :
    view r (exec (.hset r [.ownerInternalId owner]) s) = (view r s).setOwner owner := by
  refine View.ext' ?_ (fun y => ?_) fun y => ?_
  · simp only [view, View.setOwner, owner?_eq] at h ⊢
    rw [hash_hset, if_pos rfl]
    cases hh : s.hash r with
    | none => simp [hh] at h
    | some hash =>
        rw [hh, Option.bind_some, Option.isSome_map] at h
        obtain ⟨saved, hsaved⟩ := Option.isSome_iff_exists.mp h
        simp [Store.hset, RoomHash.set, hsaved]
  · simp only [view, View.setOwner]
    rw [smembers_exec rfl]
  · simp only [view, View.setOwner]
    rw [hget_exec rfl]

theorem view_hset_saved {saved : Saved} {owner name iv : String} {readOnly : Bool} :
    view r (exec (.hset r [.saved saved, .ownerInternalId owner, .nameEncrypted name, .nameIv iv,
      .readOnly readOnly]) s) = (view r s).setOwner owner := by
  refine View.ext' ?_ (fun y => ?_) fun y => ?_
  · simp only [view, View.setOwner, owner?_eq]
    rw [hash_hset, if_pos rfl]
    simp [Store.hset, RoomHash.set]
  · simp only [view, View.setOwner]
    rw [smembers_exec rfl]
  · simp only [view, View.setOwner]
    rw [hget_exec rfl]

theorem view_gone (hroom : ¬ has (s.room r) .room) (hmembers : ¬ has (s.room r) (.set .members))
    (hroles : ¬ has (s.room r) (.hash .roles)) : view r s = .gone := by
  have hnone : s.hash r = none := by simpa [has, Store.hash] using hroom
  have hempty : s.smembers r .members = [] := not_not.mp hmembers
  refine View.ext' (by simp [view, View.gone, owner?_eq, hnone]) (fun y => ?_) fun y => ?_
  · simp [view, View.gone, hempty]
  · simp only [has, not_exists, Bool.not_eq_true, Option.isSome_eq_false_iff,
      Option.isNone_iff_eq_none] at hroles
    exact hroles y

theorem View.remove_removed {v : View} : (((v.remove u).setRole u none).remove u).setRole u none
    = (v.remove u).setRole u none := by
  refine View.ext' rfl (fun y => ?_) fun y => ?_
  · simp [View.remove, View.setRole]
  · simp [View.remove, View.setRole]

theorem View.remove_gone : (View.gone.remove u).setRole u none = .gone := by
  refine View.ext' rfl (fun y => ?_) fun y => ?_
  · simp [View.remove, View.setRole, View.gone]
  · simp [View.remove, View.setRole, View.gone]

/-- What `isOwner` says of the room that is found. -/
def View.IsOwner (v : View) (u : String) : Prop := v.owner = some u ∧ hasText u = true

theorem isOwner_iff {room : Room} (h : findRoom s r = some room) :
    RoomService.isOwner room u = true ↔ (view r s).IsOwner u := by
  have howner : (view r s).owner = some room.ownerInternalId := by simp [view, owner?, h]
  rw [View.IsOwner, howner, RoomService.isOwner, Bool.and_eq_true, beq_iff_eq, Option.some_inj]
  constructor
  · rintro ⟨ht, rfl⟩
    exact ⟨rfl, ht⟩
  · rintro ⟨rfl, ht⟩
    exact ⟨ht, rfl⟩

end View

/-! ## Requests that leave the view alone -/

/-- The room whose view a request may change. A join and the burn of a user say
only while they run which rooms they are about. -/
def about : Op → Option String
  | .createRoom _ request uuid _ _ => some (RoomService.roomIdOf request uuid)
  | .acceptJoin _ r _ => some r
  | .burn _ r => some r
  | .kick _ r _ => some r
  | .ban _ r _ => some r
  | .setRole _ r _ _ => some r
  | .transferOwnership _ r _ => some r
  | .leave _ r => some r
  | .expired r _ => some r
  | _ => none

def elsewhere (r : String) : Op → Prop
  | .requestJoin _ => False
  | .burnAll .. => False
  | op => about op ≠ some r

theorem cascade_touches {r x : String} {part : Part} {c : Command} (h : Cascade x part c)
    (hx : x ≠ r) : touches r c = false := by
  cases h <;> simp [touches, hx]

theorem cleanup_touches {r x u : String} {c : Command} (h : Cleanup x u c) (hx : x ≠ r) :
    touches r c = false := by
  cases h <;> simp [touches, hx]

theorem joining_touches {r x u : String} {c : Command} (h : Joining x u c) (hx : x ≠ r) :
    touches r c = false := by
  cases h <;> simp [touches, hx]

theorem answering_touches {r x u : String} {c : Command} (h : Answering x u c) :
    touches r c = false := by
  cases h <;> simp [touches]

theorem revoking_touches {r : String} {c : Command} (h : Revoking c) : touches r c = false := by
  cases h <;> simp [touches]

theorem inviting_touches {r x token : String} {c : Command} (h : Inviting x token c) :
    touches r c = false := by
  cases h <;> simp [touches]

theorem setting_touches {r x : String} {op : Op} {field : Field} (h : op.setting field) :
    touches r (.hset x [field]) = false := by
  cases field with
  | saved => cases op <;> exact h.elim
  | ownerInternalId => cases op <;> exact h.elim
  | _ => simp [touches]

theorem may_touches {r : String} {op : Op} {c : Command} (hop : elsewhere r op) (h : May op c) :
    touches r c = false := by
  have hne : ∀ {x : String}, some x ≠ some r → x ≠ r := fun h he => h (he ▸ rfl)
  cases h with
  | create => simp [touches, hne hop]
  | createJoins _ _ _ _ _ _ h => exact joining_touches h (hne hop)
  | createInvites _ _ _ _ _ _ h => exact inviting_touches h
  | invites _ _ _ _ _ _ h => exact inviting_touches h
  | revokes _ _ _ _ h => exact revoking_touches h
  | accepts _ _ _ _ h => exact joining_touches h (hne hop)
  | acceptAnswers _ _ _ _ h => exact answering_touches h
  | rejects _ _ _ _ h => exact answering_touches h
  | sets op x field hr h => exact setting_touches h
  | burns _ _ _ _ h => exact cascade_touches h (hne hop)
  | kicks _ _ _ _ h => exact cleanup_touches h (hne hop)
  | bans _ _ _ _ h => exact cleanup_touches h (hne hop)
  | promotes => simp [touches, hne hop]
  | demotes => simp [touches, hne hop]
  | transfers => simp [touches, hne hop]
  | transferPromotes => simp [touches, hne hop]
  | transferClears => simp [touches, hne hop]
  | leaves _ _ _ h => exact cleanup_touches h (hne hop)
  | expires _ _ _ _ h => exact cascade_touches h (hne hop)
  | _ => first | exact hop.elim | simp [touches]

section Still

variable {r u : String} {s : Store} {v : View} {α : Type} {p : Prog α}

/-- A program whose commands do not touch the view. -/
theorem still (h : p.All (touches r · = false)) (hv : view r s = v) :
    p.wp Store.exec (fun _ t => view r t = v) (fun t => view r t = v) s :=
  wp_of_all h (fun _ _ hc ht => (view_exec hc).trans ht) hv

theorem still_then {Q : α → Store → Prop} {E : Store → Prop} (h : p.All (touches r · = false))
    (hv : view r s = v) (hQ : ∀ a t, view r t = v → Q a t) (hE : ∀ t, view r t = v → E t) :
    p.wp Store.exec Q E s :=
  wp_mono (still h hv) hQ hE

/-! ### Checks -/

theorem requireOwner_view {Q : Room → Store → Prop} {E : Store → Prop} (hE : E s)
    (hQ : ∀ room, findRoom s r = some room → (view r s).IsOwner u → Q room s) :
    (RoomService.requireOwner r u).wp Store.exec Q E s := by
  simp only [RoomService.requireOwner, RoomRepository.findById, wp_bind, wp_ask, wp_found,
    wp_demand, pure_eq, wp_done]
  exact ⟨fun room hfound => ⟨fun how => hQ room hfound ((isOwner_iff hfound).mp how),
    fun _ => hE⟩, fun _ => hE⟩

theorem requireAdminOrOwner_view {Q : Room → Store → Prop} {E : Store → Prop} (hE : E s)
    (hQ : ∀ room, findRoom s r = some room → Q room s) :
    (RoomService.requireAdminOrOwner r u).wp Store.exec Q E s := by
  simp only [RoomService.requireAdminOrOwner, RoomRepository.findById, RoomService.roleOf,
    RoomRolesRepository.getStoredRole, wp_bind, wp_ask, wp_found, wp_demand, wp_ite, pure_eq,
    wp_done]
  exact ⟨fun room hfound => ⟨fun _ => ⟨fun _ => hQ room hfound, fun _ => hE⟩,
    fun _ => ⟨fun _ => hQ room hfound, fun _ => hE⟩⟩, fun _ => hE⟩

theorem validateModerationTarget_view {Q : Unit → Store → Prop} {E : Store → Prop} {room : Room}
    {actor : String} (hfound : findRoom s r = some room) (hE : E s)
    (hQ : ¬ (view r s).IsOwner u → Q () s) :
    (RoomService.validateModerationTarget r room actor u).wp Store.exec Q E s := by
  have hrole : ∀ (x : String) (P : RoomRole → Store → Prop), (∀ role, P role s) →
      (RoomService.roleOf r room x).wp Store.exec P E s := by
    intro x P hP
    simp only [RoomService.roleOf, RoomRolesRepository.getStoredRole, wp_bind, wp_ask, wp_ite,
      pure_eq, wp_done]
    exact ⟨fun _ => hP _, fun _ => hP _⟩
  simp only [RoomService.validateModerationTarget, RoomMembersRepository.isMember, wp_bind,
    wp_demand]
  refine ⟨fun _ => ⟨fun hnot => ?_, fun _ => hE⟩, fun _ => hE⟩
  have hno : ¬ (view r s).IsOwner u := by
    rw [← isOwner_iff hfound]
    simpa using hnot
  refine hrole _ _ fun actorRole => (wp_bind ..).mpr (hrole _ _ fun targetRole => ?_)
  simp only [wp_bind, wp_ask, wp_demand]
  exact ⟨fun _ => ⟨fun _ => hQ hno, fun _ => hE⟩, fun _ => hE⟩

/-! ### Removals -/

theorem remove_view : (RoomMembersRepository.remove r u).wp Store.exec
    (fun _ t => view r t = (view r s).remove u) (fun _ => False) s := by
  simp only [RoomMembersRepository.remove, wp_bind, wp_call, wp_write, wp_ite, pure_eq, wp_done]
  have hreverse : view r (exec (.removeRoom u r) (exec (.srem r .members u) s))
      = (view r s).remove u := by
    rw [view_exec (by simp [touches]), view_srem]
  refine ⟨fun _ => ?_, fun _ => hreverse⟩
  rw [view_exec (by simp [touches]), hreverse]

/-- Loops of commands that do not touch the view. -/
theorem forEach_view {β : Type} {l : List β} {f : β → Command} (h : ∀ x, touches r (f x) = false)
    (hv : view r s = v) : (forEach l fun x => (write (f x) : Prog Unit)).wp Store.exec
      (fun _ t => view r t = v) (fun _ => False) s :=
  wp_forEach (I := fun t => view r t = v)
    (fun x _ _ ht => (wp_write _).mpr ((view_exec (h x)).trans ht)) hv fun _ h => h

theorem removeRecipientAllEpochs_view (hv : view r s = v) :
    (RoomKeysRepository.removeRecipientAllEpochs r u).wp Store.exec
      (fun _ t => view r t = v) (fun _ => False) s :=
  (wp_bind ..).mpr ((wp_ask _).mpr (forEach_view (fun _ => rfl) hv))

theorem sendToMembers_view {members : List String} {event : Event} (hv : view r s = v) :
    (RoomHandler.sendToMembers members event).wp Store.exec
      (fun _ t => view r t = v) (fun _ => False) s :=
  forEach_view (fun _ => rfl) hv

theorem performKickCleanup_view : (RoomHandler.performKickCleanup r u).wp Store.exec
    (fun _ t => view r t = ((view r s).remove u).setRole u none) (fun _ => False) s := by
  refine wp_seq remove_view fun _ t ht => ?_
  simp only [RoomMemberPublicKeyRepository.remove, RoomJoinRequestRepository.remove,
    RoomRolesRepository.remove, wp_bind, wp_write]
  have hmid : view r (exec (.srem r .joinRequests u) (exec (.del r [.joinRequest u])
      (exec (.hdel r .publicKeys u) t))) = (view r s).remove u := by
    rw [view_exec (by simp [touches]), view_exec (by simp [touches]),
      view_exec (by simp [touches]), ht]
  refine wp_mono (removeRecipientAllEpochs_view hmid) (fun _ t' ht' => ?_) fun _ h => h
  rw [wp_write, view_hdel, ht']

/-! ## What requests do to it -/

/-- The request may promote or demote in the room. -/
def changesRoles (r : String) : Op → Bool
  | .setRole _ x _ _ => x = r
  | .transferOwnership _ x _ => x = r
  | _ => false

/-- What a completed request has done to the view of a room. -/
inductive Effect (r : String) : Op → View → View → Prop
  | same {op : Op} {v : View} (hop : changesRoles r op = false) : Effect r op v v
  | created {owner uuid token : String} {request : CreateRoomRequest} {expiresAt : Nat} {v : View}
      (hr : RoomService.roomIdOf request uuid = r) (h : v.owner = none) :
      Effect r (.createRoom owner request uuid token expiresAt) v ((v.setOwner owner).join owner)
  | joined {op : Op} {v : View} {u : String} (hop : changesRoles r op = false)
      (h : v.owner.isSome) : Effect r op v (v.join u)
  | left {u : String} {v : View} (h : ¬ v.IsOwner u) : Effect r (.leave u r) v (v.remove u)
  | removed {op : Op} {v : View} {u : String} (hop : changesRoles r op = false)
      (h : ¬ v.IsOwner u) : Effect r op v ((v.remove u).setRole u none)
  | promoted {owner u role : String} {v : View} (howner : v.IsOwner owner) (h : v.member u)
      (hrole : role = RoomRole.admin.apiValue) :
      Effect r (.setRole owner r u role) v (v.setRole u (some RoomRole.admin.apiValue))
  | demoted {owner u role : String} {v : View} (howner : v.IsOwner owner)
      (hrole : role ≠ RoomRole.admin.apiValue) :
      Effect r (.setRole owner r u role) v (v.setRole u none)
  | transferred {owner u : String} {v : View} (h : v.IsOwner owner) (hne : owner ≠ u)
      (hmember : v.member u) : Effect r (.transferOwnership owner r u) v
        (((v.setOwner u).setRole owner (some RoomRole.admin.apiValue)).setRole u none)
  | burned {op : Op} {v : View} (hop : changesRoles r op = false) : Effect r op v .gone

/-- What the request does, if it completes; if it fails, it has done nothing. -/
abbrev Does (r : String) (op : Op) (s : Store) (p : Prog Unit) : Prop :=
  p.wp Store.exec (fun _ t => Effect r op (view r s) (view r t))
    (fun t => view r t = view r s) s

theorem kick_does {caller : String} :
    Does r (.kick caller r u) s (RoomHandler.kickMember caller r u) := by
  refine (wp_bind ..).mpr (requireAdminOrOwner_view rfl fun room hfound => ?_)
  refine (wp_bind ..).mpr (validateModerationTarget_view hfound rfl fun hno => ?_)
  refine (wp_bind ..).mpr (wp_mono performKickCleanup_view (fun _ t ht => ?_) fun _ h => h.elim)
  refine (wp_bind ..).mpr ((wp_ask _).mpr ?_)
  exact wp_mono (sendToMembers_view ht) (fun _ t' ht' => ht' ▸ .removed rfl hno) fun _ h => h.elim

theorem ban_does {owner : String} :
    Does r (.ban owner r u) s (RoomHandler.banMember owner r u) := by
  refine (wp_bind ..).mpr (requireOwner_view rfl fun room hfound _ => ?_)
  simp only [RoomMembersRepository.isMember, wp_bind, wp_demand, wp_ask]
  refine ⟨fun _ => ⟨fun hnot => ⟨fun _ => ?_, fun _ => trivial⟩, fun _ => trivial⟩,
    fun _ => trivial⟩
  have hno : ¬ (view r s).IsOwner u := by
    rw [← isOwner_iff hfound]
    simpa using hnot
  refine wp_mono performKickCleanup_view (fun _ t ht => ?_) fun _ h => h.elim
  simp only [RoomBansRepository.add, RoomMembersRepository.getMembers, wp_bind, wp_write, wp_ask]
  have hban : view r (exec (.sadd r .bans u) t) = ((view r s).remove u).setRole u none := by
    rw [view_exec (by simp [touches]), ht]
  exact wp_mono (sendToMembers_view hban) (fun _ t' ht' => ht' ▸ .removed rfl hno)
    fun _ h => h.elim

theorem leave_does : Does r (.leave u r) s (RoomHandler.leaveRoom u r) := by
  simp only [Does, RoomHandler.leaveRoom, RoomRepository.findById, RoomMembersRepository.isMember,
    wp_bind, wp_ask, wp_found, wp_demand]
  refine ⟨fun room hfound => ⟨fun hnot => ⟨fun _ => ?_, fun _ => trivial⟩, fun _ => trivial⟩,
    fun _ => trivial⟩
  have hno : ¬ (view r s).IsOwner u := by
    rw [← isOwner_iff hfound]
    simpa using hnot
  refine wp_mono remove_view (fun _ t ht => ?_) fun _ h => h.elim
  simp only [RoomMemberPublicKeyRepository.remove, RoomMembersRepository.getMembers, wp_bind,
    wp_write, wp_ask]
  have hkey : view r (exec (.hdel r .publicKeys u) t) = (view r s).remove u := by
    rw [view_exec (by simp [touches]), ht]
  exact wp_mono (sendToMembers_view hkey) (fun _ t' ht' => ht' ▸ .left hno) fun _ h => h.elim

theorem parseAssignableRole_admin {role : String} {requested : RoomRole}
    (h : RoomService.parseAssignableRole role = some requested) :
    requested = .admin ↔ role = RoomRole.admin.apiValue := by
  unfold RoomService.parseAssignableRole at h
  split at h
  · rename_i hadmin
    exact ⟨fun _ => hadmin, fun _ => (Option.some.inj h).symm⟩
  · rename_i hnot
    split at h
    · refine ⟨fun he => ?_, fun he => absurd he hnot⟩
      rw [he] at h
      cases h
    · cases h

theorem setRole_does {owner role : String} :
    Does r (.setRole owner r u role) s (RoomService.setRole r owner u role) := by
  simp only [Does, RoomService.setRole, wp_bind, wp_found]
  refine ⟨fun requested hrole => requireOwner_view rfl fun room hfound howner => ?_,
    fun _ => trivial⟩
  have hadmin := parseAssignableRole_admin hrole
  simp only [RoomMembersRepository.isMember, RoomRolesRepository.setRole,
    RoomRolesRepository.remove, wp_bind, wp_demand, wp_ask, wp_ite, wp_write]
  refine ⟨fun _ => ⟨fun hmember => ⟨fun he => ?_, fun he => ?_⟩, fun _ => trivial⟩,
    fun _ => trivial⟩
  · rw [view_hput]
    exact .promoted howner (by simpa [view, sismember] using hmember) (hadmin.mp he)
  · rw [view_hdel]
    exact .demoted howner fun hrole => he (hadmin.mpr hrole)

theorem applyTtl_still {ttl : Nat} (hv : view r s = v) :
    (RoomRepository.applyTtl r ttl).wp Store.exec
      (fun _ t => view r t = v) (fun _ => False) s := by
  simp only [RoomRepository.applyTtl, wp_ite, pure_eq, wp_done, wp_write]
  exact ⟨fun _ => hv, fun _ => by rw [view_exec rfl, hv]⟩

theorem extendTtl_still {ttl : Nat} (hv : view r s = v) :
    (RoomRepository.extendTtl r ttl).wp Store.exec
      (fun _ t => view r t = v) (fun _ => False) s := by
  simp only [RoomRepository.extendTtl, RoomRepository.findById, clock, wp_bind, wp_ask]
  split
  · exact (wp_bind ..).mpr (applyTtl_still hv)
  · exact applyTtl_still hv

theorem refreshTtl_still (hv : view r s = v) : (RoomRepository.refreshTtl r).wp Store.exec
    (fun _ t => view r t = v) (fun _ => False) s :=
  extendTtl_still hv

theorem transferOwnership_does {owner : String} :
    Does r (.transferOwnership owner r u) s (RoomHandler.transferOwnership owner r u) := by
  simp only [Does, RoomHandler.transferOwnership, RoomService.transferOwnership, wp_bind,
    wp_demand]
  refine ⟨fun hne => requireOwner_view rfl fun room hfound howner => ?_, fun _ => trivial⟩
  have hprevious : room.ownerInternalId = owner := by
    have hview : (view r s).owner = some room.ownerInternalId := by simp [view, owner?, hfound]
    exact Option.some.inj (hview.symm.trans howner.1)
  simp only [RoomMembersRepository.isMember, RoomRepository.updateOwnerInternalId,
    RoomRolesRepository.setRole, RoomRolesRepository.remove, wp_bind, wp_demand, wp_ask, wp_write]
  refine ⟨fun hmember => ?_, fun _ => trivial⟩
  have hset : view r (exec (.hset r [.ownerInternalId u]) s) = (view r s).setOwner u :=
    view_hset_owner (by rw [howner.1]; rfl)
  refine wp_mono (refreshTtl_still hset) (fun _ t ht => ?_) fun _ h => h.elim
  rw [wp_bind, wp_write, wp_write, view_hdel, view_hput, ht, hprevious]
  exact .transferred howner (by simpa using hne) (by simpa [view, sismember] using hmember)

/-! ### Joins -/

theorem putPublicKey_still {key : Option String} (hv : view r s = v) :
    (RoomMemberPublicKeyRepository.put r u key).wp Store.exec
      (fun _ t => view r t = v) (fun _ => False) s := by
  unfold RoomMemberPublicKeyRepository.put
  split
  · exact hv
  · simp only [wp_ite, pure_eq, wp_done, wp_write]
    exact ⟨fun _ => by rw [view_exec (by simp [touches]), hv], fun _ => hv⟩

theorem add_view : (RoomMembersRepository.add r u).wp Store.exec
    (fun _ t => view r t = (view r s).join u) (fun _ => False) s := by
  simp only [RoomMembersRepository.add, wp_bind, wp_write]
  rw [view_exec rfl, view_exec rfl, view_sadd]

theorem createRoom_does {owner uuid token : String} {request : CreateRoomRequest} {expiresAt : Nat}
    (hr : RoomService.roomIdOf request uuid = r)
    (hfresh : (request.proposedRoomId.filter hasText).isSome = false → findRoom s r = none) :
    Does r (.createRoom owner request uuid token expiresAt) s
      (RoomHandler.createRoom owner request uuid token expiresAt) := by
  subst hr
  -- the collision check, and what is written where there is no collision
  have hsave : (RoomRepository.save (RoomService.roomIdOf request uuid)
        [.saved ⟨request.joinMode, request.passwordProofHash⟩, .ownerInternalId owner,
          .nameEncrypted request.nameEncrypted, .nameIv request.nameIv, .readOnly false] >>=
        fun _ => RoomMembersRepository.add (RoomService.roomIdOf request uuid) owner).wp Store.exec
          (fun _ t => view (RoomService.roomIdOf request uuid) t
            = ((view (RoomService.roomIdOf request uuid) s).setOwner owner).join owner)
          (fun _ => False) s := by
    simp only [RoomRepository.save, wp_bind, wp_write]
    refine wp_mono (applyTtl_still view_hset_saved) (fun _ t ht => ?_) fun _ h => h.elim
    exact wp_mono add_view (fun _ t' ht' => by rw [ht', ht]) fun _ h => h.elim
  have hcreate : (RoomService.createRoom owner request uuid).wp Store.exec
      (fun _ t => (view (RoomService.roomIdOf request uuid) s).owner = none
        ∧ view (RoomService.roomIdOf request uuid) t
          = ((view (RoomService.roomIdOf request uuid) s).setOwner owner).join owner)
      (fun t => view (RoomService.roomIdOf request uuid) t
        = view (RoomService.roomIdOf request uuid) s) s := by
    unfold RoomService.createRoom
    have hnone : findRoom s (RoomService.roomIdOf request uuid) = none →
        (view (RoomService.roomIdOf request uuid) s).owner = none := fun h => by
      simp [view, owner?, h]
    split
    · simp only [RoomRepository.findById, wp_bind, wp_ask, wp_demand]
      refine ⟨fun hfree => (wp_bind ..).mp ?_, fun _ => trivial⟩
      have hfind : findRoom s (RoomService.roomIdOf request uuid) = none := by
        simpa [findRoom, Store.hash] using hfree
      exact wp_mono hsave (fun _ t ht => ⟨hnone hfind, ht⟩) fun _ h => h.elim
    · rename_i hprop
      have hfind := hfresh (by simpa using hprop)
      exact wp_mono hsave (fun _ t ht => ⟨hnone hfind, ht⟩) fun _ h => h.elim
  refine (wp_bind ..).mpr (wp_mono hcreate (fun _ t ht => ?_) fun _ h => h)
  refine (wp_bind ..).mpr (wp_attempt (still_then (generateInviteLink_all
    fun _ => inviting_touches) ht.2 (fun _ t' ht' => ?_) fun t' ht' => ?_))
  all_goals
    exact wp_mono (putPublicKey_still ht') (fun _ t'' ht'' => ht'' ▸ .created rfl ht.1)
      fun _ h => h.elim

theorem acceptJoin_does {owner : String} :
    Does r (.acceptJoin owner r u) s (RoomHandler.acceptRoomJoin owner r u) := by
  simp only [Does, RoomHandler.acceptRoomJoin, RoomJoinService.acceptJoin,
    RoomJoinService.loadRoomAsOwner, RoomRepository.findById, RoomJoinService.ensureNotBanned,
    RoomBansRepository.isBanned, RoomJoinRequestRepository.findByRoomAndSender, wp_bind, wp_ask,
    wp_found, wp_demand, pure_eq, wp_done]
  refine ⟨fun room hfound => ⟨fun _ => ⟨fun _ => ⟨fun request _ => ?_, fun _ => trivial⟩,
    fun _ => trivial⟩, fun _ => trivial⟩, fun _ => trivial⟩
  have howner : (view r s).owner.isSome := by
    have hroom : findRoom s r = some room := hfound
    simp [view, owner?, hroom]
  refine wp_mono add_view (fun _ t ht => ?_) fun _ h => h.elim
  refine (wp_bind ..).mpr (wp_mono (putPublicKey_still ht) (fun _ t₁ h₁ => ?_) fun _ h => h.elim)
  simp only [RoomJoinRequestRepository.remove, wp_bind, wp_write]
  have h₂ : view r (exec (.srem r .joinRequests u) (exec (.del r [.joinRequest u]) t₁))
      = (view r s).join u := by
    rw [view_exec (by simp [touches]), view_exec (by simp [touches]), h₁]
  refine wp_mono (extendTtl_still h₂) (fun _ t₃ h₃ => ?_) fun _ h => h.elim
  rw [wp_write, view_exec rfl, h₃]
  exact .joined rfl howner

theorem consumeInviteUse_still {token : String} (hv : view r s = v) :
    (InviteTokenService.consumeInviteUse token).wp Store.exec
      (fun _ t => view r t = v) (fun _ => False) s := by
  simp only [InviteTokenService.consumeInviteUse, InviteTokenRepository.findByToken, wp_bind,
    wp_ask]
  split
  · exact hv
  · simp only [InviteTokenRepository.incrementUseCount, InviteTokenRepository.deleteTokenAndIndex,
      wp_ite, wp_bind, wp_call, wp_write, pure_eq, wp_done]
    have hcount : view r (exec (.incrementUseCount token) s) = v := (view_exec rfl).trans hv
    refine ⟨fun _ => hv, fun _ => ⟨fun _ => ?_, fun _ => hcount⟩⟩
    rw [view_exec (by simp [touches]), view_exec rfl, hcount]

/-- The join of a user into any room, seen from the room `r`. -/
theorem joinByPassword_view {x : String} {room : Room} {a : JoinAttempt} :
    (RoomJoinService.joinByPassword x room a).wp Store.exec
      (fun _ t => (x = r ∧ view r t = (view r s).join a.senderInternalId) ∨ view r t = view r s)
      (fun t => view r t = view r s) s := by
  by_cases hx : x = r
  · subst hx
    simp only [RoomJoinService.joinByPassword, wp_bind]
    refine wp_mono add_view (fun _ t ht => ?_) fun _ h => h.elim
    refine (wp_bind ..).mpr (wp_mono (putPublicKey_still ht) (fun _ t₁ h₁ => ?_) fun _ h => h.elim)
    exact (wp_bind ..).mpr (wp_mono (extendTtl_still h₁) (fun _ t₂ h₂ => .inl ⟨trivial, h₂⟩)
      fun _ h => h.elim)
  · exact still_then (joinByPassword_all (fun _ h => joining_touches h hx) fun _ => rfl) rfl
      (fun _ _ h => .inr h) fun _ h => h

theorem requestJoin_does {a : JoinAttempt} :
    Does r (.requestJoin a) s (RoomHandler.requestJoinRoom a) := by
  have hconsume : ∀ (result : JoinResult) (t : Store),
      ((view r s).owner.isSome ∧ view r t = (view r s).join a.senderInternalId)
        ∨ view r t = view r s →
      (do InviteTokenService.consumeInviteUse a.inviteToken; pure result : Prog JoinResult).wp
        Store.exec
        (fun _ t => ((view r s).owner.isSome ∧ view r t = (view r s).join a.senderInternalId)
          ∨ view r t = view r s) (fun t => view r t = view r s) t := by
    intro result t ht
    refine (wp_bind ..).mpr (wp_mono (consumeInviteUse_still (r := r) rfl) (fun _ t' ht' => ?_)
      fun _ h => h.elim)
    rw [pure_eq, wp_done, ht']
    exact ht
  have hjoin : (RoomJoinService.requestJoin a).wp Store.exec
      (fun _ t => ((view r s).owner.isSome ∧ view r t = (view r s).join a.senderInternalId)
        ∨ view r t = view r s)
      (fun t => view r t = view r s) s := by
    simp only [RoomJoinService.requestJoin, InviteTokenRepository.findByToken,
      RoomRepository.findById, wp_bind, wp_ask, wp_found]
    refine ⟨fun token _ => ?_, fun _ => trivial⟩
    refine still_then (validateInviteToken_all (fun _ => rfl) fun _ _ => by simp [touches]) rfl
      (fun _ t ht => ?_) fun _ h => h
    simp only [RoomJoinService.validatePasswordAndJoin, RoomJoinService.continueJoinAfterPassword,
      RoomMembersRepository.isMember, RoomJoinService.ensureNotBanned,
      RoomBansRepository.isBanned, wp_bind, wp_ask, wp_found, wp_demand, wp_ite]
    refine ⟨fun room hfound => ⟨fun _ => ⟨fun _ => ⟨fun _ => ⟨fun _ => ?_, fun _ => ?_⟩,
      fun _ => ht⟩, fun _ => ht⟩, fun _ => ht⟩, fun _ => ht⟩
    · refine wp_mono joinByPassword_view (fun result t₁ h₁ => ?_) fun _ h => h.trans ht
      rcases h₁ with ⟨hx, h₁⟩ | h₁
      · have hroom : findRoom t r = some room := hx ▸ hfound
        have howner : (view r s).owner.isSome := by
          rw [← ht]
          simp [view, owner?, hroom]
        exact hconsume result t₁ (.inl ⟨howner, h₁.trans (by rw [ht])⟩)
      · exact hconsume result t₁ (.inr (h₁.trans ht))
    · exact still_then (joinByRequest_all (fun _ => rfl) (by simp [touches])) ht
        (fun result t₁ h₁ => hconsume result t₁ (.inr h₁)) fun _ h => h
  refine (wp_bind ..).mpr (wp_mono hjoin (fun result t ht => ?_) fun _ h => h)
  have hdone : ∀ t', view r t' = view r t →
      Effect r (.requestJoin a) (view r s) (view r t') := by
    intro t' ht'
    rcases ht with ⟨howner, ht⟩ | ht
    · exact (ht'.trans ht) ▸ .joined rfl howner
    · exact (ht'.trans ht) ▸ .same rfl
  cases result with
  | approved roomId owner =>
      simp only [wp_bind, wp_write]
      split
      · exact hdone _ (by rw [view_exec rfl, view_exec rfl])
      · exact hdone _ (view_exec rfl)
  | pending roomId => exact hdone t rfl

/-! ### Burns -/

theorem cascade_members_needs :
    (RoomService.burnRoomCascade r).Needs (· = .del r [.set .members]) := by
  refine needs_bind _ fun _ => needs_bind _ fun _ => needs_bind _ fun _ => needs_bind _ fun _ =>
    Needs.bind ?_ _
  exact needs_bind _ fun members => needs_bind _ fun _ => .inl rfl

theorem cascade_view (h : Indexed s) : (RoomService.burnRoomCascade r).wp Store.exec
    (fun _ t => view r t = .gone) (fun _ => False) s := by
  have hmembers := wp_of_needs (I := fun t => ¬ has (t.room r) (.set .members)) cascade_members_needs
    (burnRoomCascade_all (φ := (Reduces · = true)) fun _ _ => cascade_reduces)
    (fun c t hc hk => by subst hc; exact (has_exec_del.mp hk).2 ⟨rfl, by simp⟩)
    (fun c t hc hno hk => hno (reduces_has hc hk)) s
  refine wp_mono (wp_and (burnRoomCascade_wp h) hmembers) (fun _ t ht => ?_) fun _ ht => ht.1
  exact view_gone (ht.1.absent (.plain .room) (by decide) trivial) ht.2
    (ht.1.absent (.plain (.hash .roles)) (by decide) trivial)

theorem notify_view {members : List String} (hv : view r s = v) :
    (RoomService.notifyRoomBurned r members).wp Store.exec
      (fun _ t => view r t = v) (fun _ => False) s :=
  (wp_bind ..).mpr ((wp_ask _).mpr (forEach_view (fun _ => rfl) hv))

/-- A user's burn of a room of its own. -/
theorem burnOwnedRoom_view (h : Indexed s) : (UserBurnService.burnOwnedRoom r u).wp Store.exec
    (fun _ t => view r t = .gone) (fun t => view r t = view r s) s := by
  refine (wp_bind ..).mpr ((wp_bind ..).mpr (requireOwner_view rfl fun room _ _ => ?_))
  refine wp_mono (cascade_view h) (fun members t ht => ?_) fun _ h => h.elim
  simp only [RoomPresenceRepository.deleteAll, wp_bind, wp_write]
  have hpresence : view r (exec (.del r [.hash .presence]) t) = .gone := by
    rw [view_exec (by simp [touches]), ht]
  exact wp_mono (notify_view hpresence) (fun _ _ h => h) fun _ h => h.elim

theorem burn_does {owner : String} (h : Indexed s) :
    Does r (.burn owner r) s (RoomHandler.burnRoom owner r) :=
  wp_mono (burnOwnedRoom_view h) (fun _ _ ht => ht ▸ .burned rfl) fun _ h => h

theorem expired_does {event : Expired} (h : Indexed s) :
    Does r (.expired r event) s (onExpired r event) := by
  have hevent : view r (exec (.takeExpired r event) s) = view r s := view_exec rfl
  have hindexed : Indexed (exec (.takeExpired r event) s) := harmless_indexed rfl h
  have hburn : ∀ t, Indexed t → (RoomService.burnRoomCascade r >>=
      RoomService.notifyRoomBurned r).wp Store.exec
        (fun _ t => view r t = .gone) (fun _ => False) t := fun t ht =>
    (wp_bind ..).mpr (wp_mono (cascade_view ht) (fun _ _ h => notify_view h) fun _ h => h)
  refine (wp_bind ..).mpr ((wp_write _).mpr ?_)
  cases event with
  | trigger =>
      simp only [RoomService.executeAutoBurnAndNotify, RoomRepository.findById, clock, wp_bind,
        wp_ask]
      split
      · exact hevent ▸ .same rfl
      · simp only [wp_bind, wp_ask]
        split
        · exact hevent ▸ .same rfl
        · rw [wp_ite]
          refine ⟨fun _ => hevent ▸ .same rfl, fun _ => ?_⟩
          exact wp_mono (hburn _ hindexed) (fun _ _ ht => ht ▸ .burned rfl) fun _ h => h.elim
  | hash =>
      simp only [RoomService.executeHashExpiryCascade, RoomMembersRepository.getMembers, wp_bind,
        wp_ask]
      rw [wp_ite]
      refine ⟨fun _ => ?_, fun _ => ?_⟩
      · have hstill := still (deleteInvites_all (r := r) (φ := (touches r · = false)) fun c hc => by
          cases hc <;> simp [touches]) hevent
        exact wp_mono (wp_and (deleteInvites_wp hindexed) hstill)
          (fun _ _ ht => ht.2 ▸ .same rfl) fun _ h => h.1.elim
      · exact wp_mono (hburn _ hindexed) (fun _ _ ht => ht ▸ .burned rfl) fun _ h => h.elim

/-! ### The burn of a user -/

theorem leaveMemberRoom_view :
    (UserBurnService.leaveMemberRoom r u).wp Store.exec
      (fun _ t => view r t = view r s ∨ view r t = ((view r s).remove u).setRole u none)
      (fun _ => False) s := by
  simp only [UserBurnService.leaveMemberRoom, RoomMembersRepository.isMember, wp_bind, wp_ask,
    wp_ite, pure_eq, wp_done]
  refine ⟨fun _ => wp_mono remove_view (fun _ t ht => ?_) fun _ h => h.elim, fun _ => .inl trivial⟩
  simp only [RoomMemberPublicKeyRepository.remove, RoomJoinRequestRepository.remove,
    RoomRolesRepository.remove, RoomMembersRepository.getMembers, wp_bind, wp_write]
  have hmid : view r (exec (.srem r .joinRequests u) (exec (.del r [.joinRequest u])
      (exec (.hdel r .publicKeys u) t))) = (view r s).remove u := by
    rw [view_exec (by simp [touches]), view_exec (by simp [touches]),
      view_exec (by simp [touches]), ht]
  refine wp_mono (removeRecipientAllEpochs_view hmid) (fun _ t₁ h₁ => ?_) fun _ h => h.elim
  rw [wp_bind, wp_write, wp_bind, wp_ask]
  have hrole : view r (exec (.hdel r .roles u) t₁) = ((view r s).remove u).setRole u none := by
    rw [view_hdel, h₁]
  exact wp_mono (forEach_view (fun _ => rfl) hrole) (fun _ _ h => .inr h) fun _ h => h

/-- The rooms of others stay as they are. -/
theorem burnOwnedRoom_still {x : String} (hx : x ≠ r) (hv : view r s = v) :
    (UserBurnService.burnOwnedRoom x u).wp Store.exec
      (fun _ t => view r t = v) (fun t => view r t = v) s :=
  still (burnOwnedRoom_all (fun _ _ h => cascade_touches h hx) fun _ _ => rfl) hv

theorem leaveMemberRoom_still {x : String} (hx : x ≠ r) (hv : view r s = v) :
    (UserBurnService.leaveMemberRoom x u).wp Store.exec
      (fun _ t => view r t = v) (fun t => view r t = v) s :=
  still (leaveMemberRoom_all (fun _ h => cleanup_touches h hx) fun _ => rfl) hv

theorem burnOwnedRooms_view (h : Indexed s) : (UserBurnService.burnOwnedRooms u).wp Store.exec
    (fun _ t => view r t = view r s ∨ view r t = .gone) (fun _ => False) s := by
  simp only [UserBurnService.burnOwnedRooms, RoomMembersRepository.getRoomsForMember, wp_bind,
    wp_ask]
  refine wp_forEach (I := fun t => Indexed t ∧ (view r t = view r s ∨ view r t = .gone))
    (fun x _ t ht => ?_) ⟨h, .inl rfl⟩ fun _ ht => ht.2
  simp only [RoomRepository.findById, wp_bind, wp_ask]
  split
  · exact ht
  · split
    · by_cases hx : x = r
      · subst hx
        refine wp_attempt (wp_mono (wp_and (burnOwnedRoom_keeps t ht.1) (burnOwnedRoom_view ht.1))
          (fun _ t' ht' => ⟨ht'.1, .inr ht'.2⟩) fun t' ht' => ⟨ht'.1, ?_⟩)
        rw [ht'.2]
        exact ht.2
      · refine wp_attempt (wp_mono (wp_and (burnOwnedRoom_keeps t ht.1)
          (burnOwnedRoom_still hx rfl)) (fun _ t' ht' => ⟨ht'.1, ?_⟩) fun t' ht' => ⟨ht'.1, ?_⟩)
        all_goals
          rw [ht'.2]
          exact ht.2
    · exact ht

/-- What leaving the rooms may have done to the view. -/
def Left (u : String) (v w : View) : Prop :=
  w = v ∨ (w = (v.remove u).setRole u none ∧ ¬ v.IsOwner u)

theorem leaveMemberRooms_view : (UserBurnService.leaveMemberRooms u).wp Store.exec
    (fun _ t => Left u (view r s) (view r t)) (fun _ => False) s := by
  simp only [UserBurnService.leaveMemberRooms, RoomMembersRepository.getRoomsForMember, wp_bind,
    wp_ask]
  refine wp_forEach (I := fun t => Left u (view r s) (view r t)) (fun x _ t ht => ?_) (.inl rfl)
    fun _ ht => ht
  simp only [RoomRepository.findById, wp_bind, wp_ask]
  split
  · exact ht
  · rename_i room hfound
    split
    · exact ht
    · rename_i hnot
      by_cases hx : x = r
      · subst hx
        have hno : ¬ (view x t).IsOwner u := fun how => hnot ((isOwner_iff hfound).mpr how)
        refine wp_attempt (wp_mono leaveMemberRoom_view (fun _ t' ht' => ?_) fun _ h => h.elim)
        rcases ht with ht | ⟨ht, how⟩
        · rw [ht] at ht' hno
          exact ht'.imp id fun h => ⟨h, hno⟩
        · rw [ht, View.remove_removed] at ht'
          exact .inr ⟨ht'.elim id id, how⟩
      · refine wp_attempt (wp_mono (leaveMemberRoom_still hx rfl) (fun _ t' ht' => ?_)
          fun t' ht' => ?_)
        all_goals
          rw [ht']
          exact ht

theorem burnAll_does {wipe : Bool} (h : Indexed s) :
    Does r (.burnAll u wipe) s (UserBurnService.burnAllForUser u wipe) := by
  refine (wp_bind ..).mpr (wp_mono (burnOwnedRooms_view (r := r) h) (fun _ t ht => ?_)
    fun _ h => h.elim)
  refine (wp_bind ..).mpr (wp_mono (leaveMemberRooms_view (r := r)) (fun _ t₁ h₁ => ?_)
    fun _ h => h.elim)
  have hdone : Effect r (.burnAll u wipe) (view r s) (view r t₁) := by
    rcases ht with ht | ht
    · rw [ht] at h₁
      rcases h₁ with h₁ | ⟨h₁, hno⟩
      · rw [h₁]
        exact .same rfl
      · rw [h₁]
        exact .removed rfl hno
    · rw [ht, Left, View.remove_gone] at h₁
      rw [h₁.elim id And.left]
      exact .burned rfl
  split
  · rw [wp_write, view_exec rfl]
    exact hdone
  · exact hdone

end Still

/-! ## What requests do -/

theorem program_does {r : String} {s : Store} (op : Op) (h : Indexed s)
    (hfresh : ∀ owner request uuid token expiresAt,
      op = .createRoom owner request uuid token expiresAt →
      (request.proposedRoomId.filter hasText).isSome = false → findRoom s uuid = none) :
    Does r op s op.program := by
  have helse : elsewhere r op → changesRoles r op = false → Does r op s op.program := by
    intro hop hroles
    refine still_then ((program_may op).mono (fun _ h => h) (fun _ => may_touches hop)
      fun _ h => h) rfl (fun _ _ ht => ht ▸ .same hroles) fun _ h => h
  cases op with
  | createRoom owner request uuid token expiresAt =>
      by_cases hr : RoomService.roomIdOf request uuid = r
      · refine createRoom_does hr fun hno => ?_
        have hid : RoomService.roomIdOf request uuid = uuid := by
          rw [RoomService.roomIdOf, Option.isSome_eq_false_iff.mp hno |> Option.isNone_iff_eq_none.mp]
          rfl
        exact hr ▸ hid.symm ▸ hfresh owner request uuid token expiresAt rfl hno
      · exact helse (fun he => hr (Option.some.inj he)) rfl
  | requestJoin a => exact requestJoin_does
  | burnAll u wipe => exact burnAll_does h
  | acceptJoin owner x u =>
      by_cases hr : x = r
      · exact hr ▸ acceptJoin_does
      · exact helse (fun he => hr (Option.some.inj he)) rfl
  | burn owner x =>
      by_cases hr : x = r
      · exact hr ▸ burn_does h
      · exact helse (fun he => hr (Option.some.inj he)) rfl
  | kick caller x u =>
      by_cases hr : x = r
      · exact hr ▸ kick_does
      · exact helse (fun he => hr (Option.some.inj he)) rfl
  | ban owner x u =>
      by_cases hr : x = r
      · exact hr ▸ ban_does
      · exact helse (fun he => hr (Option.some.inj he)) rfl
  | setRole owner x u role =>
      by_cases hr : x = r
      · exact hr ▸ setRole_does
      · exact helse (fun he => hr (Option.some.inj he)) (by simp [changesRoles, hr])
  | transferOwnership owner x u =>
      by_cases hr : x = r
      · exact hr ▸ transferOwnership_does
      · exact helse (fun he => hr (Option.some.inj he)) (by simp [changesRoles, hr])
  | leave u x =>
      by_cases hr : x = r
      · exact hr ▸ leave_does
      · exact helse (fun he => hr (Option.some.inj he)) rfl
  | expired x event =>
      by_cases hr : x = r
      · exact hr ▸ expired_does h
      · exact helse (fun he => hr (Option.some.inj he)) rfl
  | _ => exact helse (by simp [elsewhere, about]) rfl


/-! ## Who is an admin by the history -/

/-- Who is an admin after a request, if `g` were before it. A join starts anew. The
owner makes an admin of somebody, or of itself by handing the room over, and ends
it again; so does becoming the owner, which is more. -/
def grants (r : String) (op : Op) (completed : Bool) (v w : View) (g : String → Prop)
    (u : String) : Prop :=
  let earlier := g u ∧ ¬ (¬ v.member u ∧ w.member u)
  match op, completed with
  | .setRole owner x target role, true =>
      (x = r ∧ u = target ∧ v.IsOwner owner ∧ role = RoomRole.admin.apiValue)
        ∨ (earlier ∧ ¬ (x = r ∧ u = target))
  | .transferOwnership owner x target, true =>
      (x = r ∧ u = owner ∧ v.IsOwner owner) ∨ (earlier ∧ ¬ (x = r ∧ u = target))
  | _, _ => earlier

/-- The admins of a room by what has been requested, the latest first. -/
def admins (r : String) : List (Record Op Store Unit) → String → Prop
  | [] => fun _ => False
  | e :: h => grants r e.op e.result.isOk (view r e.before) (view r e.after) (admins r h)

/-- The stored roles are those of the admins among the members. -/
structure Sound (v : View) (g : String → Prop) : Prop where
  stored : ∀ u role, v.role u = some role → role = RoomRole.admin.apiValue ∧ v.member u ∧ g u
  granted : ∀ u, v.member u → g u → v.role u = some RoomRole.admin.apiValue
  owner : ∀ u, v.IsOwner u → v.member u
  room : ∀ u, v.member u → v.owner.isSome

section Sound

variable {r u : String} {v w : View} {g : String → Prop} {op : Op}

/-- A request that changes no roles grants nothing. -/
theorem grants_of {completed : Bool} (hop : changesRoles r op = false) :
    grants r op completed v w g u ↔ g u ∧ ¬ (¬ v.member u ∧ w.member u) := by
  cases op with
  | setRole owner x target role =>
      have hx : x ≠ r := by simpa [changesRoles] using hop
      cases completed <;> simp [grants, hx]
  | transferOwnership owner x target =>
      have hx : x ≠ r := by simpa [changesRoles] using hop
      cases completed <;> simp [grants, hx]
  | _ => exact Iff.rfl

/-- Who was an admin before and has not joined now. -/
theorem earlier_of (h : w.member u → v.member u) :
    (g u ∧ ¬ (¬ v.member u ∧ w.member u)) ↔ g u :=
  ⟨And.left, fun hg => ⟨hg, fun he => he.1 (h he.2)⟩⟩

/-- A failed request grants nothing. -/
theorem grants_failed : grants r op false v v g u ↔ g u := by
  cases op <;> exact earlier_of id

theorem Sound.congr {g' : String → Prop} (h : Sound v g) (hg : ∀ u, g' u ↔ g u) : Sound v g' where
  stored u role hu := ⟨(h.stored u role hu).1, (h.stored u role hu).2.1,
    (hg u).mpr (h.stored u role hu).2.2⟩
  granted u hm hgu := h.granted u hm ((hg u).mp hgu)
  owner := h.owner
  room := h.room

theorem Sound.no_role (h : Sound v g) (hno : ¬ v.member u) : v.role u = none :=
  Option.eq_none_iff_forall_not_mem.mpr fun role hrole => hno (h.stored u role hrole).2.1

theorem sound_join (h : Sound v g) (hv : v.owner.isSome) :
    Sound (v.join u) fun y => g y ∧ ¬ (¬ v.member y ∧ (v.join u).member y) where
  stored y role hy := by
    obtain ⟨hrole, hmember, hg⟩ := h.stored y role hy
    exact ⟨hrole, .inl hmember, hg, fun he => he.1 hmember⟩
  granted y hy hg := by
    refine h.granted y ?_ hg.1
    by_contra hno
    exact hg.2 ⟨hno, hy⟩
  owner y hy := .inl (h.owner y hy)
  room _ _ := hv

/-- Who is removed along with the role, and is not the owner. -/
theorem sound_remove (h : Sound v g) (hno : ¬ v.IsOwner u) :
    Sound ((v.remove u).setRole u none) g where
  stored y role hy := by
    simp only [View.setRole, View.remove, Function.update_apply] at hy
    split at hy
    · cases hy
    · rename_i hne
      obtain ⟨hadmin, hmember, hg⟩ := h.stored y role hy
      exact ⟨hadmin, ⟨hmember, hne⟩, hg⟩
  granted y hy hg := by
    simp only [View.setRole, View.remove, Function.update_apply]
    rw [if_neg hy.2]
    exact h.granted y hy.1 hg
  owner y hy := by
    refine ⟨h.owner y hy, ?_⟩
    rintro rfl
    exact hno hy
  room y hy := h.room y hy.1

theorem View.setRole_self (h : v.role u = none) : v.setRole u none = v := by
  refine View.ext' rfl (fun _ => Iff.rfl) fun y => ?_
  rw [View.setRole, ← h, Function.update_eq_self]

/-- A role that is stored or removed as it is granted or ended. -/
theorem sound_setRole {role : Option String} {g' : String → Prop} (h : Sound v g)
    (hg : ∀ y, y ≠ u → (g' y ↔ g y))
    (hrole : role = some RoomRole.admin.apiValue ∧ v.member u ∧ g' u
      ∨ role = none ∧ (v.member u → ¬ g' u)) :
    Sound (v.setRole u role) g' where
  stored y stored hy := by
    simp only [View.setRole, Function.update_apply] at hy
    split at hy
    · rename_i he
      subst he
      rcases hrole with ⟨rfl, hm, hg⟩ | ⟨rfl, _⟩
      · exact ⟨(Option.some.inj hy).symm, hm, hg⟩
      · cases hy
    · rename_i hne
      obtain ⟨hadmin, hm, hgy⟩ := h.stored y stored hy
      exact ⟨hadmin, hm, (hg y hne).mpr hgy⟩
  granted y hm hgy := by
    simp only [View.setRole, Function.update_apply]
    split
    · rename_i he
      subst he
      rcases hrole with ⟨rfl, _⟩ | ⟨rfl, hno⟩
      · rfl
      · exact absurd hgy (hno hm)
    · rename_i hne
      exact h.granted y hm ((hg y hne).mp hgy)
  owner := h.owner
  room := h.room

theorem sound_setOwner (h : Sound v g) (hm : v.member u) : Sound (v.setOwner u) g where
  stored := h.stored
  granted := h.granted
  owner y hy := by
    rw [← Option.some.inj hy.1]
    exact hm
  room _ _ := rfl

theorem sound_gone : Sound .gone g where
  stored _ _ h := nomatch h
  granted _ h := h.elim
  owner _ h := nomatch h.1
  room _ h := h.elim

/-- A room that nobody owns has no members, so none with a role; its creator becomes
the first. -/
theorem sound_created (h : Sound v g) (hnone : v.owner = none) :
    Sound ((v.setOwner u).join u)
      fun y => g y ∧ ¬ (¬ v.member y ∧ ((v.setOwner u).join u).member y) := by
  have hempty : ∀ y, ¬ v.member y := fun y hy => by
    have := h.room y hy
    rw [hnone] at this
    cases this
  exact {
    stored := fun y role hy => absurd (h.stored y role hy).2.1 (hempty y)
    granted := fun y hy hg => absurd ⟨hempty y, hy⟩ hg.2
    owner := fun y hy => .inr (Option.some.inj hy.1).symm
    room := fun _ _ => rfl }

theorem sound_step (h : Sound v g) (heffect : Effect r op v w)
    (hleave : ∀ u, op = .leave u r → v.role u = none) : Sound w (grants r op true v w g) := by
  cases heffect with
  | same hop => exact h.congr fun u => (grants_of hop).trans (earlier_of id)
  | created hr hnone => exact (sound_created h hnone).congr fun u => grants_of rfl
  | joined hop hv => exact (sound_join h hv).congr fun u => grants_of hop
  | left hno =>
      rename_i u
      have hclear : v.remove u = (v.remove u).setRole u none :=
        (View.setRole_self (v := v.remove u) (hleave u rfl)).symm
      rw [hclear]
      exact (sound_remove h hno).congr fun y => (grants_of rfl).trans (earlier_of And.left)
  | removed hop hno =>
      exact (sound_remove h hno).congr fun y => (grants_of hop).trans (earlier_of And.left)
  | promoted howner hm hrole =>
      refine sound_setRole h (fun y hne => ?_) (.inl ⟨rfl, hm, .inl ⟨rfl, rfl, howner, hrole⟩⟩)
      refine ⟨fun hg => ?_, fun hg => .inr ⟨(earlier_of id).mpr hg, fun he => hne he.2⟩⟩
      exact (earlier_of id).mp (hg.resolve_left fun he => hne he.2.1).1
  | demoted howner hrole =>
      refine sound_setRole h (fun y hne => ?_) (.inr ⟨rfl, fun _ hg => ?_⟩)
      · refine ⟨fun hg => ?_, fun hg => .inr ⟨(earlier_of id).mpr hg, fun he => hne he.2⟩⟩
        exact (earlier_of id).mp (hg.resolve_left fun he => hne he.2.1).1
      · exact hg.elim (fun he => hrole he.2.2.2) fun he => he.2 ⟨rfl, rfl⟩
  | transferred howner hne hm =>
      rename_i owner u
      -- the previous owner is promoted, and the new one needs no role
      have hpromoted : Sound ((v.setOwner u).setRole owner (some RoomRole.admin.apiValue))
          fun y => y = owner ∨ g y :=
        sound_setRole (sound_setOwner h hm) (fun y hy => or_iff_right hy)
          (.inl ⟨rfl, h.owner owner howner, .inl rfl⟩)
      refine sound_setRole hpromoted (fun y hy => ?_) (.inr ⟨rfl, fun _ hg => ?_⟩)
      · constructor
        · rintro (⟨-, rfl, -⟩ | hg)
          · exact .inl rfl
          · exact .inr hg.1.1
        · rintro (rfl | hg)
          · exact .inl ⟨rfl, rfl, howner⟩
          · exact .inr ⟨(earlier_of id).mpr hg, fun he => hy he.2⟩
      · exact hg.elim (fun he => hne he.2.1.symm) fun he => he.2 ⟨rfl, rfl⟩
  | burned hop => exact sound_gone

end Sound

/-! ## Authority -/

/-- The id that the server picks for a room is not in use. -/
def Fresh (s : Store) : Op → Prop
  | .createRoom _ request uuid _ _ =>
      (request.proposedRoomId.filter hasText).isSome = false → findRoom s uuid = none
  | _ => True

/-- Nobody leaves a room while it has a stored role. -/
def NoAdminLeaves (s : Store) : Op → Prop
  | .leave u x => s.hget x .roles u = none
  | _ => True

/-- Time passes between the requests, and no key of the room expires by itself. -/
def Waits (s s' : Store) : Prop := ∃ now, s' = { s with now := now }

theorem view_empty {r : String} : view r .empty = .gone :=
  View.ext' rfl (fun y => by simp [view, View.gone, Store.empty, smembers, RoomKeys.empty])
    fun _ => rfl

/-- In every run the stored roles are those of the admins among the members. -/
theorem authority_invariant {h : List (Record Op Store Unit)} {s : Store}
    (hrun : Serial Store.exec Op.program (fun s op => Fresh s op ∧ NoAdminLeaves s op) Waits
      .empty h s) : Indexed s ∧ ∀ r, Sound (view r s) (admins r h) := by
  refine hrun.invariant (I := fun h s => Indexed s ∧ ∀ r, Sound (view r s) (admins r h))
    ⟨indexed_empty, fun r => ?_⟩ (fun h s op hI hG => ?_) fun h s s' hI hM => ?_
  · rw [view_empty]
    exact sound_gone
  · have hdoes : ∀ r, Does r op s op.program := fun r =>
      program_does op hI.1 fun owner request uuid token expiresAt hop hno => by
        subst hop
        exact hG.1 hno
    have hleave : ∀ r u, op = .leave u r → (view r s).role u = none := by
      rintro r u rfl
      exact hG.2
    refine wp_mono (wp_and (program_keeps op s hI.1) (wp_forall hdoes)) (fun _ s' hs' => ?_)
      fun s' hs' _ => ?_
    · exact ⟨hs'.1, fun r => sound_step (hI.2 r) (hs'.2 r) (hleave r)⟩
    · refine ⟨hs'.1, fun r => ?_⟩
      rw [hs'.2 r]
      refine (hI.2 r).congr fun u => ?_
      simp only [admins, hs'.2 r]
      exact grants_failed
  · obtain ⟨now, rfl⟩ := hM
    exact ⟨⟨hI.1.files, hI.1.invites⟩, hI.2⟩

/-- Only the stored role of an admin counts. -/
theorem storedRole_iff {stored : Option String} {role : RoomRole}
    (h : role = (stored.filter hasText).elim .member RoomRole.fromStoredValue) :
    (role = .owner ∨ role = .admin) ↔ stored = some RoomRole.admin.apiValue := by
  subst h
  cases stored with
  | none => simp
  | some value =>
      by_cases hadmin : value = RoomRole.admin.apiValue
      · subst hadmin
        exact iff_of_true (by decide) rfl
      · rw [Option.filter_some]
        cases hasText value <;> simp [RoomRole.fromStoredValue, hadmin]

/-- `requireAdminOrOwner` finds the owner, or a stored role. -/
theorem requireAdminOrOwner_iff {r u : String} {s : Store} :
    ((RoomService.requireAdminOrOwner r u).run Store.exec s).2.isOk = true
      ↔ Owns r u s ∨ ((findRoom s r).isSome
        ∧ s.hget r .roles u = some RoomRole.admin.apiValue) := by
  have hread : (s.room r).hash.bind RoomHash.parse = findRoom s r := rfl
  simp only [isOk_run_iff, RoomService.requireAdminOrOwner, RoomRepository.findById,
    RoomService.roleOf, RoomRolesRepository.getStoredRole, wp_bind, wp_ask, wp_found, wp_demand,
    wp_ite, pure_eq, wp_done, hread]
  cases hfound : findRoom s r with
  | none => simp [Owns, hfound]
  | some room =>
      have hrole := @storedRole_iff (s.hget r .roles u) _ rfl
      by_cases howner : RoomService.isOwner room u = true
      · simp [Owns, hfound, howner]
      · rw [← hrole]
        simp only [Owns, hfound, howner, Option.some.injEq, forall_eq', false_implies, true_implies,
          Bool.false_eq_true, Bool.or_eq_true, Bool.or_eq_false_iff, decide_eq_true_eq,
          decide_eq_false_iff_not, reduceCtorEq, and_true, true_and, exists_eq_left',
          Option.isSome_some, false_or, implies_true, not_false_eq_true]
        tauto

/-- In every run in which nobody leaves with a role, authority is the owner's and
that of the admins among the members. -/
theorem authority_granted {h : List (Record Op Store Unit)} {s : Store} {r u : String}
    (hrun : Serial Store.exec Op.program (fun s op => Fresh s op ∧ NoAdminLeaves s op) Waits
      .empty h s) :
    ((RoomService.requireAdminOrOwner r u).run Store.exec s).2.isOk = true
      ↔ Owns r u s ∨ (u ∈ s.smembers r .members ∧ admins r h u) := by
  have hsound := (authority_invariant hrun).2 r
  refine requireAdminOrOwner_iff.trans (or_congr_right ⟨fun hrole => ?_, fun hadmin => ?_⟩)
  · exact (hsound.stored u _ hrole.2).2
  · refine ⟨?_, hsound.granted u hadmin.1 hadmin.2⟩
    have hroom := hsound.room u hadmin.1
    simpa [view, owner?] using hroom

/-! ### An admin who leaves -/

/-- A room with a password, a join and a promotion. -/
def promotion : List Op :=
  [.createRoom "o" ⟨some "r", some "proof", .byPassword, "name", "iv", none⟩ "" "t" 1000,
    .requestJoin ⟨"u", "t", true, none⟩, .setRole "o" "r" "u" "admin"]

def allowed (s : Store) : Op → Bool
  | .createRoom _ request uuid _ _ =>
      (request.proposedRoomId.filter hasText).isSome || (findRoom s uuid).isNone
  | .leave u x => (s.hget x .roles u).isNone
  | _ => true

theorem allowed_fresh {s : Store} {op : Op} (h : allowed s op = true) :
    Fresh s op ∧ NoAdminLeaves s op := by
  cases op with
  | createRoom owner request uuid token expiresAt =>
      refine ⟨fun hno => ?_, trivial⟩
      simpa [allowed, hno] using h
  | leave u x => exact ⟨trivial, Option.isNone_iff_eq_none.mp h⟩
  | _ => exact ⟨trivial, trivial⟩

/-- An admin who has not left manages the room. -/
theorem promoted_manages : ∃ h s,
    Serial Store.exec Op.program (fun s op => Fresh s op ∧ NoAdminLeaves s op) Waits .empty h s
      ∧ "u" ∈ s.smembers "r" .members ∧ admins "r" h "u" := by
  obtain ⟨h, s, hrun, hq⟩ : ∃ h s,
      Serial Store.exec Op.program (fun s op => Fresh s op ∧ NoAdminLeaves s op) Waits .empty h s
        ∧ (((RoomService.requireAdminOrOwner "r" "u").run Store.exec s).2.isOk
          && !(findRoom s "r").any (RoomService.isOwner · "u")) = true :=
    Serial.exists_of_execAll allowed promotion (fun _ s =>
        ((RoomService.requireAdminOrOwner "r" "u").run Store.exec s).2.isOk
          && !(findRoom s "r").any (RoomService.isOwner · "u"))
      (fun _ _ => allowed_fresh) (by decide +kernel)
  rw [Bool.and_eq_true] at hq
  refine ⟨h, s, hrun, ((authority_granted hrun).mp hq.1).resolve_left ?_⟩
  rintro ⟨room, hfound, howner⟩
  simp [hfound, howner] at hq

/-- Who leaves as an admin still manages the room. -/
theorem admin_left : ¬ ∀ (h : List (Record Op Store Unit)) (s : Store) (r u : String),
    Serial Store.exec Op.program Fresh Waits .empty h s →
    (((RoomService.requireAdminOrOwner r u).run Store.exec s).2.isOk = true
      ↔ Owns r u s ∨ (u ∈ s.smembers r .members ∧ admins r h u)) := by
  intro hall
  obtain ⟨h, s, hrun, hq⟩ : ∃ h s, Serial Store.exec Op.program Fresh Waits .empty h s
      ∧ (((RoomService.requireAdminOrOwner "r" "u").run Store.exec s).2.isOk
        && !(findRoom s "r").any (RoomService.isOwner · "u")
        && !s.sismember "r" .members "u") = true :=
    Serial.exists_of_execAll
      (fun s op => allowed s op || (match op with | .leave .. => true | _ => false))
      (promotion ++ [.leave "u" "r"]) (fun _ s =>
        ((RoomService.requireAdminOrOwner "r" "u").run Store.exec s).2.isOk
          && !(findRoom s "r").any (RoomService.isOwner · "u") && !s.sismember "r" .members "u")
      (fun s op h => by
        cases op with
        | leave => trivial
        | _ => exact (allowed_fresh (by simpa using h)).1)
      (by decide +kernel)
  simp only [Bool.and_eq_true, Bool.not_eq_true'] at hq
  rcases (hall h s "r" "u" hrun).mp hq.1.1 with ⟨room, hfound, howner⟩ | ⟨hmember, -⟩
  · simp [hfound, howner] at hq
  · simp [sismember, hmember] at hq

end RoomAuthority

end BurnedChats

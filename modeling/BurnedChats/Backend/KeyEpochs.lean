import BurnedChats.Backend.AutoBurn

/-!
# The epochs of a room's keys

What a request that runs on its own does to the counter `room_key_epoch` and to the
bundles of a room, and which bundles it sends. `Fades` and `Brings` are read off the
commands of the request; only `rekey` and `sendKeyBundle` need a look at their programs,
since what they do depends on who owns the room.
-/

namespace BurnedChats

namespace Rooms

open Program Store

/-- The counter of a room, 0 when it is absent. -/
def epochOf (s : Store) (r : String) : Int := (s.room r).epoch.getD 0

/-- The events that a request sends when it runs on its own. -/
def sentBy (op : Op) (s : Store) : List (String × Event) :=
  (op.program.run Store.exec s).1.sent.drop s.sent.length

/-! ## Commands -/

/-- The counter of the room is not written, and bundles are put at epochs in `A` only. -/
def Fades (r : String) (A : Int → Prop) : Command → Prop
  | .putBundle x e _ _ => x = r → A e
  | .setEpoch x _ => x ≠ r
  | .del x keys => x = r → .epoch ∉ keys
  | _ => True

/-- Bundles of the room are sent for epochs in `A` only. -/
def Brings (r : String) (A : Int → Prop) : Command → Prop
  | .send _ (.keyBundle x e _) => x = r → A e
  | _ => True

/-- The counter is the same, and outside `A` no epoch has bundles that had none. -/
structure Faded (A : Int → Prop) (k k' : RoomKeys) : Prop where
  epoch : k'.epoch = k.epoch
  bundles : ∀ e, ¬ A e → k.bundles e = ∅ → k'.bundles e = ∅

/-- What has been sent since brings bundles of the room for epochs in `A` only. -/
def Brought (r : String) (A : Int → Prop) (s s' : Store) : Prop :=
  ∃ l, s'.sent = s.sent ++ l ∧ ∀ u e b, (u, Event.keyBundle r e b) ∈ l → A e

section Commands

variable {α : Type} {r x : String} {A B : Int → Prop} {k k' k'' : RoomKeys} {s s' : Store}
  {c : Command} {p : Prog α}

theorem Faded.refl : Faded A k k := ⟨rfl, fun _ _ h => h⟩

theorem Faded.trans (h : Faded A k k') (h' : Faded A k' k'') : Faded A k k'' :=
  ⟨h'.epoch.trans h.epoch, fun e he hk => h'.bundles e he (h.bundles e he hk)⟩

theorem Faded.mono (h : Faded A k k') (hA : ∀ e, A e → B e) : Faded B k k' :=
  ⟨h.epoch, fun e he => h.bundles e fun ha => he (hA e ha)⟩

theorem Faded.epochOf_eq (h : Faded A (s.room r) (s'.room r)) : epochOf s' r = epochOf s r := by
  rw [epochOf, h.epoch, epochOf]

theorem faded_atRoom {f : RoomKeys → RoomKeys} (h : x = r → Faded A (s.room r) (f (s.room r))) :
    Faded A (s.room r) ((s.atRoom x f).room r) := by
  by_cases hx : x = r
  · subst hx
    rw [atRoom_room]
    exact h rfl
  · rw [atRoom_room_of_ne _ _ _ (Ne.symm hx)]
    exact .refl

theorem faded_del {keys : List Key} (h : .epoch ∉ keys) :
    Faded A k (keys.foldl RoomKeys.del k) := by
  induction keys generalizing k with
  | nil => exact .refl
  | cons key keys ih =>
      have hkey : Faded A k (k.del key) := by
        cases key with
        | epoch => exact absurd List.mem_cons_self h
        | bundles epoch =>
            refine ⟨rfl, fun e _ he => ?_⟩
            simp only [RoomKeys.del, Function.update_apply]
            split
            · rfl
            · exact he
        | _ => exact ⟨rfl, fun _ _ he => he⟩
      exact hkey.trans (ih fun hmem => h (List.mem_cons_of_mem _ hmem))

theorem faded_exec (h : Fades r A c) : Faded A (s.room r) ((exec c s).room r) := by
  cases c with
  | setEpoch x epoch =>
      rw [Store.exec]
      exact faded_atRoom fun hx => absurd hx h
  | del x keys =>
      rw [Store.exec]
      exact faded_atRoom fun hx => faded_del (h hx)
  | putBundle x epoch u b =>
      rw [Store.exec]
      refine faded_atRoom fun hx => ⟨rfl, fun e he hk => ?_⟩
      have hne : e ≠ epoch := fun heq => he (heq ▸ h hx)
      exact (Function.update_of_ne hne ..).trans hk
  | removeBundle x epoch u =>
      rw [Store.exec]
      refine faded_atRoom fun hx => ⟨rfl, fun e _ hk => ?_⟩
      subst hx
      simp only [Function.update_apply]
      split
      · rename_i heq
        rw [← heq, hk]
        rfl
      · exact hk
  | _ =>
      first
      | exact .refl
      | rw [Store.exec]
        exact faded_atRoom fun _ => ⟨rfl, fun _ _ hk => hk⟩

theorem faded_tick : Faded A (s.room r) (s.tick.room r) := by
  have hset : ∀ (b : Bool), (if b then (s.room r).withSet .members [] else s.room r).epoch
      = (s.room r).epoch ∧ (if b then (s.room r).withSet .members [] else s.room r).bundles
      = (s.room r).bundles := by
    intro b
    cases b
    · exact ⟨rfl, rfl⟩
    · exact ⟨rfl, rfl⟩
  refine ⟨(hset _).1, fun e _ he => ?_⟩
  rw [← he]
  exact congrFun (hset _).2 e

theorem brought_exec (h : Brings r A c) (hs : Brought r A s s') : Brought r A s (exec c s') := by
  obtain ⟨l, hl, hA⟩ := hs
  cases c with
  | send u event =>
      refine ⟨l ++ [(u, event)], by rw [Store.exec, hl, List.append_assoc], fun v e b hmem => ?_⟩
      rcases List.mem_append.mp hmem with hmem | hmem
      · exact hA v e b hmem
      · obtain ⟨rfl, rfl⟩ := Prod.mk.inj (List.mem_singleton.mp hmem)
        exact h rfl
  | _ => exact ⟨l, hl, hA⟩

theorem wp_faded (h : p.All (Fades r A)) :
    p.wp exec (fun _ t => Faded A (s.room r) (t.room r)) (fun t => Faded A (s.room r) (t.room r))
      s :=
  wp_of_all h (fun _ _ hc ht => ht.trans (faded_exec hc)) .refl

theorem wp_faded_of_total {E : Store → Prop} (ht : p.Total) (h : p.All (Fades r A))
    (hs : Faded A k (s.room r)) : p.wp exec (fun _ t => Faded A k (t.room r)) E s :=
  ht.wp_of_all h (fun _ _ hc ht => ht.trans (faded_exec hc)) hs

theorem wp_brought (h : p.All (Brings r A)) (hs : Brought r A s s') :
    p.wp exec (fun _ => Brought r A s) (Brought r A s) s' :=
  wp_of_all h (fun _ _ hc ht => brought_exec hc ht) hs

theorem brought_refl : Brought r A s s := ⟨[], by simp, fun _ _ _ h => by cases h⟩

theorem Brought.mono (h : Brought r A s s') (hAB : ∀ e, A e → B e) : Brought r B s s' := by
  obtain ⟨l, hsent, hl⟩ := h
  exact ⟨l, hsent, fun u e b hmem => hAB e (hl u e b hmem)⟩

end Commands

/-! ## Requests -/

/-- Who asks to write the keys of which room. -/
def keysOf : Op → Option (String × String)
  | .sendKeyBundle owner x _ _ _ => some (owner, x)
  | .rekey owner x _ _ _ => some (owner, x)
  | _ => none

section Requests

variable {r u : String} {A : Int → Prop} {s : Store} {op : Op} {c : Command} {e : Int}
  {b : EncryptedKeyBundle} {items : List BundleItem} {name : Option (String × String)}

theorem may_fades (h : May op c) (hburns : AutoBurn.burns op = false) (hkeys : ∀ u, keysOf op ≠ some (u, r)) :
    Fades r A c := by
  cases h with
  | putsBundle owner => exact fun hx => absurd (by rw [keysOf, hx]) (hkeys owner)
  | rekeys owner => exact fun hx => absurd (by rw [keysOf, hx]) (hkeys owner)
  | rekeyEpoch owner => exact fun hx => hkeys owner (by rw [keysOf, hx])
  | rekeyDeletes owner => exact fun hx => absurd (by rw [keysOf, hx]) (hkeys owner)
  | burns => cases hburns
  | burnsAll => cases hburns
  | leavesAll => cases hburns
  | expires => cases hburns
  | createJoins _ _ _ _ _ _ h => cases h <;> trivial
  | createInvites _ _ _ _ _ _ h => cases h <;> trivial
  | invites _ _ _ _ _ _ h => cases h <;> trivial
  | revokes _ _ _ _ h => cases h <;> trivial
  | joins _ _ _ h => cases h <;> trivial
  | consumes _ _ h => cases h <;> trivial
  | accepts _ _ _ _ h => cases h <;> trivial
  | acceptAnswers _ _ _ _ h => cases h <;> simp [Fades]
  | rejects _ _ _ _ h => cases h <;> simp [Fades]
  | kicks _ _ _ _ h => cases h <;> simp [Fades]
  | bans _ _ _ _ h => cases h <;> simp [Fades]
  | leaves _ _ _ h => cases h <;> simp [Fades]
  | _ => trivial

theorem may_brings (h : May op c) (hkeys : ∀ u, keysOf op ≠ some (u, r))
    (hserves : ∀ caller key, op ≠ .requestKeyBundle caller r key) : Brings r A c := by
  cases h with
  | sendsBundle owner => exact fun hx => absurd (by rw [keysOf, hx]) (hkeys owner)
  | rekeySends owner => exact fun hx => absurd (by rw [keysOf, hx]) (hkeys owner)
  | servesBundle caller x key =>
      intro hx
      subst hx
      exact absurd rfl (hserves caller key)
  | burns _ _ _ _ h => cases h <;> trivial
  | burnsAll _ _ _ _ _ h => cases h <;> trivial
  | leavesAll _ _ _ _ h => cases h <;> trivial
  | expires _ _ _ _ h => cases h <;> trivial
  | createJoins _ _ _ _ _ _ h => cases h <;> trivial
  | createInvites _ _ _ _ _ _ h => cases h <;> trivial
  | invites _ _ _ _ _ _ h => cases h <;> trivial
  | revokes _ _ _ _ h => cases h <;> trivial
  | joins _ _ _ h => cases h <;> trivial
  | consumes _ _ h => cases h <;> trivial
  | accepts _ _ _ _ h => cases h <;> trivial
  | acceptAnswers _ _ _ _ h => cases h <;> trivial
  | rejects _ _ _ _ h => cases h <;> trivial
  | kicks _ _ _ _ h => cases h <;> trivial
  | bans _ _ _ _ h => cases h <;> trivial
  | leaves _ _ _ h => cases h <;> trivial
  | _ => trivial

/-- The check of the owner, in the store that it finds. -/
theorem requireOwner_bind_wp {α : Type} {f : Room → Prog α} {Q : α → Store → Prop}
    {E : Store → Prop}
    (hE : (∀ room, findRoom s r = some room → RoomService.isOwner room u = false) → E s)
    (hf : ∀ room, findRoom s r = some room → RoomService.isOwner room u = true →
      (f room).wp exec Q E s) :
    (RoomService.requireOwner r u >>= f).wp exec Q E s := by
  simp only [RoomService.requireOwner, RoomRepository.findById, wp_bind, wp_ask, wp_found,
    wp_demand, pure_eq, wp_done]
  refine ⟨fun room hfound => ⟨fun how => hf room hfound how, fun how => hE ?_⟩,
    fun hnone => hE ?_⟩
  · intro room' hfound'
    obtain rfl : room = room' := Option.some.inj (hfound.symm.trans hfound')
    exact how
  · intro room hfound
    cases hnone.symm.trans hfound

/-- A request to write the keys of a room by one who does not own it. -/
theorem run_of_not_owner {Q : Store → Prop} (hop : keysOf op = some (u, r))
    (howner : ∀ room, findRoom s r = some room → RoomService.isOwner room u = false) (hs : Q s) :
    Q (op.program.run exec s).1 := by
  have hfails : ∀ {α : Type} {f : Room → Prog α},
      (RoomService.requireOwner r u >>= f).wp exec (fun _ => Q) Q s := by
    intro α f
    refine requireOwner_bind_wp (fun _ => hs) fun room hfound how => ?_
    rw [howner room hfound] at how
    cases how
  cases op with
  | sendKeyBundle =>
      obtain ⟨rfl, rfl⟩ := Prod.mk.inj (Option.some.inj hop)
      exact run_of_wp hfails
  | rekey =>
      obtain ⟨rfl, rfl⟩ := Prod.mk.inj (Option.some.inj hop)
      exact run_of_wp hfails
  | _ => cases hop

/-- A request about no room's keys, or another room's. -/
theorem run_faded (hburns : AutoBurn.burns op = false) (hkeys : ∀ u, keysOf op ≠ some (u, r)) :
    Faded A (s.room r) ((op.program.run exec s).1.room r) :=
  run_of_wp (I := fun t : Store => Faded A (s.room r) (t.room r))
    (wp_faded ((program_may op).mono (fun _ h => h) (fun _ hc => may_fades hc hburns hkeys)
      fun _ h => h))

theorem sendKeyBundle_faded {owner x : String} :
    Faded (· = e) (s.room r) (((Op.sendKeyBundle owner x u e b).program.run exec s).1.room r) := by
  refine run_of_wp (I := fun t : Store => Faded (· = e) (s.room r) (t.room r)) (wp_faded ?_)
  refine (program_may _).mono (fun _ h => h) (fun c hc => ?_) fun _ h => h
  cases hc with
  | putsBundle => exact fun _ => rfl
  | sendsBundle => trivial
  | sets _ _ _ hr h => cases hr
  | setsTtl _ _ _ hr => cases hr

/-- A request brings no bundles of a room whose keys are not its own to write, except those
of the current epoch. -/
theorem run_brought (hkeys : ∀ u, keysOf op ≠ some (u, r)) :
    Brought r (· = epochOf s r) s (op.program.run exec s).1 := by
  refine run_of_wp (I := Brought r (· = epochOf s r) s) ?_
  by_cases hserves : ∃ caller x key, op = .requestKeyBundle caller x key
  · obtain ⟨caller, x, key, rfl⟩ := hserves
    have hnotify : ∀ room, (RoomHandler.notifyOwnerForKeyBundle x caller key room).wp exec
        (fun _ => Brought r (· = epochOf s r) s) (Brought r (· = epochOf s r) s) s :=
      fun room => wp_brought (notifyOwnerForKeyBundle_all trivial (fun _ _ _ => trivial)
        (fun _ _ => trivial) fun _ => trivial) brought_refl
    simp only [Op.program, RoomHandler.requestKeyBundle, RoomRepository.findById,
      RoomMembersRepository.isMember, RoomMemberPublicKeyRepository.get,
      RoomHandler.serveCurrentEpochBundle, RoomKeysRepository.getCurrentEpoch,
      RoomKeysRepository.getEncryptedKey, wp_bind, wp_ask, wp_found, wp_demand, wp_ite, pure_eq,
      wp_done]
    refine ⟨fun room _ => ⟨fun _ => ⟨fun _ => ⟨fun _ => ?_, fun _ => hnotify room⟩,
      fun _ => brought_refl⟩, fun _ => brought_refl⟩, fun _ => brought_refl⟩
    split
    · rename_i epoch bundle hserved
      obtain ⟨_, -, he⟩ := Option.map_eq_some_iff.mp hserved
      refine brought_exec (fun hx => ?_) brought_refl
      rw [← (Prod.mk.inj he).1, hx, epochOf]
    · exact hnotify room
  · refine wp_brought ((program_may op).mono (fun _ h => h) (fun c hc => ?_) fun _ h => h)
      brought_refl
    exact may_brings hc hkeys fun caller key heq => hserves ⟨caller, r, key, heq⟩

theorem sendKeyBundle_brought {owner x : String} :
    Brought r (· = e) s ((Op.sendKeyBundle owner x u e b).program.run exec s).1 := by
  refine run_of_wp (I := Brought r (· = e) s) (wp_brought ?_ brought_refl)
  refine (program_may _).mono (fun _ h => h) (fun c hc => ?_) fun _ h => h
  cases hc with
  | putsBundle => trivial
  | sendsBundle => exact fun _ => rfl
  | sets _ _ _ hr h => cases hr
  | setsTtl _ _ _ hr => cases hr

theorem rekey_brought {owner x : String} :
    Brought r (· = e) s ((Op.rekey owner x e items name).program.run exec s).1 := by
  refine run_of_wp (I := Brought r (· = e) s) (wp_brought ?_ brought_refl)
  refine (program_may _).mono (fun _ h => h) (fun c hc => ?_) fun _ h => h
  cases hc with
  | rekeySends => exact fun _ => rfl
  | _ => trivial

theorem Brought.sentBy (h : Brought r A s (op.program.run exec s).1)
    (hmem : (u, .keyBundle r e b) ∈ sentBy op s) : A e := by
  obtain ⟨l, hl, hA⟩ := h
  rw [Rooms.sentBy, hl, List.drop_left] at hmem
  exact hA u e b hmem

/-- A rekey that completes is the owner's. -/
theorem owner_of_rekey {owner : String}
    (h : ((Op.rekey owner r e items name).program.run exec s).2.isOk = true) :
    ∃ room, findRoom s r = some room ∧ RoomService.isOwner room owner = true := by
  by_contra hno
  have hnever : (Op.rekey owner r e items name).program.wp exec (fun _ _ => False)
      (fun _ => True) s :=
    requireOwner_bind_wp (fun _ => trivial) fun room hfound how =>
      (hno ⟨room, hfound, how⟩).elim
  have hrun := (wp_iff_run exec _).mp hnever
  rcases hres : (Op.rekey owner r e items name).program.run exec s with ⟨s', a | a⟩
  · rw [hres] at h
    cases h
  · exact hrun.1 a s' hres

/-- A rekey by the owner: the counter is the new epoch, and the bundles of the previous one
are gone. -/
structure Rekeyed (e : Int) (k k' : RoomKeys) : Prop where
  epoch : k'.epoch = some e
  bundles : ∀ e', e' ≠ e → k.bundles e' = ∅ ∨ e' = RoomHandler.previousEpoch e →
    k'.bundles e' = ∅

theorem refreshTtl_total : (RoomRepository.refreshTtl r).Total := by
  have happly : ∀ ttl, (RoomRepository.applyTtl r ttl).Total := by
    intro ttl
    unfold RoomRepository.applyTtl
    split
    · trivial
    · exact fun _ => trivial
  refine Total.bind (p := RoomRepository.findById r) (fun _ => trivial) fun found => ?_
  cases found with
  | none => exact happly _
  | some room => exact fun _ => happly _

theorem rekey_rekeyed {owner : String} {room : Room} (hfound : findRoom s r = some room)
    (howner : RoomService.isOwner room owner = true) :
    Rekeyed e (s.room r) (((Op.rekey owner r e items name).program.run exec s).1.room r) := by
  refine run_of_wp (I := fun t : Store => Rekeyed e (s.room r) (t.room r)) ?_
  refine requireOwner_bind_wp (fun hno => ?_) fun _ _ _ => ?_
  · rw [hno room hfound] at howner
    cases howner
  have hput : (forEach items fun item => RoomKeysRepository.putEncryptedKey r e
      item.recipientInternalId item.bundle).All (Fades r (· = e)) :=
    ensures_forEach (fun _ _ => (ensures_write _).mpr ⟨fun _ => rfl, fun _ _ => trivial⟩) trivial
  refine wp_seq (wp_faded_of_total (total_forEach fun _ _ _ => trivial) hput .refl)
    fun _ t ht => ?_
  have hrest : ∀ t, Faded (· = e) (s.room r) (t.room r) → (do
      RoomKeysRepository.setCurrentEpoch r e
      RoomKeysRepository.deleteEpoch r (RoomHandler.previousEpoch e)
      forEach (items.filter fun item => hasText item.recipientInternalId) fun item => do
        write (.send item.recipientInternalId (.keyBundle r e item.bundle))
        write (.send item.recipientInternalId (.roomRekey r e)) : Prog Unit).wp exec
      (fun _ t => Rekeyed e (s.room r) (t.room r)) (fun t => Rekeyed e (s.room r) (t.room r)) t := by
    intro t ht
    have hdone : Rekeyed e (s.room r)
        ((exec (.del r [.bundles (RoomHandler.previousEpoch e)])
          (exec (.setEpoch r e) t)).room r) := by
      simp only [Store.exec, atRoom_room, List.foldl_cons, List.foldl_nil, RoomKeys.del]
      refine ⟨rfl, fun e' hne h => ?_⟩
      simp only [Function.update_apply]
      split
      · rfl
      · rename_i hprev
        exact ht.bundles e' hne (h.resolve_right hprev)
    refine (wp_bind ..).mpr ((wp_write _).mpr ((wp_bind ..).mpr ((wp_write _).mpr ?_)))
    refine Total.wp_of_all (φ := Fades r (fun _ => False)) (total_forEach fun _ _ _ _ => trivial)
      (ensures_forEach (fun _ _ => ⟨trivial, fun _ _ => ⟨trivial, fun _ _ => trivial⟩⟩) trivial)
      (fun c u hc hu => ?_) hdone
    have hfaded := faded_exec (s := u) hc
    exact ⟨hfaded.epoch.trans hu.epoch,
      fun e' hne h => hfaded.bundles e' id (hu.bundles e' hne h)⟩
  cases name with
  | none => exact hrest t ht
  | some texts =>
      refine wp_seq (wp_faded_of_total (fun _ _ => refreshTtl_total) ?_ ht) fun _ => hrest
      exact ⟨trivial, fun _ _ => ⟨trivial, fun _ _ => refreshTtl_all fun _ => trivial⟩⟩

end Requests

end Rooms

end BurnedChats

import BurnedChats.Backend.AutoBurn

/-!
# Rooms burned in time

While the hash of a room with an instant is there, something is left that burns the room
once the instant has come: the trigger, its event, or a call under way (`Arming`). Once
the hash is gone, a burn has reached the room or is still to come (`Ending`). `Timed` says
so, every timely step keeps it (`timed_preserved`), and where nothing is under way or
waiting it is what is asked of the room (`burned_in_time`).
-/

namespace BurnedChats

namespace AutoBurn

open Rooms Store Program Interleave

/-! ## What calls are about to do -/

/-- The call goes on to set the trigger or to burn the room, or it takes up the trigger's
event when the instant has come. -/
def Arming (r : String) (now t : Nat) (p : Prog Unit) : Prop :=
  p.Owes (setsTrigger r) ∨ p.Owes (deletesHash r)
    ∨ t ≤ now ∧ (p = handler r .trigger ∨ p = judge r (some t))

/-- The call goes on to burn a room whose hash has expired. -/
def Ending (r : String) (p : Prog Unit) : Prop := p.Owes (deletesHash r) ∨ p = handler r .hash

/-- How far the trigger's handler has come; from its verdict on the instant has come. -/
def Judged (r : String) (latest : Option Nat) (now : Nat) (p : Prog Unit) : Prop :=
  p.isOver = true ∨ p = onExpired r .trigger ∨ p = handler r .trigger ∨ p = judge r latest
    ∨ ∀ t, latest = some t → t ≤ now

/-- What the program of a call comes to, whatever the others do. -/
structure Sane (r : String) (p : RoomCall) : Prop where
  may : p.Obeys Op.program May
  deletes : p.Follows Op.program (deletesTrigger r) (deletesHash r)
  instants : p.Follows Op.program (setsInstant r) (setsTrigger r)
  takes : (∃ x event, p.op = .expired x event ∧ p.rest Op.program = onExpired x event)
    ∨ (p.rest Op.program).All (¬ takes ·)

section Calls

variable {r : String} {now t : Nat} {latest : Option Nat} {p p' : RoomCall} {s s' : Store}
  {c : Command} {next : Store → Prog Unit} {q : Prog Unit} {l : Log}

theorem sane_arriving (op : Op) : Sane r (.arriving op) where
  may := program_may op
  deletes := program_follows_deletes op
  instants := program_follows_instant op
  takes := by
    rcases program_takes op with ⟨x, event, rfl⟩ | h
    · exact .inl ⟨x, event, rfl, rfl⟩
    · exact .inr h

theorem Sane.step (h : Sane r p) (hs : server.step p s = some (s', p')) : Sane r p' where
  may := h.may.step hs
  deletes := h.deletes.step hs
  instants := h.instants.step hs
  takes := by
    have hop : p'.op = p.op := (Call.step_cases hs).1
    rcases Call.rest_step hs with ⟨-, hr⟩ | hr
    · rw [hop, hr]
      exact h.takes
    · refine .inr ?_
      rcases h.takes with ⟨x, event, -, he⟩ | hall
      · rw [he, onExpired_eq] at hr
        obtain ⟨-, hrest⟩ := Prod.mk.inj (Option.some.inj hr)
        exact hrest ▸ handler_takes
      · exact hall.step trivial hr

/-- Only the handler of an event takes it, and does so first. -/
theorem Sane.took (h : Sane r p) {event : Expired}
    (hrest : p.rest Op.program = .exec (.takeExpired r event) next) :
    ∀ s, next s = handler r event := by
  rcases h.takes with ⟨x, event', -, he⟩ | hall
  · rw [hrest, onExpired_eq] at he
    obtain ⟨hc, hnext⟩ := Program.exec.inj he
    obtain ⟨rfl, rfl⟩ := Command.takeExpired.inj hc
    exact fun s => congrFun hnext s
  · rw [hrest] at hall
    exact absurd ⟨r, event, rfl⟩ hall.1

theorem Arming.mono {now' : Nat} (h : Arming r now t q) (hle : now ≤ now') :
    Arming r now' t q :=
  h.imp_right (Or.imp_right fun hq => ⟨hq.1.trans hle, hq.2⟩)

theorem Judged.mono {now' : Nat} (h : Judged r latest now q) (hle : now ≤ now') :
    Judged r latest now' q :=
  h.imp_right (Or.imp_right (Or.imp_right (Or.imp_right fun hq t ht => (hq t ht).trans hle)))

theorem Arming.not_isOver (h : Arming r now t q) : q.isOver = false := by
  rcases h with h | h | ⟨-, rfl | rfl⟩
  · exact h.not_isOver
  · exact h.not_isOver
  · rw [handler_trigger_eq]
    rfl
  · rfl

theorem Ending.not_isOver (h : Ending r q) : q.isOver = false := by
  rcases h with h | rfl
  · exact h.not_isOver
  · rfl

theorem rest_isOver (h : p.isOver = true) : (p.rest Op.program).isOver = true := by
  cases p with
  | arriving op => cases h
  | running op rest => exact h

/-- A room that is stored is found with its instant. -/
theorem findRoom_of_hash {hash : RoomHash} (hh : s.hash r = some hash)
    (hsaved : hash.saved.isSome = true) :
    ∃ room, findRoom s r = some room ∧ room.autoBurnAt = hash.autoBurnAt := by
  obtain ⟨saved, hsaved⟩ := Option.isSome_iff_exists.mp hsaved
  rw [findRoom, hh]
  exact ⟨_, by rw [Option.bind_some, RoomHash.parse, hsaved]; rfl, rfl⟩

theorem hash_of_findRoom {room : Room} (h : findRoom s r = some room) :
    ∃ hash, s.hash r = some hash ∧ room.autoBurnAt = hash.autoBurnAt := by
  obtain ⟨hash, hh, hparse⟩ := Option.bind_eq_some_iff.mp h
  obtain ⟨saved, -, rfl⟩ := Option.map_eq_some_iff.mp hparse
  exact ⟨hash, hh, rfl⟩

/-- A read brings the call nearer to what it is about to do. -/
theorem Arming.read (h : Arming r s.now t (.read next))
    (hfound : ∃ room, findRoom s r = some room ∧ room.autoBurnAt = some t) :
    Arming r s.now t (next s) := by
  rcases h with h | h | ⟨hle, h | h⟩
  · exact .inl (h s)
  · exact .inr (.inl (h s))
  · rw [handler_trigger_eq] at h
    obtain ⟨room, hroom, hat⟩ := hfound
    have hnext : next s = _ := congrFun (Program.read.inj h) s
    refine .inr (.inr ⟨hle, .inr ?_⟩)
    rw [hnext, hroom, ← hat]
    rfl
  · have hnext : next s = verdict r (some t) s.now := congrFun (Program.read.inj h) s
    refine .inr (.inl ?_)
    rw [hnext, verdict, if_neg (Nat.not_lt.mpr hle)]
    exact burn_owes

theorem Ending.read (h : Ending r (.read next)) (hmembers : s.smembers r .members ≠ []) :
    Ending r (next s) := by
  rcases h with h | h
  · exact .inl (h s)
  · rw [handler_hash_eq] at h
    have hnext : next s = _ := congrFun (Program.read.inj h) s
    refine .inl ?_
    rw [hnext, if_neg (by simpa using hmembers)]
    exact burn_owes

theorem Judged.read (h : Judged r latest s.now (.read next))
    (hfound : ∀ room, findRoom s r = some room → room.autoBurnAt = latest) :
    Judged r latest s.now (next s) := by
  rcases h with h | h | h | h | h
  · cases h
  · rw [onExpired_eq] at h
    cases h
  · rw [handler_trigger_eq] at h
    have hnext : next s = _ := congrFun (Program.read.inj h) s
    rw [hnext]
    cases hroom : findRoom s r with
    | none => exact .inl rfl
    | some room =>
        refine .inr (.inr (.inr (.inl ?_)))
        rw [← hfound room hroom]
        rfl
  · have hnext : next s = verdict r latest s.now := congrFun (Program.read.inj h) s
    rw [hnext]
    cases latest with
    | none => exact .inl rfl
    | some t =>
        by_cases hlt : s.now < t
        · refine .inl ?_
          rw [verdict, if_pos hlt]
          rfl
        · refine .inr (.inr (.inr (.inr fun t' ht => ?_)))
          obtain rfl := Option.some.inj ht
          exact Nat.le_of_not_lt hlt
  · exact .inr (.inr (.inr (.inr h)))

theorem Arming.exec (h : Arming r now t (.exec c next)) :
    setsTrigger r c ∨ deletesHash r c ∨ ∀ s, Arming r now t (next s) := by
  rcases h with h | h | ⟨-, h | h⟩
  · exact h.imp_right fun h => .inr fun s => .inl (h s)
  · exact .inr (h.imp_right fun h s => .inr (.inl (h s)))
  · rw [handler_trigger_eq] at h
    cases h
  · cases h

theorem Ending.exec (h : Ending r (.exec c next)) :
    deletesHash r c ∨ ∀ s, Ending r (next s) := by
  rcases h with h | h
  · exact h.imp_right fun h s => .inl (h s)
  · cases h

theorem Judged.exec (h : Judged r latest now (.exec c next)) :
    (∀ s, next s = handler r .trigger) ∨ ∀ t, latest = some t → t ≤ now := by
  rcases h with h | h | h | h | h
  · cases h
  · rw [onExpired_eq] at h
    exact .inl fun s => congrFun (Program.exec.inj h).2 s
  · rw [handler_trigger_eq] at h
    cases h
  · cases h
  · exact .inr h

end Calls

/-! ## The room and its log -/

/-- The hash keeps the instant that was set last, no trigger is overdue, and there are
members until a burn. -/
structure Aligned (f : Facets) (now : Nat) (l : Log) : Prop where
  hash : ∀ hash, f.hash = some hash → hash.saved.isSome = true ∧ hash.autoBurnAt = l.latest
  trigger : ∀ deadline, f.trigger = some deadline → now ≤ deadline
  members : l.burned = true ∨ f.members ≠ []

/-- Something is left that burns the room at the instant. -/
def Armed (r : String) (f : Facets) (now : Nat) (pool : List RoomCall) (t : Nat) : Prop :=
  f.trigger = some t ∨ .trigger ∈ f.expired ∧ t ≤ now
    ∨ ∃ p ∈ pool, Arming r now t (p.rest Op.program)

/-- A burn has reached the room, or something is left that burns it. -/
def Ended (r : String) (f : Facets) (pool : List RoomCall) (l : Log) : Prop :=
  l.burned = true ∨ .hash ∈ f.expired ∨ ∃ p ∈ pool, Ending r (p.rest Op.program)

/-- What holds in every state of a timely run. -/
structure Timed (r : String) (f : Facets) (now : Nat) (l : Log) (pool : List RoomCall) : Prop where
  calls : ∀ p ∈ pool, Sane r p
  aligned : Aligned f now l
  armed : f.hash.isSome = true → ∀ t, l.latest = some t → Armed r f now pool t
  ended : f.hash = none → Ended r f pool l
  judged : ∀ p ∈ pool, p.op = .expired r .trigger → Judged r l.latest now (p.rest Op.program)

/-- What a step does to the room that sets no instant. `q` is what the call goes on to
do. -/
structure Gentle (r : String) (f f' : Facets) (l l' : Log) (q : Prog Unit) : Prop where
  latest : l'.latest = l.latest
  burned : l.burned = true → l'.burned = true
  stays : f'.hash.isSome = true → f.hash.isSome = true
  goes : f'.hash = none → f.hash = none ∨ l'.burned = true
  trigger : ∀ t, l.latest = some t → f.trigger = some t → f'.trigger = some t ∨ f'.hash = none
    ∨ q.Owes (deletesHash r)
  expired : ∀ event ∈ f.expired, event ∈ f'.expired ∨ q = handler r event

section Turns

variable {r : String} {now i : Nat} {p p' : RoomCall} {s : Store} {c : Command}
  {next : Store → Prog Unit} {q : Prog Unit} {l l' : Log} {f f' : Facets} {pool : List RoomCall}

theorem Gentle.refl : Gentle r f f l l q :=
  ⟨rfl, id, id, .inl, fun _ _ h => .inl h, fun _ h => .inl h⟩

theorem Aligned.found {t : Nat} (h : Aligned (facets r s) now l)
    (hsome : (facets r s).hash.isSome = true) (ht : l.latest = some t) :
    ∃ room, findRoom s r = some room ∧ room.autoBurnAt = some t := by
  obtain ⟨hash, hhash⟩ := Option.isSome_iff_exists.mp hsome
  obtain ⟨hsaved, hat⟩ := h.hash hash hhash
  obtain ⟨room, hroom, he⟩ := findRoom_of_hash hhash hsaved
  exact ⟨room, hroom, by rw [he, hat, ht]⟩

theorem Aligned.instant {room : Room} (h : Aligned (facets r s) now l)
    (hroom : findRoom s r = some room) : room.autoBurnAt = l.latest := by
  obtain ⟨hash, hhash, he⟩ := hash_of_findRoom hroom
  rw [he, (h.hash hash hhash).2]

/-- A call takes a step that sets no instant. -/
theorem Timed.turn (h : Timed r f now l pool) (hi : pool[i]? = some p) (hsane : Sane r p')
    (hop : p'.op = p.op) (hgentle : Gentle r f f' l l' (p'.rest Op.program))
    (haligned : Aligned f' now l')
    (harming : f'.hash.isSome = true → ∀ t, l.latest = some t →
      Arming r now t (p.rest Op.program) →
        Arming r now t (p'.rest Op.program) ∨ f'.trigger = some t)
    (hending : l'.burned = false → Ending r (p.rest Op.program) → Ending r (p'.rest Op.program))
    (hjudged : Judged r l.latest now (p.rest Op.program) →
      Judged r l.latest now (p'.rest Op.program)) :
    Timed r f' now l' (pool.set i p') where
  calls := forall_turn h.calls hsane
  aligned := haligned
  armed := by
    intro hsome t ht
    rw [hgentle.latest] at ht
    have hp' : p' ∈ pool.set i p' := List.mem_set (List.getElem?_eq_some_iff.mp hi).1 p'
    rcases h.armed (hgentle.stays hsome) t ht with htrigger | ⟨hevent, hle⟩ | hcall
    · rcases hgentle.trigger t ht htrigger with htrigger | hnone | howes
      · exact .inl htrigger
      · rw [hnone] at hsome
        cases hsome
      · exact .inr (.inr ⟨p', hp', .inr (.inl howes)⟩)
    · rcases hgentle.expired .trigger hevent with hevent | hq
      · exact .inr (.inl ⟨hevent, hle⟩)
      · exact .inr (.inr ⟨p', hp', .inr (.inr ⟨hle, .inl hq⟩)⟩)
    · by_cases htrigger : f'.trigger = some t
      · exact .inl htrigger
      · refine .inr (.inr (exists_turn hi (fun ha => ?_) hcall))
        exact (harming hsome t ht ha).resolve_right htrigger
  ended := by
    intro hnone
    cases hburned : l'.burned with
    | true => exact .inl hburned
    | false =>
        have hp' : p' ∈ pool.set i p' := List.mem_set (List.getElem?_eq_some_iff.mp hi).1 p'
        have hgone : f.hash = none := (hgentle.goes hnone).resolve_right (by simp [hburned])
        rcases h.ended hgone with hb | hevent | hcall
        · exact .inl (hgentle.burned hb)
        · rcases hgentle.expired .hash hevent with hevent | hq
          · exact .inr (.inl hevent)
          · exact .inr (.inr ⟨p', hp', .inr hq⟩)
        · exact .inr (.inr (exists_turn hi (hending hburned) hcall))
  judged := by
    rw [hgentle.latest]
    exact forall_turn h.judged fun hop' =>
      hjudged (h.judged p (List.mem_of_getElem? hi) (hop ▸ hop'))

/-- A call begins. -/
theorem Timed.begin (h : Timed r f now l pool) (hi : pool[i]? = some p) (hsane : Sane r p')
    (hop : p'.op = p.op) (hrest : p'.rest Op.program = p.rest Op.program) :
    Timed r f now l (pool.set i p') :=
  h.turn hi hsane hop .refl h.aligned (fun _ _ _ ha => .inl (hrest ▸ ha))
    (fun _ he => hrest ▸ he) fun hj => hrest ▸ hj

theorem Timed.read (h : Timed r (facets r s) s.now l pool) (hi : pool[i]? = some p)
    (hsane : Sane r p') (hop : p'.op = p.op) (hrest : p.rest Op.program = .read next)
    (hrest' : p'.rest Op.program = next s) :
    Timed r (facets r s) s.now l (pool.set i p') := by
  refine h.turn hi hsane hop .refl h.aligned ?_ ?_ ?_
  · intro hsome t ht ha
    rw [hrest] at ha
    rw [hrest']
    exact .inl (ha.read (h.aligned.found hsome ht))
  · intro hburned he
    rw [hrest] at he
    rw [hrest']
    exact he.read (h.aligned.members.resolve_left (by simp [hburned]))
  · intro hj
    rw [hrest] at hj
    rw [hrest']
    exact hj.read fun room hroom => h.aligned.instant hroom

/-! ### Commands -/

theorem note_quiet (h : touches r c = false) : note r c l = l := by
  cases c with
  | hset x fields => rw [note, if_neg (of_decide_eq_false h)]
  | del x keys =>
      rw [note, if_neg]
      rintro ⟨hx, hkeys⟩
      have hno : ∀ key ∈ keys, ¬ (key = .room ∨ key = .autoBurn ∨ key = .set .members) := by
        simpa [touches, hx, not_or, and_assoc] using h
      rcases hkeys with hk | hk
      · exact hno _ hk (.inl rfl)
      · exact hno _ hk (.inr (.inr rfl))
  | _ => rfl

theorem instantOf_of_not_mem {fields : List Field} {instant : Option Nat}
    (h : ∀ t, .autoBurnAt t ∉ fields) : instantOf fields instant = instant := by
  induction fields generalizing instant with
  | nil => rfl
  | cons field fields ih =>
      have hrest : ∀ t, .autoBurnAt t ∉ fields := fun t ht => h t (List.mem_cons_of_mem _ ht)
      rw [instantOf, List.foldl_cons, ← instantOf, ih hrest]
      cases field with
      | autoBurnAt t => exact absurd List.mem_cons_self (h t)
      | _ => rfl

theorem hset_keeps {fields : List Field} {hash : RoomHash} (h : hash.saved.isSome = true) :
    (Store.hset fields (some hash)).saved.isSome = true
      ∧ (Store.hset fields (some hash)).autoBurnAt = instantOf fields hash.autoBurnAt := by
  rw [Store.hset, Option.getD_some, instantOf]
  induction fields generalizing hash with
  | nil => exact ⟨h, rfl⟩
  | cons field fields ih =>
      rw [List.foldl_cons, List.foldl_cons]
      cases field with
      | saved saved => exact ih rfl
      | autoBurnAt t => exact ih h
      | _ => exact ih h

theorem Aligned.setTrigger {ttl t : Nat} (h : Aligned (facets r s) s.now l)
    (hg : Timely r ⟨(s, l), pool⟩ (.setTrigger r ttl)) (hsome : (facets r s).hash.isSome = true)
    (ht : l.latest = some t) : (facets r (Store.exec (.setTrigger r ttl) s)).trigger = some t := by
  obtain ⟨hash, hhash⟩ := Option.isSome_iff_exists.mp hsome
  have hstored : stored s r = some t := by
    have hroom : s.hash r = some hash := hhash
    rw [stored, hroom, Option.bind_some, (h.hash hash hhash).2, ht]
  rw [facets_setTrigger, hg rfl t hstored]

theorem Aligned.exec (h : Aligned (facets r s) s.now l) (hg : Timely r ⟨(s, l), pool⟩ c) :
    Aligned (facets r (Store.exec c s)) s.now (note r c l) := by
  cases htouch : touches r c with
  | false =>
      rw [facets_exec htouch, note_quiet htouch]
      exact h
  | true =>
      cases c with
      | hset x fields =>
          obtain rfl : x = r := of_decide_eq_true htouch
          obtain ⟨old, hold⟩ := Option.isSome_iff_exists.mp (hg rfl).1
          obtain ⟨hsaved, hat⟩ := h.hash old hold
          have hkeeps : (Store.hset fields (some old)).saved.isSome = true
              ∧ (Store.hset fields (some old)).autoBurnAt = instantOf fields old.autoBurnAt :=
            hset_keeps hsaved
          rw [facets_hset, note, if_pos rfl]
          refine ⟨fun hash he => ?_, h.trigger, h.members⟩
          obtain rfl := Option.some.inj he
          rw [show s.hash x = some old from hold]
          exact ⟨hkeeps.1, by rw [hkeeps.2, hat]⟩
      | setTrigger x ttl =>
          obtain rfl : x = r := of_decide_eq_true htouch
          rw [facets_setTrigger]
          refine ⟨h.hash, fun deadline he => ?_, h.members⟩
          obtain rfl := Option.some.inj he
          exact Nat.le_add_right ..
      | sadd x key u =>
          obtain ⟨rfl, rfl⟩ : x = r ∧ key = .members := by simpa [touches] using htouch
          rw [facets_sadd]
          refine ⟨h.hash, h.trigger, .inr fun he => ?_⟩
          have hu : u ∈ sadd (s.smembers x .members) u := mem_sadd.mpr (.inr rfl)
          rw [show sadd (s.smembers x .members) u = [] from he] at hu
          cases hu
      | srem x key u =>
          obtain ⟨rfl, rfl⟩ : x = r ∧ key = .members := by simpa [touches] using htouch
          rw [facets_srem]
          refine ⟨h.hash, h.trigger, (hg rfl).imp_right ?_⟩
          rintro ⟨v, hv, hne⟩ he
          have hmem : v ∈ srem (s.smembers x .members) u := mem_srem.mpr ⟨hv, hne⟩
          rw [show srem (s.smembers x .members) u = [] from he] at hmem
          cases hmem
      | del x keys =>
          have hx : x = r := by
            by_contra hne
            simp [touches, hne] at htouch
          subst hx
          rw [facets_del, note]
          refine ⟨fun hash he => ?_, fun deadline he => ?_, ?_⟩
          · by_cases hroom : .room ∈ keys
            · rw [if_pos hroom] at he
              cases he
            · rw [if_neg hroom] at he
              obtain ⟨hsaved, hat⟩ := h.hash hash he
              split <;> exact ⟨hsaved, hat⟩
          · by_cases hb : .autoBurn ∈ keys
            · rw [if_pos hb] at he
              cases he
            · rw [if_neg hb] at he
              exact h.trigger deadline he
          · by_cases hk : .room ∈ keys ∨ .set .members ∈ keys
            · rw [if_pos ⟨rfl, hk⟩]
              exact .inl rfl
            · rw [if_neg fun hk' => hk hk'.2, if_neg fun hm => hk (.inr hm)]
              exact h.members
      | takeExpired x event =>
          obtain rfl : x = r := of_decide_eq_true htouch
          rw [facets_takeExpired]
          exact ⟨h.hash, h.trigger, h.members⟩
      | _ => cases htouch

/-- What a command that sets no instant does, to a call that `Sane` calls are. -/
theorem Gentle.exec (h : Aligned (facets r s) s.now l) (hg : Timely r ⟨(s, l), pool⟩ c)
    (hinstant : ¬ setsInstant r c)
    (hdel : ∀ keys, c = .del r keys → .autoBurn ∈ keys → q.Owes (deletesHash r))
    (htook : ∀ event, c = .takeExpired r event → q = handler r event) :
    Gentle r (facets r s) (facets r (Store.exec c s)) l (note r c l) q := by
  cases htouch : touches r c with
  | false =>
      rw [facets_exec htouch, note_quiet htouch]
      exact .refl
  | true =>
      cases c with
      | hset x fields =>
          obtain rfl : x = r := of_decide_eq_true htouch
          rw [facets_hset, note, if_pos rfl,
            instantOf_of_not_mem fun t ht => hinstant ⟨fields, t, rfl, ht⟩]
          exact ⟨rfl, id, fun _ => (hg rfl).1, fun he => (by cases he), fun _ _ h => .inl h,
            fun _ h => .inl h⟩
      | setTrigger x ttl =>
          obtain rfl : x = r := of_decide_eq_true htouch
          have hsets := fun t => h.setTrigger (t := t) hg
          rw [facets_setTrigger] at hsets ⊢
          refine ⟨rfl, id, id, .inl, fun t ht _ => ?_, fun _ h => .inl h⟩
          cases hhash : (facets x s).hash with
          | none => exact .inr (.inl rfl)
          | some hash => exact .inl (hsets t (by rw [hhash]; rfl) ht)
      | sadd x key u =>
          obtain ⟨rfl, rfl⟩ : x = r ∧ key = .members := by simpa [touches] using htouch
          rw [facets_sadd]
          exact ⟨rfl, id, id, .inl, fun _ _ h => .inl h, fun _ h => .inl h⟩
      | srem x key u =>
          obtain ⟨rfl, rfl⟩ : x = r ∧ key = .members := by simpa [touches] using htouch
          rw [facets_srem]
          exact ⟨rfl, id, id, .inl, fun _ _ h => .inl h, fun _ h => .inl h⟩
      | del x keys =>
          have hx : x = r := by
            by_contra hne
            simp [touches, hne] at htouch
          subst hx
          have hroom : .room ∈ keys → (note x (.del x keys) l).burned = true := fun hk => by
            rw [note, if_pos ⟨rfl, .inl hk⟩]
          rw [facets_del]
          refine ⟨?_, ?_, fun hsome => ?_, fun he => ?_, fun t _ ht => ?_, fun _ h => .inl h⟩
          · rw [note]
            split <;> rfl
          · rw [note]
            split
            · exact fun _ => rfl
            · exact id
          · by_contra hne
            have hnone : s.hash x = none := Option.not_isSome_iff_eq_none.mp hne
            simp [hnone] at hsome
          · by_cases hk : .room ∈ keys
            · exact .inr (hroom hk)
            · rw [if_neg hk] at he
              exact .inl he
          · by_cases hb : .autoBurn ∈ keys
            · exact .inr (.inr (hdel keys rfl hb))
            · exact .inl (by rw [if_neg hb]; exact ht)
      | takeExpired x event =>
          obtain rfl : x = r := of_decide_eq_true htouch
          rw [facets_takeExpired]
          refine ⟨rfl, id, id, .inl, fun _ _ h => .inl h, fun event' hmem => ?_⟩
          by_cases he : event' = event
          · exact .inr (he ▸ htook event rfl)
          · exact .inl ((List.mem_erase_of_ne he).mpr hmem)
      | _ => cases htouch

/-- A call sets an instant. -/
theorem Timed.setInstant {fields : List Field} (h : Timed r (facets r s) s.now l pool)
    (hi : pool[i]? = some p) (hsane : Sane r p') (hop : p'.op = p.op)
    (hrest : p.rest Op.program = .exec (.hset r fields) next)
    (hrest' : p'.rest Op.program = next s) (hg : Timely r ⟨(s, l), pool⟩ (.hset r fields))
    (hinstant : setsInstant r (.hset r fields)) :
    Timed r (facets r (Store.exec (.hset r fields) s)) s.now (note r (.hset r fields) l)
      (pool.set i p') where
  calls := forall_turn h.calls hsane
  aligned := h.aligned.exec hg
  armed := by
    intro _ t _
    have hfollows := (h.calls p (List.mem_of_getElem? hi)).instants
    rw [Call.Follows, hrest] at hfollows
    have howes : (p'.rest Op.program).Owes (setsTrigger r) := hrest' ▸ (hfollows s).1 hinstant
    have hp' : p' ∈ pool.set i p' := List.mem_set (List.getElem?_eq_some_iff.mp hi).1 p'
    exact .inr (.inr ⟨p', hp', .inl howes⟩)
  ended := by
    rw [facets_hset]
    exact fun he => by cases he
  judged := by
    obtain ⟨fields', t, he, hmem⟩ := hinstant
    obtain ⟨-, rfl⟩ := Command.hset.inj he
    refine forall_turn (fun q hq hop' => ?_) fun hop' => ?_
    · -- no handler has judged by the earlier instant
      by_contra hnot
      simp only [Judged, not_or] at hnot
      exact (hg rfl).2 ⟨t, hmem⟩ q hq
        ⟨hop', by simpa using hnot.1, hnot.2.1, hnot.2.2.1⟩
    · have hmay := (h.calls p (List.mem_of_getElem? hi)).may
      rw [Call.Obeys, hrest] at hmay
      obtain ⟨owner, ttl, instant, hset⟩ := may_instant hmay.1 ⟨fields, t, rfl, hmem⟩
      rw [← hop, hop'] at hset
      cases hset

/-- A call executes its command. -/
theorem Timed.exec (h : Timed r (facets r s) s.now l pool) (hi : pool[i]? = some p)
    (hsane : Sane r p') (hop : p'.op = p.op) (hrest : p.rest Op.program = .exec c next)
    (hrest' : p'.rest Op.program = next s) (hg : Timely r ⟨(s, l), pool⟩ c) :
    Timed r (facets r (Store.exec c s)) s.now (note r c l) (pool.set i p') := by
  by_cases hinstant : setsInstant r c
  · obtain ⟨fields, t, rfl, hmem⟩ := hinstant
    exact h.setInstant hi hsane hop hrest hrest' hg ⟨fields, t, rfl, hmem⟩
  have hp : Sane r p := h.calls p (List.mem_of_getElem? hi)
  have hmay := hp.may
  have hdeletes := hp.deletes
  rw [Call.Obeys, hrest] at hmay
  rw [Call.Follows, hrest] at hdeletes
  have hdel : ∀ keys, c = .del r keys → .autoBurn ∈ keys →
      (p'.rest Op.program).Owes (deletesHash r) := by
    rintro keys rfl hmem
    exact hrest' ▸ (hdeletes s).1 (may_del hmay.1 hmem)
  have htook : ∀ event, c = .takeExpired r event → p'.rest Op.program = handler r event := by
    rintro event rfl
    rw [hrest']
    exact hp.took hrest s
  have hdeleted : deletesHash r c → (facets r (Store.exec c s)).hash = none
      ∧ (note r c l).burned = true := by
    rintro rfl
    have hkey : Key.room ∈ [Key.room] := List.mem_singleton.mpr rfl
    rw [facets_del, note, if_pos (⟨rfl, .inl hkey⟩ : r = r ∧ _)]
    exact ⟨by simp, rfl⟩
  refine h.turn hi hsane hop (.exec h.aligned hg hinstant hdel htook) (h.aligned.exec hg) ?_ ?_ ?_
  · intro hsome t ht ha
    rw [hrest] at ha
    rcases ha.exec with ⟨ttl, rfl⟩ | hd | hnext
    · rw [facets_setTrigger] at hsome
      exact .inr (h.aligned.setTrigger hg hsome ht)
    · rw [(hdeleted hd).1] at hsome
      cases hsome
    · exact .inl (hrest' ▸ hnext s)
  · intro hburned he
    rw [hrest] at he
    rcases he.exec with hd | hnext
    · rw [(hdeleted hd).2] at hburned
      cases hburned
    · exact hrest' ▸ hnext s
  · intro hj
    rw [hrest] at hj
    rw [hrest']
    rcases hj.exec with hnext | hle
    · exact .inr (.inr (.inl (hnext s)))
    · exact .inr (.inr (.inr (.inr hle)))

/-! ### The clock and new calls -/

theorem facets_tick : facets r s.tick
    = ⟨if (s.room r).hashDeadline.any (· ≤ s.now + 1) then none else s.hash r,
      if (s.room r).trigger.any (· ≤ s.now + 1) then none else (s.room r).trigger,
      if (s.room r).membersDeadline.any (· ≤ s.now + 1) then [] else s.smembers r .members,
      (s.room r).expired ++ (if (s.room r).trigger.any (· ≤ s.now + 1) then [.trigger] else [])
        ++ (if (s.room r).hashDeadline.any (· ≤ s.now + 1) then [.hash] else [])⟩ := by
  have hsets : ((s.room r).expireAt (s.now + 1)).sets .members
      = if (s.room r).membersDeadline.any (· ≤ s.now + 1) then []
        else (s.room r).sets .members := by
    simp only [RoomKeys.expireAt]
    split
    · rw [withSet_sets, if_pos rfl]
    · rfl
  rw [facets, smembers]
  exact congrArg (Facets.mk _ _ · _) hsets

theorem Timed.tick (h : Timed r (facets r s) s.now l pool) (hg : Lasting r ⟨(s, l), pool⟩) :
    Timed r (facets r s.tick) (s.now + 1) l pool := by
  rw [facets_tick]
  refine ⟨h.calls, ⟨fun hash he => ?_, fun deadline he => ?_, ?_⟩, fun hsome t ht => ?_,
    fun hnone => ?_, fun p hp hop => (h.judged p hp hop).mono (Nat.le_succ _)⟩
  · dsimp only at he
    split at he
    · cases he
    · exact h.aligned.hash hash he
  · dsimp only at he
    split at he
    · cases he
    · rename_i hdue
      have hlt : ¬ deadline ≤ s.now + 1 := by simpa [he] using hdue
      omega
  · rcases hg with hburned | hstay
    · exact .inl hburned
    · have hdue : (s.room r).membersDeadline.any (· ≤ s.now + 1) = false := hstay
      simp only [hdue, Bool.false_eq_true, if_false]
      exact h.aligned.members
  · have hhash : (facets r s).hash.isSome = true := by
      dsimp only at hsome
      split at hsome
      · cases hsome
      · exact hsome
    rcases h.armed hhash t ht with htrigger | ⟨hevent, hle⟩ | ⟨p, hp, ha⟩
    · have hroom : (s.room r).trigger = some t := htrigger
      by_cases hdue : t ≤ s.now + 1
      · refine .inr (.inl ⟨?_, hdue⟩)
        simp [hroom, hdue]
      · refine .inl ?_
        simp [hroom, hdue]
    · refine .inr (.inl ⟨?_, Nat.le_succ_of_le hle⟩)
      exact List.mem_append_left _ (List.mem_append_left _ hevent)
    · exact .inr (.inr ⟨p, hp, ha.mono (Nat.le_succ _)⟩)
  · by_cases hdue : (s.room r).hashDeadline.any (· ≤ s.now + 1) = true
    · refine .inr (.inl ?_)
      simp [hdue]
    · dsimp only at hnone
      rw [if_neg hdue] at hnone
      rcases h.ended hnone with hburned | hevent | hcall
      · exact .inl hburned
      · exact .inr (.inl (List.mem_append_left _ (List.mem_append_left _ hevent)))
      · exact .inr (.inr hcall)

theorem Timed.start (h : Timed r f now l pool) (op : Op) :
    Timed r f now l (pool ++ [.arriving op]) where
  calls := forall_start h.calls (sane_arriving op)
  aligned := h.aligned
  armed := fun hsome t ht => (h.armed hsome t ht).imp_right (Or.imp_right fun ⟨p, hp, ha⟩ =>
    ⟨p, List.mem_append_left _ hp, ha⟩)
  ended := fun hnone => (h.ended hnone).imp_right (Or.imp_right fun ⟨p, hp, he⟩ =>
    ⟨p, List.mem_append_left _ hp, he⟩)
  judged := forall_start h.judged fun hop => .inr (.inl (by rw [show op = _ from hop]; rfl))

end Turns

/-! ## Runs -/

section Runs

variable {r : String} {c : State} {s : Store}

theorem Timed.step {p p' : RoomCall} {i : Nat} {s' : Store × Log}
    (h : Timed r (facets r c.store.1) c.store.1.now c.store.2 c.pool)
    (hg : Orderly r c (.turn i)) (hi : c.pool[i]? = some p)
    (hs : (recording r).step p c.store = some (s', p')) :
    Timed r (facets r s'.1) s'.1.now s'.2 (c.pool.set i p') := by
  obtain ⟨hserver, hlog⟩ := Server.recording_step hs
  have hsane : Sane r p' := (h.calls p (List.mem_of_getElem? hi)).step hserver
  have hop : p'.op = p.op := (Call.step_cases hserver).1
  rcases Call.step_rest hserver with ⟨hstore, hcmd, hrest⟩
    | ⟨next, hrest, hcmd, hstore, hrest'⟩ | ⟨d, next, hrest, hcmd, hstore, hrest'⟩
  · rw [record, hcmd] at hlog
    rw [hstore, hlog]
    exact h.begin hi hsane hop hrest
  · rw [record, hcmd] at hlog
    rw [hstore, hlog]
    exact h.read hi hsane hop hrest hrest'
  · rw [record, hcmd] at hlog
    rw [hstore, hlog, now_exec]
    exact h.exec hi hsane hop hrest hrest' (hg p p.op d hi hcmd)

theorem timed_preserved : (recording r).Preserves (Orderly r)
    fun c => Timed r (facets r c.store.1) c.store.1.now c.store.2 c.pool where
  start c p h _ hp := by
    cases p with
    | arriving op => exact h.start op
    | running op rest => cases hp
  turn c i p s' p' h hg hi hs := h.step hg hi hs
  env c e s' h hg hs := by
    obtain ⟨hserver, hlog⟩ := Server.recording_env hs
    cases e with
    | tick =>
        have hs' : s'.1 = c.store.1.tick := (Option.some.inj hserver).symm
        dsimp only
        rw [hs', hlog]
        exact h.tick hg
    | receive i =>
        have hs' : s'.1 = { c.store.1 with sent := c.store.1.sent.eraseIdx i } :=
          (Option.some.inj hserver).symm
        dsimp only
        rw [hs', hlog]
        exact h

theorem timed_opened (h : Opened r s) : Timed r (facets r s) s.now ⟨none, false⟩ [] where
  calls := fun _ hp => by cases hp
  aligned := {
    hash := by
      obtain ⟨hash, hhash, hsaved, hat⟩ := h.hash
      intro hash' he
      obtain rfl := Option.some.inj (hhash.symm.trans he)
      exact ⟨hsaved, hat⟩
    trigger := fun deadline he => by
      rw [show (facets r s).trigger = none from h.trigger] at he
      cases he
    members := .inr h.members }
  armed := fun _ _ ht => by cases ht
  ended := fun hnone => by
    obtain ⟨hash, hhash, -⟩ := h.hash
    rw [show (facets r s).hash = some hash from hhash] at hnone
    cases hnone
  judged := fun _ hp => by cases hp

theorem Timed.managed (h : Timed r (facets r c.store.1) c.store.1.now c.store.2 c.pool) :
    Managed r c where
  burned := by
    intro hidle hexpired t ht hpast
    have hover : ∀ p ∈ c.pool, (p.rest Op.program).isOver = true :=
      fun p hp => rest_isOver (List.all_eq_true.mp hidle p hp)
    have hnone : c.store.1.hash r = none := by
      by_contra hne
      have hsome : (facets r c.store.1).hash.isSome = true := Option.isSome_iff_ne_none.mpr hne
      rcases h.armed hsome t ht with htrigger | ⟨hevent, -⟩ | ⟨p, hp, ha⟩
      · have := h.aligned.trigger t htrigger
        omega
      · rw [show (facets r c.store.1).expired = [] from hexpired] at hevent
        cases hevent
      · have hrest := hover p hp
        rw [ha.not_isOver] at hrest
        cases hrest
    refine ⟨hnone, ?_⟩
    rcases h.ended hnone with hburned | hevent | ⟨p, hp, he⟩
    · exact hburned
    · rw [show (facets r c.store.1).expired = [] from hexpired] at hevent
      cases hevent
    · have hrest := hover p hp
      rw [he.not_isOver] at hrest
      cases hrest
  kept := by
    intro p hp keys hcmd hroom
    obtain ⟨next, rfl⟩ := Call.command?_eq_some hcmd
    rcases h.judged _ hp rfl with hj | hj | hj | hj | hj
    · cases hj
    · rw [onExpired_eq] at hj
      cases hj
    · rw [handler_trigger_eq] at hj
      cases hj
    · cases hj
    · exact hj

/-- No room outlives its instant, and the trigger burns none before. -/
theorem burned_in_time (hs : Opened r s) (h : (recording r).Run (Orderly r) (start s) c) :
    Managed r c :=
  (h.invariant timed_preserved (timed_opened hs)).managed

/-! ### One owner, and one who changes his mind -/

def handles : RoomCall → Bool
  | .arriving (.expired ..) => true
  | .running (.expired ..) _ => true
  | _ => false

/-- Enough for a step to be orderly. -/
def heeds (r : String) (c : State) : Action RoomCall Move → Bool
  | .turn i =>
      match c.pool[i]?.bind (·.command?) with
      | some (_, .hset x _) =>
          x ≠ r || (c.store.1.hash r).isSome && c.pool.all (!handles ·)
      | some (_, .setTrigger x ttl) => x ≠ r || stored c.store.1 r = some (c.store.1.now + ttl)
      | some (_, .srem x .members _) => x ≠ r
      | _ => true
  | .env .tick => !(c.store.1.room r).membersDeadline.any (· ≤ c.store.1.now + 1)
  | _ => true

theorem not_judging_of_handles {p : RoomCall} (h : handles p = false) : ¬ Judging r p := by
  rintro ⟨hop, -⟩
  cases p with
  | arriving op =>
      obtain rfl : op = .expired r .trigger := hop
      cases h
  | running op rest =>
      obtain rfl : op = .expired r .trigger := hop
      cases h

theorem orderly_of_heeds {a : Action RoomCall Move} (h : heeds r c a = true) :
    Orderly r c a := by
  cases a with
  | start p => trivial
  | turn i =>
      intro p op d hi hcmd
      simp only [heeds, hi, Option.bind_some, hcmd] at h
      cases d with
      | hset x fields =>
          intro hx
          have hboth : (c.store.1.hash r).isSome = true ∧ ∀ q ∈ c.pool, handles q = false := by
            simpa [hx] using h
          exact ⟨hboth.1, fun _ q hq => not_judging_of_handles (hboth.2 q hq)⟩
      | setTrigger x ttl =>
          intro hx t ht
          have hstored : stored c.store.1 r = some (c.store.1.now + ttl) := by simpa [hx] using h
          exact Option.some.inj (ht.symm.trans hstored)
      | srem x key u =>
          cases key with
          | members => exact fun hx => absurd hx (by simpa using h)
          | _ => trivial
      | _ => trivial
  | env e =>
      cases e with
      | tick => exact .inr (by simpa [heeds] using h)
      | receive i => trivial

/-- The owner asks for an instant. -/
def asks (instant : Int) : Action RoomCall Move :=
  .start (.arriving (.setTtl "o" "r" none (some instant)))

def turns (i n : Nat) : List (Action RoomCall Move) := List.replicate n (.turn i)

/-- The clock ticks to the instant, both events are handled, and it ticks on. -/
def askedOnce : List (Action RoomCall Move) :=
  asks 2 :: turns 0 7 ++ [.env .tick, .env .tick]
    ++ .start (.arriving (.expired "r" .hash)) :: turns 1 24
    ++ .start (.arriving (.expired "r" .trigger)) :: turns 2 3 ++ [.env .tick]

theorem opened_sampleStore : Opened "r" sampleStore where
  hash := ⟨_, rfl, rfl, rfl⟩
  trigger := rfl
  members := by decide

/-- Nothing is under way or waiting, and an instant has passed. -/
def past (c : State) : Bool :=
  c.pool.all Call.isOver && (c.store.1.room "r").expired.isEmpty
    && c.store.2.latest.any (· < c.store.1.now)

theorem past_iff : past c = true ↔ c.pool.all Call.isOver = true
    ∧ (c.store.1.room "r").expired = [] ∧ ∃ t, c.store.2.latest = some t ∧ t < c.store.1.now := by
  simp [past, and_assoc, Option.any_eq_true]

theorem asked_room_burned : ∃ c, (recording "r").Run (Orderly "r") (start sampleStore) c
    ∧ past c = true ∧ Managed "r" c := by
  obtain ⟨c, hrun, hpast⟩ := (recording "r").exists_run_of_execWhile (heeds "r")
    (start sampleStore) askedOnce past (fun _ _ => orderly_of_heeds) (by decide +kernel)
  exact ⟨c, hrun, hpast, burned_in_time opened_sampleStore hrun⟩

/-- The owner asks for an instant and for an earlier one before the first trigger is
set, which then replaces the second. -/
def askedTwice : List (Action RoomCall Move) :=
  asks 5 :: turns 0 5 ++ asks 3 :: turns 1 7 ++ turns 0 2 ++ List.replicate 4 (.env .tick)

theorem room_outlives_instant : ¬ ∀ r s c, Opened r s →
    (recording r).Run (fun c a => delivered c a = true) (start s) c → Managed r c := by
  intro hall
  obtain ⟨c, hrun, hc⟩ := (recording "r").exists_run_of_execWhile delivered (start sampleStore)
    askedTwice (fun c => past c && (c.store.1.hash "r").isSome) (fun _ _ h => h)
    (by decide +kernel)
  obtain ⟨hpast, hsome⟩ := Bool.and_eq_true_iff.mp hc
  obtain ⟨hidle, hexpired, t, ht, hlt⟩ := past_iff.mp hpast
  have hgone := ((hall "r" sampleStore c opened_sampleStore hrun).burned hidle hexpired t ht hlt).1
  rw [hgone] at hsome
  cases hsome

end Runs

end AutoBurn

end BurnedChats

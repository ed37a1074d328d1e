import BurnedChats.Lib.EditLog
import BurnedChats.Lib.Interleave
import BurnedChats.Backend.RoomStore
import BurnedChats.Backend.Sessions

/-!
# The messages of a room

`messages:{room}` is one Redis list. `saveMessage` pushes and trims it and prunes
it where the room limits the age of its messages; an edit reads the list and
writes back by position (`LSET`), a deletion removes one exact value (`LREM`), and
a prune reads the list, deletes the key and pushes back what it keeps, one message
after the other. Between two commands other operations may run.

What the list should hold is kept in a log. `list_exact` says that list and log
agree, in order, in every run in which no write falls into somebody else's prune
and edits find their message where they have read it.
-/

namespace BurnedChats

open Interleave Entries

namespace RoomMessages

open Rooms (RoomMessage)

structure Edit where
  encryptedContent : String
  iv : String
  editedAt : Nat
deriving DecidableEq

def edited (m : RoomMessage) (e : Edit) : RoomMessage :=
  { m with encryptedContent := e.encryptedContent, iv := e.iv, editedAt := some e.editedAt }

/-- The messages of a room under their ids. -/
def entries : Entries RoomMessage String Edit where
  key := RoomMessage.messageId
  edit := edited
  key_edit _ _ := rfl
  edit_edit _ _ _ := rfl

/-- `forTelegramId` is the name-based identifier of a Telegram user, `maxSizePerRoom`
the limit of the list. -/
structure Config where
  forTelegramId : Int → String
  maxSizePerRoom : Nat

def getSenderKey (cfg : Config) (m : RoomMessage) : Option String :=
  if Sessions.hasText m.senderInternalId then m.senderInternalId
  else m.senderTgId.map cfg.forTelegramId

/-- The server's time stamp, or else the client's. -/
def isExpired (m : RoomMessage) (cutoff : Int) : Bool :=
  match m.serverTimestamp <|> m.clientTimestamp with
  | none => false
  | some t => (t : Int) < cutoff

/-- Fifteen minutes after the server's time stamp. -/
def isEditable (cfg : Config) (target : RoomMessage) (senderInternalId : Option String)
    (now : Nat) : Bool :=
  senderInternalId.isSome && senderInternalId == getSenderKey cfg target
    && target.serverTimestamp.any fun t => now ≤ t + 900000

/-! ## Operations -/

/-- The list of the room, with the clock and the time to live of its messages in
seconds: 0 where the room has none or does not exist. -/
structure Messages where
  now : Nat
  messageTtl : Int
  list : List RoomMessage

/-- `LTRIM key -max -1`. -/
def ltrim (max : Nat) (l : List RoomMessage) : List RoomMessage :=
  if max = 0 then l else l.drop (l.length - max)

/-- Operations, and where they stand: `set`, `rewrite` and `writeBack` have read
the list. -/
inductive Op where
  | saveMessage (m : RoomMessage)
  | trim
  | expire
  | resolveMessageTtl
  | pruneExpiredMessages (messageTtlSeconds : Int)
  | getRoomMessages
  | loadMessagesWithOptionalPrune (messageTtlSeconds : Int)
  | rewriteListKeepingLiveMessages (cutoff : Int)
  | rewrite (jsonList : List RoomMessage) (cutoff : Int)
  | writeBack (kept : List RoomMessage)
  | updateMessage (messageId : String) (senderInternalId : Option String) (edit : Edit)
  | set (index : Nat) (target : RoomMessage) (edit : Edit)
  | removeRoomMessageValue (m : RoomMessage)
  | settle
  | done

def Op.opens : Op → Bool
  | .saveMessage _ => true
  | .pruneExpiredMessages _ => true
  | .getRoomMessages => true
  | .updateMessage .. => true
  | .removeRoomMessageValue _ => true
  | _ => false

def hasId (messageId : String) (m : RoomMessage) : Bool := m.messageId == messageId

def cutoffOf (now : Nat) (messageTtlSeconds : Int) : Int := now - messageTtlSeconds * 1000

/-- The next command of an operation. -/
def step (cfg : Config) : Op → Messages → Option (Messages × Op)
  | .saveMessage m, s =>
      let s' := { s with list := s.list ++ [m] }
      some (s', if cfg.maxSizePerRoom < s'.list.length then .trim else .expire)
  | .trim, s => some ({ s with list := ltrim cfg.maxSizePerRoom s.list }, .expire)
  | .expire, s => some (s, .resolveMessageTtl)
  | .resolveMessageTtl, s => some (s, .pruneExpiredMessages s.messageTtl)
  | .pruneExpiredMessages messageTtlSeconds, s =>
      if messageTtlSeconds ≤ 0 then some (s, .done)
      else some (s, .rewriteListKeepingLiveMessages (cutoffOf s.now messageTtlSeconds))
  | .getRoomMessages, s => some (s, .loadMessagesWithOptionalPrune s.messageTtl)
  | .loadMessagesWithOptionalPrune messageTtlSeconds, s =>
      -- without a time to live the list is read and left as it is
      if messageTtlSeconds ≤ 0 then some (s, .done)
      else some (s, .rewriteListKeepingLiveMessages (cutoffOf s.now messageTtlSeconds))
  | .rewriteListKeepingLiveMessages cutoff, s =>
      if s.list.any (isExpired · cutoff) then some (s, .rewrite s.list cutoff) else some (s, .done)
  | .rewrite jsonList cutoff, s =>
      some ({ s with list := [] }, .writeBack (jsonList.filter fun m => !isExpired m cutoff))
  | .writeBack [], s => some (s, .settle)
  | .writeBack (m :: kept), s => some ({ s with list := s.list ++ [m] }, .writeBack kept)
  | .updateMessage messageId senderInternalId edit, s =>
      match s.list.findIdx? (hasId messageId), s.list.find? (hasId messageId) with
      | some index, some target =>
          if isEditable cfg target senderInternalId s.now then some (s, .set index target edit)
          else some (s, .done)
      | _, _ => some (s, .done)
  -- an index out of range is an error of the command, which changes nothing
  | .set index target edit, s =>
      some ({ s with list := s.list.set index (edited target edit) }, .settle)
  | .removeRoomMessageValue m, s => some ({ s with list := s.list.erase m }, .settle)
  | .settle, s => some (s, .done)
  | .done, _ => none

/-! ## What should be stored -/

abbrev Log := EditLog RoomMessage String Edit

/-- An operation counts with the command that carries it out. An edit that ends in
an error is none, and neither is the removal of a value that is not there. -/
def record (cfg : Config) (op : Op) (s : Messages) (l : Log) : Log :=
  match op with
  | .saveMessage m => l.push m
  | .trim =>
      if cfg.maxSizePerRoom = 0 then l
      else l.drop (entries.keys (s.list.take (s.list.length - cfg.maxSizePerRoom)))
  | .rewrite jsonList cutoff => l.drop (entries.keys (jsonList.filter (isExpired · cutoff)))
  | .set index target edit =>
      if index < s.list.length then l.amend target.messageId edit else l
  | .removeRoomMessageValue m => if m ∈ s.list then l.drop [m.messageId] else l
  | _ => l

/-- Time passes, and the time to live of the messages is set. -/
inductive Move where
  | tick (ms : Nat)
  | setMessageTtl (seconds : Int)

def repository (cfg : Config) : Server Messages Op Move where
  opens := Op.opens
  step := step cfg
  env
    | .tick ms => fun s => some { s with now := s.now + ms }
    | .setMessageTtl seconds => fun s => some { s with messageTtl := seconds }

abbrev State := Conf (Messages × Log) Op

def server (cfg : Config) : Server (Messages × Log) Op Move :=
  (repository cfg).recording (record cfg)

/-- Message ids are pairwise distinct. -/
def distinctIds (c : State) : Action Op Move → Bool
  | .turn i =>
      match c.pool[i]? with
      | some (.saveMessage m) => !(entries.keys c.store.2.pushed).contains m.messageId
      | _ => true
  | _ => true

/-- What a prune is about to push back. -/
def Op.holds : Op → List RoomMessage
  | .writeBack kept => kept
  | _ => []

def held (pool : List Op) : List RoomMessage := pool.flatMap Op.holds

/-- Nobody saves while a prune has messages to push back, a prune deletes the list
that it has read, and no other prune then has messages to push back, and the
position of an edit still holds the message. -/
def undisturbed (c : State) : Action Op Move → Bool
  | .turn i =>
      match c.pool[i]? with
      | some (.saveMessage _) => (held c.pool).isEmpty
      | some (.rewrite jsonList _) => c.store.1.list == jsonList && (held c.pool).isEmpty
      | some (.set index target _) => (c.store.1.list[index]?).all (hasId target.messageId)
      | _ => true
  | _ => true

/-! ## The invariant -/

/-- What an edit has read was pushed. -/
def Op.Known (pushed : List RoomMessage) : Op → Prop
  | .set _ target edit =>
      ∃ p ∈ pushed, p.messageId = target.messageId ∧ edited target edit = edited p edit
  | _ => True

theorem Op.Known.push {pushed : List RoomMessage} {op : Op} (h : op.Known pushed)
    (m : RoomMessage) : op.Known (pushed ++ [m]) := by
  cases op with
  | set index target edit =>
      obtain ⟨p, hp, hid⟩ := h
      exact ⟨p, List.mem_append_left _ hp, hid⟩
  | _ => trivial

/-- The list, with what is being pushed back, is what should be stored. -/
structure Exact (c : State) : Prop where
  list : c.store.1.list ++ held c.pool = c.store.2.expected entries
  wf : c.store.2.Wf entries
  known : ∀ op ∈ c.pool, op.Known c.store.2.pushed
  alone : Alone Op.holds c.pool

section Turns

variable {cfg : Config} {c : State} {i : Nat} {op op' : Op}

theorem Exact.nodup (h : Exact c) : (entries.keys (c.store.1.list ++ held c.pool)).Nodup :=
  h.list ▸ EditLog.nodup_expected h.wf

theorem Exact.mem_pushed (h : Exact c) {m : RoomMessage} (hm : m ∈ c.store.1.list) :
    ∃ p ∈ c.store.2.pushed, m = c.store.2.latest entries p :=
  EditLog.mem_expected (h.list ▸ List.mem_append_left _ hm)

theorem Exact.key_mem (h : Exact c) {m : RoomMessage} (hm : m ∈ c.store.1.list) :
    entries.key m ∈ entries.keys c.store.2.pushed :=
  EditLog.key_mem_pushed (h.list ▸ List.mem_append_left _ hm)

/-- A step that leaves the list alone. -/
theorem Exact.keep (h : Exact c) (hi : c.pool[i]? = some op) (hold : op.holds = [])
    (hnew : op'.holds = []) (hknown : op'.Known c.store.2.pushed) :
    Exact ⟨c.store, c.pool.set i op'⟩ where
  list := by
    rw [held, flatMap_turn_nil hi hold hnew]
    exact h.list
  wf := h.wf
  known := forall_turn h.known hknown
  alone := h.alone.turn hi fun hne => absurd hnew hne

/-- A step that changes list and log, and holds what it held before. -/
theorem Exact.change (h : Exact c) {s : Messages} {l : Log} (hi : c.pool[i]? = some op)
    (hold : op.holds = []) (hnew : op'.holds = []) (hlist : s.list ++ held c.pool = l.expected entries)
    (hwf : l.Wf entries) (hpushed : ∀ q : Op, q.Known c.store.2.pushed → q.Known l.pushed)
    (hknown : op'.Known l.pushed) : Exact ⟨(s, l), c.pool.set i op'⟩ where
  list := by
    rw [held, flatMap_turn_nil hi hold hnew]
    exact hlist
  wf := hwf
  known := forall_turn (fun q hq => hpushed q (h.known q hq)) hknown
  alone := h.alone.turn hi fun hne => absurd hnew hne

theorem Exact.save (h : Exact c) {m : RoomMessage} (hi : c.pool[i]? = some (.saveMessage m))
    (hd : distinctIds c (.turn i) = true) (hg : undisturbed c (.turn i) = true)
    (hnew : op'.holds = []) (hknown : ∀ pushed, op'.Known pushed) :
    Exact ⟨({ c.store.1 with list := c.store.1.list ++ [m] }, c.store.2.push m),
      c.pool.set i op'⟩ := by
  have hfresh : m.messageId ∉ entries.keys c.store.2.pushed := by
    simpa [distinctIds, hi] using hd
  have hheld : held c.pool = [] := by simpa [undisturbed, hi] using hg
  refine h.change hi rfl hnew ?_ (h.wf.push hfresh) (fun q hq => hq.push m) (hknown _)
  have hlist := h.list
  rw [hheld, List.append_nil] at hlist ⊢
  rw [EditLog.expected_push h.wf hfresh, ← hlist]

/-- `LTRIM`: what it takes is the beginning of the list. -/
theorem Exact.trim (h : Exact c) {max : Nat} (hmax : max ≠ 0) (hi : c.pool[i]? = some .trim) :
    let more := entries.keys (c.store.1.list.take (c.store.1.list.length - max))
    Exact ⟨({ c.store.1 with list := ltrim max c.store.1.list }, c.store.2.drop more),
      c.pool.set i .expire⟩ := by
  intro more
  refine h.change hi rfl rfl ?_ (h.wf.drop fun k hk => ?_) (fun q hq => hq) trivial
  · have hnodup := h.nodup
    rw [EditLog.expected_drop, ← h.list, ltrim, if_neg hmax]
    rw [← List.take_append_drop (c.store.1.list.length - max) c.store.1.list, List.append_assoc]
      at hnodup
    rw [← except_append hnodup, ← List.append_assoc, List.take_append_drop]
  · obtain ⟨m, hm, rfl⟩ := List.mem_map.mp hk
    exact h.key_mem (List.mem_of_mem_take hm)

/-- `LREM`: the value is there once or not at all. -/
theorem Exact.remove (h : Exact c) {m : RoomMessage}
    (hi : c.pool[i]? = some (.removeRoomMessageValue m)) (hm : m ∈ c.store.1.list) :
    Exact ⟨({ c.store.1 with list := c.store.1.list.erase m }, c.store.2.drop [m.messageId]),
      c.pool.set i .settle⟩ := by
  refine h.change hi rfl rfl ?_ (h.wf.drop fun k hk => ?_) (fun q hq => hq) trivial
  · rw [EditLog.expected_drop, ← h.list, ← List.erase_append_left _ hm]
    exact erase_eq_except h.nodup (List.mem_append_left _ hm)
  · obtain rfl := List.mem_singleton.mp hk
    exact h.key_mem hm

/-- The `DEL` of a prune, of the list that it has read. -/
theorem Exact.rewrite (h : Exact c) {jsonList : List RoomMessage} {cutoff : Int}
    (hi : c.pool[i]? = some (.rewrite jsonList cutoff))
    (hg : undisturbed c (.turn i) = true) :
    let more := entries.keys (jsonList.filter (isExpired · cutoff))
    let kept := jsonList.filter fun m => !isExpired m cutoff
    Exact ⟨({ c.store.1 with list := [] }, c.store.2.drop more), c.pool.set i (.writeBack kept)⟩ := by
  intro more kept
  simp only [undisturbed, hi, Bool.and_eq_true, beq_iff_eq, List.isEmpty_iff] at hg
  obtain ⟨rfl, hheld⟩ := hg
  have hlist := h.list
  have hnodup := h.nodup
  rw [hheld, List.append_nil] at hlist hnodup
  refine ⟨?_, h.wf.drop fun k hk => ?_, forall_turn h.known trivial,
    h.alone.turn hi fun _ => .inr hheld⟩
  · rw [held, flatMap_others hi (h.alone.others hi (.inr hheld)), EditLog.expected_drop, ← hlist]
    exact (except_filter hnodup _).symm
  · obtain ⟨m, hm, rfl⟩ := List.mem_map.mp hk
    exact h.key_mem (List.mem_filter.mp hm).1

/-- The `RPUSH` of a prune. -/
theorem Exact.writeBack (h : Exact c) {m : RoomMessage} {kept : List RoomMessage}
    (hi : c.pool[i]? = some (.writeBack (m :: kept))) :
    Exact ⟨({ c.store.1 with list := c.store.1.list ++ [m] }, c.store.2),
      c.pool.set i (.writeBack kept)⟩ := by
  have hne : (Op.writeBack (m :: kept)).holds ≠ [] := List.cons_ne_nil m kept
  refine ⟨?_, h.wf, forall_turn h.known trivial, h.alone.turn hi fun _ => .inl hne⟩
  have hlist := h.list
  rw [held, h.alone.flatMap_eq hi hne] at hlist
  rw [held, flatMap_others hi (h.alone.others hi (.inl hne)), List.append_assoc]
  exact hlist

/-- `LSET` at a position that still holds the message. -/
theorem Exact.set (h : Exact c) {index : Nat} {target : RoomMessage} {edit : Edit}
    (hi : c.pool[i]? = some (.set index target edit)) (hg : undisturbed c (.turn i) = true)
    (hindex : index < c.store.1.list.length) :
    Exact ⟨({ c.store.1 with list := c.store.1.list.set index (edited target edit) },
      c.store.2.amend target.messageId edit), c.pool.set i .settle⟩ := by
  obtain ⟨p, hp, hid, hedit⟩ := h.known _ (List.mem_of_getElem? hi)
  have hat : c.store.1.list[index]? = some c.store.1.list[index] := List.getElem?_eq_getElem hindex
  have hid' : c.store.1.list[index].messageId = target.messageId := by
    simpa [undisturbed, hi, hat, hasId] using hg
  have hsame : entries.key c.store.1.list[index] = target.messageId := hid'
  have hedited : entries.edit c.store.1.list[index] edit = edited target edit := by
    obtain ⟨p', hp', heq⟩ := h.mem_pushed (List.getElem_mem hindex)
    rw [heq, EditLog.edit_latest, hedit]
    have hkey : entries.key p' = entries.key p := by
      rw [← EditLog.key_latest (l := c.store.2), ← heq, hsame]
      exact hid.symm
    rw [List.inj_on_of_nodup_map h.wf.nodup hp' hp hkey]
    rfl
  refine h.change hi rfl rfl ?_ (h.wf.amend ?_) (fun q hq => hq) trivial
  · have hat' : (c.store.1.list ++ held c.pool)[index]? = some c.store.1.list[index] := by
      rw [List.getElem?_append_left hindex, hat]
    have hmap := map_revise_eq_set (x := edit) h.nodup hat'
    rw [hedited, hsame, List.set_append_left _ _ hindex] at hmap
    rw [EditLog.expected_amend, ← h.list, hmap]
  · rw [← hsame]
    exact h.key_mem (List.getElem_mem hindex)

/-- The read of an edit. -/
theorem Exact.update (h : Exact c) {messageId : String} {sender : Option String} {edit : Edit}
    {s' : Messages} (hi : c.pool[i]? = some (.updateMessage messageId sender edit))
    (hs : step cfg (.updateMessage messageId sender edit) c.store.1 = some (s', op')) :
    s' = c.store.1 ∧ Exact ⟨c.store, c.pool.set i op'⟩ := by
  simp only [step] at hs
  split at hs
  · rename_i index target _ hfind
    split at hs
    · obtain ⟨rfl, rfl⟩ := Prod.mk.inj (Option.some.inj hs)
      obtain ⟨p, hp, rfl⟩ := h.mem_pushed (List.mem_of_find?_eq_some hfind)
      have hknown : (Op.set index (c.store.2.latest entries p) edit).Known c.store.2.pushed :=
        ⟨p, hp, (EditLog.key_latest (T := entries)).symm, EditLog.edit_latest (T := entries)⟩
      exact ⟨rfl, h.keep hi rfl rfl hknown⟩
    · obtain ⟨rfl, rfl⟩ := Prod.mk.inj (Option.some.inj hs)
      exact ⟨rfl, h.keep hi rfl rfl trivial⟩
  · obtain ⟨rfl, rfl⟩ := Prod.mk.inj (Option.some.inj hs)
    exact ⟨rfl, h.keep hi rfl rfl trivial⟩

theorem exact_turn (h : Exact c) {s' : Messages} (hi : c.pool[i]? = some op)
    (hd : distinctIds c (.turn i) = true) (hg : undisturbed c (.turn i) = true)
    (hs : step cfg op c.store.1 = some (s', op')) :
    Exact ⟨(s', record cfg op c.store.1 c.store.2), c.pool.set i op'⟩ := by
  cases op with
  | saveMessage m =>
      obtain ⟨rfl, rfl⟩ := Prod.mk.inj (Option.some.inj hs)
      refine h.save hi hd hg ?_ fun pushed => ?_
      · split <;> rfl
      · split <;> trivial
  | trim =>
      obtain ⟨rfl, rfl⟩ := Prod.mk.inj (Option.some.inj hs)
      by_cases hmax : cfg.maxSizePerRoom = 0
      · simp only [record, ltrim, hmax, if_true]
        exact h.keep hi rfl rfl trivial
      · simp only [record, if_neg hmax]
        exact h.trim hmax hi
  | updateMessage messageId sender edit =>
      obtain ⟨rfl, hexact⟩ := h.update hi hs
      exact hexact
  | set index target edit =>
      obtain ⟨rfl, rfl⟩ := Prod.mk.inj (Option.some.inj hs)
      by_cases hindex : index < c.store.1.list.length
      · simp only [record, if_pos hindex]
        exact h.set hi hg hindex
      · simp only [record, if_neg hindex, List.set_eq_of_length_le (Nat.not_lt.mp hindex)]
        exact h.keep hi rfl rfl trivial
  | removeRoomMessageValue m =>
      obtain ⟨rfl, rfl⟩ := Prod.mk.inj (Option.some.inj hs)
      by_cases hm : m ∈ c.store.1.list
      · simp only [record, if_pos hm]
        exact h.remove hi hm
      · simp only [record, if_neg hm, List.erase_of_not_mem hm]
        exact h.keep hi rfl rfl trivial
  | rewrite jsonList cutoff =>
      obtain ⟨rfl, rfl⟩ := Prod.mk.inj (Option.some.inj hs)
      exact h.rewrite hi hg
  | writeBack kept =>
      cases kept with
      | nil =>
          obtain ⟨rfl, rfl⟩ := Prod.mk.inj (Option.some.inj hs)
          exact h.keep hi rfl rfl trivial
      | cons m kept =>
          obtain ⟨rfl, rfl⟩ := Prod.mk.inj (Option.some.inj hs)
          exact h.writeBack hi
  | pruneExpiredMessages | loadMessagesWithOptionalPrune | rewriteListKeepingLiveMessages =>
      simp only [step] at hs
      split at hs
      all_goals
        obtain ⟨rfl, rfl⟩ := Prod.mk.inj (Option.some.inj hs)
        exact h.keep hi rfl rfl trivial
  | expire | resolveMessageTtl | getRoomMessages | settle =>
      obtain ⟨rfl, rfl⟩ := Prod.mk.inj (Option.some.inj hs)
      exact h.keep hi rfl rfl trivial
  | done => cases hs

end Turns

/-! ## Runs -/

theorem exact_preserved (cfg : Config) :
    (server cfg).Preserves (fun c act => (distinctIds c act && undisturbed c act) = true)
      Exact where
  start c op h _ hopen := by
    have hold : op.holds = [] := by
      cases op with
      | writeBack => cases hopen
      | _ => rfl
    have hknown : op.Known c.store.2.pushed := by
      cases op with
      | set => cases hopen
      | _ => trivial
    refine ⟨?_, h.wf, forall_start h.known hknown, h.alone.start hold⟩
    have hheld : held (c.pool ++ [op]) = held c.pool := by simp [held, hold]
    rw [hheld]
    exact h.list
  turn c i op s' op' h hg hi hs := by
    obtain ⟨hd, hu⟩ := Bool.and_eq_true_iff.mp hg
    obtain ⟨hstep, hlog⟩ := Server.recording_step hs
    obtain ⟨t, l⟩ := s'
    obtain rfl := hlog
    exact exact_turn h hi hd hu hstep
  env c e s' h _ hs := by
    obtain ⟨henv, hlog⟩ := Server.recording_env hs
    obtain ⟨t, l⟩ := s'
    obtain rfl := hlog
    have hlist : t.list = c.store.1.list := by
      cases e with
      | tick ms =>
          obtain rfl := Option.some.inj henv
          rfl
      | setMessageTtl seconds =>
          obtain rfl := Option.some.inj henv
          rfl
    exact ⟨hlist ▸ h.list, h.wf, h.known, h.alone⟩

def Op.isDone : Op → Bool
  | .done => true
  | _ => false

/-- The message that an edit or a removal is about. -/
def Op.target? : Op → Option String
  | .set _ target _ => some target.messageId
  | .removeRoomMessageValue m => some m.messageId
  | _ => none

/-- An edit or a removal changes no other message. -/
theorem others_kept {cfg : Config} {c : State} {i : Nat} {op op' : Op} {s' : Messages}
    {messageId : String} (hi : c.pool[i]? = some op) (htarget : op.target? = some messageId)
    (hg : undisturbed c (.turn i) = true) (hs : step cfg op c.store.1 = some (s', op')) :
    entries.except [messageId] s'.list = entries.except [messageId] c.store.1.list := by
  cases op with
  | set index target edit =>
      obtain rfl := Option.some.inj htarget
      obtain ⟨rfl, rfl⟩ := Prod.mk.inj (Option.some.inj hs)
      by_cases hindex : index < c.store.1.list.length
      · have hat := List.getElem?_eq_getElem hindex
        have hid : c.store.1.list[index].messageId = target.messageId := by
          simpa [undisturbed, hi, hat, hasId] using hg
        exact except_set hat hid rfl
      · simp only [List.set_eq_of_length_le (Nat.not_lt.mp hindex)]
  | removeRoomMessageValue m =>
      obtain rfl := Option.some.inj htarget
      obtain ⟨rfl, rfl⟩ := Prod.mk.inj (Option.some.inj hs)
      exact except_erase rfl
  | _ => cases htarget

/-- What is asked of the list of a room. -/
structure Kept (cfg : Config) (G : State → Action Op Move → Prop) (c : State) : Prop where
  /-- Once no operation is in progress, the list holds what should be stored, in
  order and each message once. -/
  exact : c.pool.all Op.isDone = true →
    c.store.1.list = c.store.2.expected entries ∧ (entries.keys c.store.1.list).Nodup
  /-- An edit or a removal that comes next changes no other message. -/
  others : ∀ i op op' s' messageId, G c (.turn i) → c.pool[i]? = some op →
    op.target? = some messageId → step cfg op c.store.1 = some (s', op') →
    entries.except [messageId] s'.list = entries.except [messageId] c.store.1.list

def start (now : Nat) (messageTtl : Int) : State := ⟨(⟨now, messageTtl, []⟩, .empty), []⟩

theorem exact_start (now : Nat) (messageTtl : Int) : Exact (start now messageTtl) where
  list := rfl
  wf := EditLog.wf_empty
  known _ h := (List.not_mem_nil h).elim
  alone _ _ _ _ h := by cases h

def sampleConfig : Config := ⟨fun _ => "", 2⟩

def sampleMessage (messageId : String) (serverTimestamp : Nat) : RoomMessage where
  messageId := messageId
  senderInternalId := some "bob"
  senderTgId := none
  encryptedContent := "c0"
  iv := "v0"
  clientTimestamp := none
  serverTimestamp := some serverTimestamp
  type := "text"
  fileId := none
  thumbnailFileId := none
  encryptedMeta := none
  fileSize := none
  replyToMessageId := none
  editedAt := none

/-- Three messages with a limit of two, an edit, a prune and a removal, one after
the other; a fourth message is saved once the prune has pushed back what it keeps. -/
def undisturbedRun : List (Action Op Move) :=
  [.start (.saveMessage (sampleMessage "m1" 0)), .turn 0, .turn 0, .turn 0, .turn 0,
    .start (.saveMessage (sampleMessage "m2" 0)), .turn 1, .turn 1, .turn 1, .turn 1,
    .start (.saveMessage (sampleMessage "m3" 4500)), .turn 2, .turn 2, .turn 2, .turn 2, .turn 2,
    .start (.updateMessage "m3" (some "bob") ⟨"c1", "v1", 7⟩), .turn 3, .turn 3, .turn 3,
    .env (.setMessageTtl 1), .env (.tick 5000),
    .start .getRoomMessages, .turn 4, .turn 4, .turn 4, .turn 4, .turn 4,
    .start (.saveMessage (sampleMessage "m4" 4500)), .turn 5, .turn 5, .turn 5, .turn 5, .turn 5,
    .turn 4, .turn 4, .start (.removeRoomMessageValue (sampleMessage "m4" 4500)), .turn 6, .turn 6]

/-- A sync reads the list to prune it; another message is saved; the prune deletes
the list. -/
def savedDuringPrune : List (Action Op Move) :=
  [.start (.saveMessage (sampleMessage "m1" 0)), .turn 0, .turn 0, .turn 0, .turn 0,
    .env (.setMessageTtl 1), .env (.tick 5000), .start .getRoomMessages, .turn 1, .turn 1, .turn 1,
    .start (.saveMessage (sampleMessage "m2" 5000)), .turn 2, .turn 1, .turn 1, .turn 1,
    .turn 2, .turn 2, .turn 2, .turn 2]

end RoomMessages

end BurnedChats

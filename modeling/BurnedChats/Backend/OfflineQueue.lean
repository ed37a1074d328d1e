import Mathlib.Data.List.Nodup
import BurnedChats.Backend.Sessions

/-!
# The offline queue of a recipient in a session

The queue is one Redis list. `queueMessage` pushes and trims it; the other
operations read the whole list first and then write by position (`LSET`), by
value (`LREM`), or by deleting the key, after which a prune pushes back what it
keeps. Between the read and the write other operations may run. Commands on
counters and times to live do not touch the list and are one step.

What the list should hold is kept in a log: every message pushed, the ids that
are gone (trimmed, removed, expired or handed to a sync) and the last edit of
each id. `queue_exact` says when list and log agree.
-/

namespace BurnedChats

open Interleave

namespace OfflineQueue

/-! ## Messages -/

structure Message where
  messageId : String
  senderInternalId : Option String
  senderId : Option Int
  encryptedContent : String
  iv : String
  clientTimestamp : Option Nat
  serverTimestamp : Option Nat
  editedAt : Option Nat
deriving DecidableEq

structure Edit where
  encryptedContent : String
  iv : String
  editedAt : Nat
deriving DecidableEq

def Message.edited (m : Message) (e : Edit) : Message :=
  { m with encryptedContent := e.encryptedContent, iv := e.iv, editedAt := some e.editedAt }

/-- The server's time stamp, or else the client's. -/
def isExpired (m : Message) (cutoff : Int) : Bool :=
  match m.serverTimestamp <|> m.clientTimestamp with
  | none => false
  | some t => (t : Int) < cutoff

def isSenderForEdit (target : Message) (senderInternalId : Option String)
    (senderId : Option Int) : Bool :=
  if Sessions.hasText senderInternalId && target.senderInternalId.isSome then
    senderInternalId == target.senderInternalId
  else if senderId.isSome && senderId ≠ some 0 && target.senderId.isSome then
    senderId == target.senderId
  else false

/-- Fifteen minutes after the server's time stamp. -/
def isOutsideEditWindow (serverTimestamp : Option Nat) (now : Nat) : Bool :=
  match serverTimestamp with
  | none => true
  | some t => t + 900000 < now

/-! ## Operations -/

/-- The list with the clock; `LTRIM key -max -1` keeps the last `max` entries. -/
structure Queue where
  now : Nat
  list : List Message

def ltrim (max : Nat) (l : List Message) : List Message :=
  if max = 0 then l else l.drop (l.length - max)

/-- Operations, and where they stand: `set`, `remove`, `rewrite`, `writeBack` and
`deleteMessages` have read the list. -/
inductive Op where
  | queueMessage (m : Message)
  | trim
  | updateMessageInQueue (messageId : String) (senderInternalId : Option String)
      (senderId : Option Int) (edit : Edit)
  | set (index : Nat) (target : Message) (edit : Edit)
  | removeMessageFromQueue (messageId : String)
  | remove (target : Message) (newSize : Nat)
  | deleteEmptied
  | rewriteQueueKeepingLive (cutoff : Int)
  | rewrite (jsonList : List Message) (cutoff : Int)
  | writeBack (kept : List Message)
  | sync
  | size (messages : List Message)
  | deleteMessages (messages : List Message)
  | settle
  | done

def Op.opens : Op → Bool
  | .queueMessage _ => true
  | .updateMessageInQueue .. => true
  | .removeMessageFromQueue _ => true
  | .rewriteQueueKeepingLive _ => true
  | .sync => true
  | _ => false

def hasId (messageId : String) (m : Message) : Bool := m.messageId == messageId

/-- The next command of an operation; `max` is `maxSizePerSession`. -/
def step (max : Nat) : Op → Queue → Option (Queue × Op)
  | .queueMessage m, q =>
      let q' := { q with list := q.list ++ [m] }
      some (q', if max < q'.list.length then .trim else .settle)
  | .trim, q => some ({ q with list := ltrim max q.list }, .settle)
  | .updateMessageInQueue messageId senderInternalId senderId edit, q =>
      match q.list.findIdx? (hasId messageId), q.list.find? (hasId messageId) with
      | some index, some target =>
          if !isSenderForEdit target senderInternalId senderId then some (q, .done)
          else if isOutsideEditWindow target.serverTimestamp q.now then some (q, .done)
          else some (q, .set index target edit)
      | _, _ => some (q, .done)
  -- an index out of range is an error of the command, which changes nothing
  | .set index target edit, q =>
      some ({ q with list := q.list.set index (target.edited edit) }, .done)
  | .removeMessageFromQueue messageId, q =>
      match q.list.find? (hasId messageId) with
      | none => some (q, .done)
      | some target => some (q, .remove target (q.list.length - 1))
  | .remove target newSize, q =>
      some ({ q with list := q.list.erase target },
        if newSize = 0 then .deleteEmptied else .settle)
  | .deleteEmptied, q => some ({ q with list := [] }, .settle)
  | .rewriteQueueKeepingLive cutoff, q =>
      if q.list.any (isExpired · cutoff) then some (q, .rewrite q.list cutoff) else some (q, .done)
  | .rewrite jsonList cutoff, q =>
      some ({ q with list := [] }, .writeBack (jsonList.filter fun m => !isExpired m cutoff))
  | .writeBack [], q => some (q, .settle)
  | .writeBack (m :: kept), q => some ({ q with list := q.list ++ [m] }, .writeBack kept)
  | .sync, q => if q.list.isEmpty then some (q, .done) else some (q, .size q.list)
  | .size messages, q => some (q, .deleteMessages messages)
  | .deleteMessages _, q => some ({ q with list := [] }, .settle)
  | .settle, q => some (q, .done)
  | .done, _ => none

/-! ## What should be stored -/

/-- `gone` holds the ids that were trimmed, removed, expired or handed out. -/
structure Log where
  pushed : List Message
  gone : List String
  edits : String → Option Edit

def ids (l : List Message) : List String := l.map Message.messageId

def Log.latest (l : Log) (m : Message) : Message := (l.edits m.messageId).elim m m.edited

/-- Exactly once what was pushed and is not gone, as last edited. -/
def Log.expected (l : Log) : List Message :=
  (l.pushed.filter fun m => m.messageId ∉ l.gone).map l.latest

/-- An operation counts with the command that carries it out; an edit that ends
in an error is none. -/
def record (max : Nat) (op : Op) (q : Queue) (l : Log) : Log :=
  match op with
  | .queueMessage m => { l with pushed := l.pushed ++ [m] }
  | .trim =>
      if max = 0 then l
      else { l with gone := l.gone ++ ids (q.list.take (q.list.length - max)) }
  | .set index target edit =>
      if index < q.list.length then
        { l with edits := Function.update l.edits target.messageId (some edit) }
      else l
  | .remove target _ => { l with gone := l.gone ++ [target.messageId] }
  | .rewrite jsonList cutoff =>
      { l with gone := l.gone ++ ids (jsonList.filter (isExpired · cutoff)) }
  | .deleteMessages messages => { l with gone := l.gone ++ ids messages }
  | _ => l

inductive Move where
  | tick (ms : Nat)

def repository (max : Nat) : Server Queue Op Move where
  opens := Op.opens
  step := step max
  env := fun (.tick ms) q => some { q with now := q.now + ms }

def server (max : Nat) : Server (Queue × Log) Op Move := (repository max).recording (record max)

/-- Message ids are pairwise distinct. -/
def distinctIds (c : Conf (Queue × Log) Op) : Action Op Move → Bool
  | .turn i =>
      match c.pool[i]? with
      | some (.queueMessage m) => !(ids c.store.2.pushed).contains m.messageId
      | _ => true
  | _ => true

/-- What a prune is about to push back. -/
def Op.holds : Op → List Message
  | .writeBack kept => kept
  | _ => []

def held (pool : List Op) : List Message := pool.flatMap Op.holds

/-- Every write finds what its operation has read: the position still holds the
message, the entry is still there or the message is nowhere, the list to prune
is as it was, and what a deletion takes was removed or handed out. -/
def undisturbed (c : Conf (Queue × Log) Op) : Action Op Move → Bool
  | .turn i =>
      match c.pool[i]? with
      | some (.set index target _) => (c.store.1.list[index]?).all (hasId target.messageId)
      | some (.remove target _) =>
          c.store.1.list.contains target
            || !(ids (c.store.1.list ++ held c.pool)).contains target.messageId
      | some .deleteEmptied => c.store.1.list.isEmpty
      | some (.rewrite jsonList _) => c.store.1.list == jsonList
      | some (.deleteMessages messages) =>
          c.store.1.list.all (fun m => (ids messages).contains m.messageId)
            && (held c.pool).all fun m => !(ids messages).contains m.messageId
      | _ => true
  | _ => true

/-! ## Lists and logs -/

section Lists

variable {a b e : List Message} {l : Log}

@[simp] theorem Log.latest_messageId (l : Log) (m : Message) :
    (l.latest m).messageId = m.messageId := by
  unfold latest
  cases l.edits m.messageId <;> rfl

/-- Where a part of a list leaves, the rest is what is left of the whole. -/
theorem perm_filter_of_append {f : Message → Bool} (h : (a ++ b).Perm e)
    (ha : ∀ m ∈ a, f m = false) (hb : ∀ m ∈ b, f m = true) : b.Perm (e.filter f) := by
  have hf := h.filter f
  rw [List.filter_append, List.filter_eq_nil_iff.mpr fun m hm => by simp [ha m hm],
    List.filter_eq_self.mpr hb, List.nil_append] at hf
  exact hf

/-- More ids are gone. -/
theorem Log.expected_gone (l : Log) (more : List String) :
    ({ l with gone := l.gone ++ more } : Log).expected
      = l.expected.filter fun m => m.messageId ∉ more := by
  have hcomp : (fun m => decide (m.messageId ∉ more)) ∘ l.latest
      = fun m : Message => decide (m.messageId ∉ more) := by
    funext m
    simp
  simp only [expected, List.filter_map, List.filter_filter, hcomp]
  congr 1
  refine List.filter_congr fun m _ => ?_
  rw [Bool.eq_iff_iff]
  simp only [List.mem_append, not_or, decide_eq_true_eq, Bool.and_eq_true]
  exact and_comm

theorem Log.mem_expected {m : Message} (h : m ∈ l.expected) :
    ∃ p ∈ l.pushed, p.messageId = m.messageId ∧ m = l.latest p := by
  obtain ⟨p, hp, rfl⟩ := List.mem_map.mp h
  exact ⟨p, (List.mem_filter.mp hp).1, (l.latest_messageId p).symm, rfl⟩

theorem Log.ids_expected (l : Log) : ids l.expected
    = ids (l.pushed.filter fun m => m.messageId ∉ l.gone) := by
  simp only [ids, expected, List.map_map]
  exact List.map_congr_left fun m _ => l.latest_messageId m

theorem Log.nodup_expected (h : (ids l.pushed).Nodup) : (ids l.expected).Nodup := by
  rw [ids_expected]
  exact h.sublist (List.filter_sublist.map _)

/-- Replacing the entry of an id. -/
def put (x : Message) (m : Message) : Message := if m.messageId = x.messageId then x else m

theorem map_put_of_notMem {x : Message} (h : x.messageId ∉ ids a) : a.map (put x) = a := by
  refine (List.map_congr_left fun m hm => ?_).trans (List.map_id a)
  rw [put, if_neg fun heq => h (List.mem_map.mpr ⟨m, hm, heq⟩), id]

/-- `LSET` at the position of a message whose id occurs once. -/
theorem map_put_eq_set {i : Nat} {m x : Message} (hn : (ids a).Nodup) (hi : a[i]? = some m)
    (hid : m.messageId = x.messageId) : a.map (put x) = a.set i x := by
  induction a generalizing i with
  | nil => cases hi
  | cons y a ih =>
      simp only [ids, List.map_cons, List.nodup_cons] at hn
      cases i with
      | zero =>
          obtain rfl := Option.some.inj hi
          simp only [List.map_cons, List.set_cons_zero]
          rw [map_put_of_notMem (hid ▸ hn.1), put, if_pos hid]
      | succ i =>
          have hi' : a[i]? = some m := by simpa using hi
          have hne : y.messageId ≠ x.messageId := fun heq =>
            hn.1 (List.mem_map.mpr ⟨m, List.mem_of_getElem? hi', by rw [hid, heq]⟩)
          simp only [List.map_cons, List.set_cons_succ, ih hn.2 hi']
          rw [put, if_neg hne]

/-- A part of a list with distinct ids leaves. -/
theorem perm_gone (h : (a ++ b).Perm e) (hn : (ids e).Nodup) :
    b.Perm (e.filter fun m => m.messageId ∉ ids a) := by
  have hab : (ids a ++ ids b).Nodup := by
    have hmap : (ids (a ++ b)).Perm (ids e) := h.map _
    rw [ids, List.map_append] at hmap
    exact hmap.nodup_iff.mpr hn
  refine perm_filter_of_append h (fun m hm => ?_) fun m hm => ?_
  · rw [decide_eq_false_iff_not, not_not]
    exact List.mem_map_of_mem hm
  · have := (List.nodup_append.mp hab).2.2
    simp only [decide_eq_true_eq]
    exact fun ha => this _ ha _ (List.mem_map_of_mem hm) rfl

/-- A new message. -/
theorem Log.expected_push {m : Message} (hgone : m.messageId ∉ l.gone)
    (hedits : l.edits m.messageId = none) :
    ({ l with pushed := l.pushed ++ [m] } : Log).expected = l.expected ++ [m] := by
  simp [expected, latest, List.filter_append, hgone, hedits]

theorem Log.latest_edited (l : Log) (m : Message) (x : Edit) : (l.latest m).edited x = m.edited x := by
  unfold latest
  cases l.edits m.messageId <;> rfl

/-- A new edit of a pushed message. -/
theorem Log.expected_edit {p : Message} (hn : (ids l.pushed).Nodup) (hp : p ∈ l.pushed) (x : Edit) :
    ({ l with edits := Function.update l.edits p.messageId (some x) } : Log).expected
      = l.expected.map (put (p.edited x)) := by
  simp only [expected, List.map_map]
  refine List.map_congr_left fun m hm => ?_
  have hm' := (List.mem_filter.mp hm).1
  simp only [Function.comp_apply, put, latest_messageId]
  by_cases hid : m.messageId = p.messageId
  · obtain rfl := List.inj_on_of_nodup_map hn hm' hp hid
    simp [latest, Message.edited]
  · have hne : m.messageId ≠ (p.edited x).messageId := hid
    rw [if_neg hne]
    simp only [latest, Function.update_of_ne hid]

end Lists

/-! ## The invariant -/

/-- What an operation has read was pushed once. -/
def Op.Known (pushed : List Message) : Op → Prop
  | .set _ target edit =>
      ∃ p ∈ pushed, p.messageId = target.messageId ∧ target.edited edit = p.edited edit
  | .remove target _ => target.messageId ∈ ids pushed
  | .rewrite jsonList _ => ∀ m ∈ jsonList, m.messageId ∈ ids pushed
  | .size messages => ∀ m ∈ messages, m.messageId ∈ ids pushed
  | .deleteMessages messages => ∀ m ∈ messages, m.messageId ∈ ids pushed
  | _ => True

theorem Op.holds_of_opens {op : Op} (h : op.opens = true) : op.holds = [] := by
  cases op with
  | writeBack => cases h
  | _ => rfl

theorem Op.known_of_opens {op : Op} (h : op.opens = true) (pushed : List Message) :
    op.Known pushed := by
  cases op with
  | set | remove | rewrite | size | deleteMessages => cases h
  | _ => trivial

/-- The list, with what is being pushed back, is what should be stored. -/
structure Exact (c : Conf (Queue × Log) Op) : Prop where
  perm : (c.store.1.list ++ held c.pool).Perm c.store.2.expected
  nodup : (ids c.store.2.pushed).Nodup
  known : ∀ op ∈ c.pool, op.Known c.store.2.pushed
  gone : ∀ x ∈ c.store.2.gone, x ∈ ids c.store.2.pushed
  edits : ∀ x, (c.store.2.edits x).isSome = true → x ∈ ids c.store.2.pushed

variable {max : Nat} {c : Conf (Queue × Log) Op} {i : Nat} {op op' : Op}

theorem held_turn (hi : c.pool[i]? = some op) (h : op.holds = []) (h' : op'.holds = []) :
    (held (c.pool.set i op')).Perm (held c.pool) := by
  have := flatMap_turn Op.holds hi op'
  rwa [h, h', List.append_nil, List.append_nil] at this

theorem Exact.mem_pushed (h : Exact c) {m : Message} (hm : m ∈ c.store.1.list) :
    ∃ p ∈ c.store.2.pushed, p.messageId = m.messageId ∧ m = c.store.2.latest p :=
  Log.mem_expected (h.perm.subset (List.mem_append_left _ hm))

theorem Exact.id_pushed (h : Exact c) {m : Message} (hm : m ∈ c.store.1.list) :
    m.messageId ∈ ids c.store.2.pushed := by
  obtain ⟨p, hp, hid, -⟩ := h.mem_pushed hm
  exact hid ▸ List.mem_map_of_mem hp

/-- A step that leaves list and log alone. -/
theorem Exact.keep (h : Exact c) (hi : c.pool[i]? = some op) (hold : op.holds = [])
    (hnew : op'.holds = []) (hknown : op'.Known c.store.2.pushed) :
    Exact ⟨c.store, c.pool.set i op'⟩ where
  perm := ((held_turn hi hold hnew).append_left _).trans h.perm
  nodup := h.nodup
  known := forall_turn h.known hknown
  gone := h.gone
  edits := h.edits

/-- A step by which more ids are gone. -/
theorem Exact.leave (h : Exact c) {now : Nat} {list : List Message} {more : List String}
    (hperm : (list ++ held (c.pool.set i op')).Perm
      (c.store.2.expected.filter fun m => m.messageId ∉ more))
    (hmore : ∀ x ∈ more, x ∈ ids c.store.2.pushed) (hknown : op'.Known c.store.2.pushed) :
    Exact ⟨(⟨now, list⟩, { c.store.2 with gone := c.store.2.gone ++ more }),
      c.pool.set i op'⟩ where
  perm := by
    dsimp only
    rw [Log.expected_gone]
    exact hperm
  nodup := h.nodup
  known := forall_turn h.known hknown
  gone x hx := (List.mem_append.mp hx).elim (h.gone x) (hmore x)
  edits := h.edits

/-- An operation arrives. -/
theorem Exact.start (h : Exact c) (hnew : op.holds = []) (hknown : op.Known c.store.2.pushed) :
    Exact { c with pool := c.pool ++ [op] } where
  perm := by simpa [held, hnew] using h.perm
  nodup := h.nodup
  known := forall_start h.known hknown
  gone := h.gone
  edits := h.edits

/-! ### Commands -/

theorem Exact.nodup_expected (h : Exact c) : (ids c.store.2.expected).Nodup :=
  Log.nodup_expected h.nodup

theorem Exact.queueMessage (h : Exact c) {m : Message}
    (hi : c.pool[i]? = some (.queueMessage m)) (hg : distinctIds c (.turn i) = true)
    (hnew : op'.holds = []) (hknown : ∀ pushed, op'.Known pushed) :
    Exact ⟨({ c.store.1 with list := c.store.1.list ++ [m] },
      { c.store.2 with pushed := c.store.2.pushed ++ [m] }), c.pool.set i op'⟩ := by
  have hfresh : m.messageId ∉ ids c.store.2.pushed := by simpa [distinctIds, hi] using hg
  have hgrow : ∀ x, x ∈ ids c.store.2.pushed → x ∈ ids (c.store.2.pushed ++ [m]) := fun x hx => by
    rw [ids, List.map_append]
    exact List.mem_append_left _ hx
  have hgone : m.messageId ∉ c.store.2.gone := fun hm => hfresh (h.gone _ hm)
  have hedits : c.store.2.edits m.messageId = none := by
    rw [← Option.not_isSome_iff_eq_none]
    exact fun hs => hfresh (h.edits _ hs)
  refine ⟨?_, ?_, ?_, fun x hx => hgrow x (h.gone x hx), fun x hx => hgrow x (h.edits x hx)⟩
  · dsimp only
    rw [Log.expected_push hgone hedits, List.append_assoc]
    refine List.Perm.trans ?_ (h.perm.append_right [m])
    rw [List.append_assoc]
    exact (List.perm_append_comm.trans ((held_turn hi rfl hnew).append_right _)).append_left _
  · rw [ids, List.map_append]
    exact List.nodup_append.mpr ⟨h.nodup, by simp, by
      rintro x hx y hy rfl
      simp only [List.map_cons, List.map_nil, List.mem_singleton] at hy
      exact hfresh (hy ▸ hx)⟩
  · refine forall_turn (fun q hq => ?_) (hknown _)
    have hold := h.known q hq
    cases q with
    | set index target edit =>
        obtain ⟨p, hp, hid⟩ := hold
        exact ⟨p, List.mem_append_left _ hp, hid⟩
    | remove => exact hgrow _ hold
    | rewrite | size | deleteMessages => exact fun x hx => hgrow _ (hold x hx)
    | queueMessage | trim | updateMessageInQueue | removeMessageFromQueue | deleteEmptied
    | rewriteQueueKeepingLive | writeBack | sync | settle | done => trivial

theorem Exact.trim (h : Exact c) (hmax : max ≠ 0) (hi : c.pool[i]? = some .trim) :
    let more := ids (c.store.1.list.take (c.store.1.list.length - max))
    Exact ⟨(⟨c.store.1.now, ltrim max c.store.1.list⟩,
      { c.store.2 with gone := c.store.2.gone ++ more }), c.pool.set i .settle⟩ := by
  intro more
  refine h.leave ?_ (fun x hx => ?_) trivial
  · refine ((held_turn hi rfl rfl).append_left _).trans (perm_gone ?_ h.nodup_expected)
    rw [ltrim, if_neg hmax, ← List.append_assoc, List.take_append_drop]
    exact h.perm
  · obtain ⟨m, hm, rfl⟩ := List.mem_map.mp hx
    exact h.id_pushed (List.mem_of_mem_take hm)

/-- `LREM` of an entry that is still there, or of a message that is nowhere. -/
theorem Exact.remove (h : Exact c) {target : Message} {newSize : Nat}
    (hi : c.pool[i]? = some (.remove target newSize)) (hg : undisturbed c (.turn i) = true)
    (hnew : op'.holds = []) (hknown : op'.Known c.store.2.pushed) :
    Exact ⟨(⟨c.store.1.now, c.store.1.list.erase target⟩,
      { c.store.2 with gone := c.store.2.gone ++ [target.messageId] }), c.pool.set i op'⟩ := by
  have hpushed : target.messageId ∈ ids c.store.2.pushed := h.known _ (List.mem_of_getElem? hi)
  simp only [undisturbed, hi, Bool.or_eq_true, List.contains_eq_mem, decide_eq_true_eq,
    Bool.not_eq_true', decide_eq_false_iff_not] at hg
  refine h.leave (((held_turn hi rfl hnew).append_left _).trans ?_) (fun x hx => ?_) hknown
  · rcases hg with hmem | hno
    · refine (perm_gone (a := [target]) ?_ h.nodup_expected)
      exact (((List.perm_cons_erase hmem).symm).append_right _).trans h.perm
    · have hlist : target ∉ c.store.1.list := fun hm =>
        hno (List.mem_map_of_mem (List.mem_append_left _ hm))
      rw [List.erase_of_not_mem hlist]
      refine h.perm.trans ?_
      rw [List.filter_eq_self.mpr]
      intro m hm
      simp only [decide_eq_true_eq, List.mem_singleton]
      exact fun heq => hno (heq ▸ List.mem_map_of_mem (h.perm.symm.subset hm))
  · obtain rfl := List.mem_singleton.mp hx
    exact hpushed

/-- The rewrite of a list that is as it was read. -/
theorem Exact.rewrite (h : Exact c) {jsonList : List Message} {cutoff : Int}
    (hi : c.pool[i]? = some (.rewrite jsonList cutoff))
    (hg : undisturbed c (.turn i) = true) :
    let more := ids (jsonList.filter (isExpired · cutoff))
    let kept := jsonList.filter fun m => !isExpired m cutoff
    Exact ⟨(⟨c.store.1.now, []⟩, { c.store.2 with gone := c.store.2.gone ++ more }),
      c.pool.set i (.writeBack kept)⟩ := by
  intro more kept
  have hlist : c.store.1.list = jsonList := by simpa [undisturbed, hi] using hg
  refine h.leave ?_ (fun x hx => ?_) trivial
  · have hheld := flatMap_turn Op.holds hi
      (.writeBack (jsonList.filter fun m => !isExpired m cutoff))
    simp only [Op.holds, List.append_nil] at hheld
    refine List.Perm.trans hheld ?_
    refine perm_gone (List.Perm.trans ?_ h.perm) h.nodup_expected
    rw [hlist, ← List.append_assoc]
    refine List.Perm.trans ?_ ((List.filter_append_perm (isExpired · cutoff) jsonList).append_right _)
    rw [List.append_assoc, List.append_assoc]
    exact (List.perm_append_comm).append_left _
  · obtain ⟨m, hm, rfl⟩ := List.mem_map.mp hx
    exact h.known _ (List.mem_of_getElem? hi) m (List.mem_filter.mp hm).1

/-- A sync deletes the list; everything in it was handed out. -/
theorem Exact.deleteMessages (h : Exact c) {messages : List Message}
    (hi : c.pool[i]? = some (.deleteMessages messages)) (hg : undisturbed c (.turn i) = true) :
    Exact ⟨(⟨c.store.1.now, []⟩,
      { c.store.2 with gone := c.store.2.gone ++ ids messages }), c.pool.set i .settle⟩ := by
  simp only [undisturbed, hi, Bool.and_eq_true, List.all_eq_true, List.contains_eq_mem,
    decide_eq_true_eq, Bool.not_eq_true', decide_eq_false_iff_not] at hg
  refine h.leave ((held_turn hi rfl rfl).trans ?_) (fun x hx => ?_) trivial
  · refine perm_filter_of_append h.perm (fun m hm => ?_) fun m hm => ?_
    · rw [decide_eq_false_iff_not, not_not]
      exact hg.1 m hm
    · exact decide_eq_true (hg.2 m hm)
  · obtain ⟨m, hm, rfl⟩ := List.mem_map.mp hx
    exact h.known _ (List.mem_of_getElem? hi) m hm

theorem Exact.deleteEmptied (h : Exact c) (hi : c.pool[i]? = some .deleteEmptied)
    (hg : undisturbed c (.turn i) = true) :
    Exact ⟨(⟨c.store.1.now, []⟩, c.store.2), c.pool.set i .settle⟩ := by
  have hempty : c.store.1.list = [] := by simpa [undisturbed, hi] using hg
  have hkeep : Exact ⟨c.store, c.pool.set i .settle⟩ := h.keep hi rfl rfl trivial
  refine ⟨?_, hkeep.nodup, hkeep.known, hkeep.gone, hkeep.edits⟩
  have hperm := hkeep.perm
  dsimp only at hperm ⊢
  rwa [hempty] at hperm

theorem Exact.writeBack (h : Exact c) {m : Message} {kept : List Message}
    (hi : c.pool[i]? = some (.writeBack (m :: kept))) :
    Exact ⟨(⟨c.store.1.now, c.store.1.list ++ [m]⟩, c.store.2),
      c.pool.set i (.writeBack kept)⟩ := by
  refine ⟨List.Perm.trans ?_ h.perm, h.nodup, forall_turn h.known trivial, h.gone, h.edits⟩
  have hheld := flatMap_turn Op.holds hi (.writeBack kept)
  have hmoved : (held (c.pool.set i (.writeBack kept)) ++ [m]).Perm (held c.pool) := by
    refine (List.perm_append_right_iff kept).mp ?_
    rw [List.append_assoc]
    exact hheld
  dsimp only
  rw [List.append_assoc]
  exact (List.perm_append_comm.trans hmoved).append_left _

/-- `LSET` at a position that still holds the message. -/
theorem Exact.set (h : Exact c) {index : Nat} {target : Message} {edit : Edit}
    (hi : c.pool[i]? = some (.set index target edit)) (hg : undisturbed c (.turn i) = true)
    (hindex : index < c.store.1.list.length) :
    let edits := Function.update c.store.2.edits target.messageId (some edit)
    Exact ⟨(⟨c.store.1.now, c.store.1.list.set index (target.edited edit)⟩,
      { c.store.2 with edits := edits }), c.pool.set i .done⟩ := by
  intro edits
  obtain ⟨p, hp, hid, hedit⟩ := h.known _ (List.mem_of_getElem? hi)
  have hat : c.store.1.list[index]? = some c.store.1.list[index] := List.getElem?_eq_getElem hindex
  have hsame : c.store.1.list[index].messageId = (target.edited edit).messageId := by
    have hid' : c.store.1.list[index].messageId = target.messageId := by
      simpa [undisturbed, hi, hat, hasId] using hg
    exact hid'
  have hnodup : (ids (c.store.1.list ++ held c.pool)).Nodup :=
    (h.perm.map _).nodup_iff.mpr h.nodup_expected
  have hmap : (c.store.1.list ++ held c.pool).map (put (target.edited edit))
      = c.store.1.list.set index (target.edited edit) ++ held c.pool := by
    have hat' : (c.store.1.list ++ held c.pool)[index]? = some c.store.1.list[index] := by
      rw [List.getElem?_append_left hindex, hat]
    rw [map_put_eq_set hnodup hat' hsame, List.set_append_left _ _ hindex]
  refine ⟨?_, h.nodup, forall_turn h.known trivial, h.gone, fun x hx => ?_⟩
  · dsimp only
    have hexpected := Log.expected_edit h.nodup hp edit
    rw [hid] at hexpected
    refine ((held_turn hi rfl rfl).append_left _).trans ?_
    rw [← hmap, hexpected, hedit]
    exact h.perm.map _
  · by_cases hx' : x = target.messageId
    · rw [hx', ← hid]
      exact List.mem_map_of_mem hp
    · dsimp only [edits] at hx
      rw [Function.update_of_ne hx'] at hx
      exact h.edits x hx

/-- The whole list is dropped. -/
theorem Exact.drop (h : Exact c) :
    Exact ⟨(⟨c.store.1.now, []⟩,
      { c.store.2 with gone := c.store.2.gone ++ ids c.store.1.list }), c.pool⟩ where
  perm := by
    dsimp only
    rw [Log.expected_gone]
    exact perm_gone h.perm h.nodup_expected
  nodup := h.nodup
  known := h.known
  gone x hx := by
    rcases List.mem_append.mp hx with hx | hx
    · exact h.gone x hx
    · obtain ⟨m, hm, rfl⟩ := List.mem_map.mp hx
      exact h.id_pushed hm
  edits := h.edits

/-! ### Runs -/

/-- The read of an operation. -/
theorem Exact.read (h : Exact c) {q' : Queue} (hi : c.pool[i]? = some op)
    (hopen : op.opens = true) (hpush : ∀ m, op ≠ .queueMessage m)
    (hs : step max op c.store.1 = some (q', op')) :
    q' = c.store.1 ∧ Exact ⟨c.store, c.pool.set i op'⟩ := by
  cases op with
  | queueMessage m => exact absurd rfl (hpush m)
  | updateMessageInQueue messageId senderInternalId senderId edit =>
      simp only [step] at hs
      split at hs
      · rename_i index target _ hfind
        repeat' split at hs
        · obtain ⟨rfl, rfl⟩ := Prod.mk.inj (Option.some.inj hs)
          exact ⟨rfl, h.keep hi rfl rfl trivial⟩
        · obtain ⟨rfl, rfl⟩ := Prod.mk.inj (Option.some.inj hs)
          exact ⟨rfl, h.keep hi rfl rfl trivial⟩
        · obtain ⟨rfl, rfl⟩ := Prod.mk.inj (Option.some.inj hs)
          obtain ⟨p, hp, hid, rfl⟩ := h.mem_pushed (List.mem_of_find?_eq_some hfind)
          exact ⟨rfl, h.keep hi rfl rfl ⟨p, hp, hid, Log.latest_edited ..⟩⟩
      · obtain ⟨rfl, rfl⟩ := Prod.mk.inj (Option.some.inj hs)
        exact ⟨rfl, h.keep hi rfl rfl trivial⟩
  | removeMessageFromQueue messageId =>
      simp only [step] at hs
      split at hs
      · obtain ⟨rfl, rfl⟩ := Prod.mk.inj (Option.some.inj hs)
        exact ⟨rfl, h.keep hi rfl rfl trivial⟩
      · rename_i target hfind
        obtain ⟨rfl, rfl⟩ := Prod.mk.inj (Option.some.inj hs)
        exact ⟨rfl, h.keep hi rfl rfl (h.id_pushed (List.mem_of_find?_eq_some hfind))⟩
  | rewriteQueueKeepingLive cutoff =>
      simp only [step] at hs
      split at hs
      · obtain ⟨rfl, rfl⟩ := Prod.mk.inj (Option.some.inj hs)
        exact ⟨rfl, h.keep hi rfl rfl fun m hm => h.id_pushed hm⟩
      · obtain ⟨rfl, rfl⟩ := Prod.mk.inj (Option.some.inj hs)
        exact ⟨rfl, h.keep hi rfl rfl trivial⟩
  | sync =>
      simp only [step] at hs
      split at hs
      · obtain ⟨rfl, rfl⟩ := Prod.mk.inj (Option.some.inj hs)
        exact ⟨rfl, h.keep hi rfl rfl trivial⟩
      · obtain ⟨rfl, rfl⟩ := Prod.mk.inj (Option.some.inj hs)
        exact ⟨rfl, h.keep hi rfl rfl fun m hm => h.id_pushed hm⟩
  | trim | set | remove | deleteEmptied | rewrite | writeBack | size | deleteMessages | settle
  | done => cases hopen

theorem exact_turn (h : Exact c) {q' : Queue} (hi : c.pool[i]? = some op)
    (hd : distinctIds c (.turn i) = true) (hg : undisturbed c (.turn i) = true)
    (hs : step max op c.store.1 = some (q', op')) :
    Exact ⟨(q', record max op c.store.1 c.store.2), c.pool.set i op'⟩ := by
  cases op with
  | queueMessage m =>
      obtain ⟨rfl, rfl⟩ := Prod.mk.inj (Option.some.inj hs)
      refine h.queueMessage hi hd ?_ fun pushed => ?_
      · split <;> rfl
      · split <;> trivial
  | trim =>
      obtain ⟨rfl, rfl⟩ := Prod.mk.inj (Option.some.inj hs)
      by_cases hmax : max = 0
      · simp only [record, ltrim, hmax, if_true]
        exact h.keep hi rfl rfl trivial
      · simp only [record, if_neg hmax]
        exact h.trim hmax hi
  | updateMessageInQueue | removeMessageFromQueue | rewriteQueueKeepingLive | sync =>
      obtain ⟨rfl, hexact⟩ := h.read hi rfl (fun m => by simp) hs
      exact hexact
  | set index target edit =>
      obtain ⟨rfl, rfl⟩ := Prod.mk.inj (Option.some.inj hs)
      by_cases hindex : index < c.store.1.list.length
      · simp only [record, if_pos hindex]
        exact h.set hi hg hindex
      · simp only [record, if_neg hindex, List.set_eq_of_length_le (Nat.not_lt.mp hindex)]
        exact h.keep hi rfl rfl trivial
  | remove target newSize =>
      obtain ⟨rfl, rfl⟩ := Prod.mk.inj (Option.some.inj hs)
      refine h.remove hi hg ?_ ?_
      · split <;> rfl
      · split <;> trivial
  | deleteEmptied =>
      obtain ⟨rfl, rfl⟩ := Prod.mk.inj (Option.some.inj hs)
      exact h.deleteEmptied hi hg
  | rewrite jsonList cutoff =>
      obtain ⟨rfl, rfl⟩ := Prod.mk.inj (Option.some.inj hs)
      exact h.rewrite hi hg
  | writeBack kept =>
      cases kept with
      | nil =>
          obtain ⟨rfl, rfl⟩ := Prod.mk.inj (Option.some.inj hs)
          exact h.keep hi rfl rfl trivial
      | cons m kept =>
          obtain ⟨rfl, rfl⟩ := Prod.mk.inj (Option.some.inj hs)
          exact h.writeBack hi
  | size messages =>
      obtain ⟨rfl, rfl⟩ := Prod.mk.inj (Option.some.inj hs)
      have hknown := h.known _ (List.mem_of_getElem? hi)
      exact h.keep hi rfl rfl hknown
  | deleteMessages messages =>
      obtain ⟨rfl, rfl⟩ := Prod.mk.inj (Option.some.inj hs)
      exact h.deleteMessages hi hg
  | settle =>
      obtain ⟨rfl, rfl⟩ := Prod.mk.inj (Option.some.inj hs)
      exact h.keep hi rfl rfl trivial
  | done => cases hs

theorem exact_preserved (max : Nat) :
    (server max).Preserves (fun c act => (distinctIds c act && undisturbed c act) = true)
      Exact where
  start c op h _ hopen := h.start (Op.holds_of_opens hopen) (Op.known_of_opens hopen _)
  turn c i op s' op' h hg hi hs := by
    obtain ⟨hd, hu⟩ := Bool.and_eq_true_iff.mp hg
    obtain ⟨hstep, hlog⟩ := Server.recording_step hs
    obtain ⟨q', l'⟩ := s'
    obtain rfl := hlog
    exact exact_turn h hi hd hu hstep
  env c e s' h _ hs := by
    obtain ⟨henv, hlog⟩ := Server.recording_env hs
    obtain ⟨q', l'⟩ := s'
    obtain rfl := hlog
    obtain rfl := Option.some.inj henv
    exact ⟨h.perm, h.nodup, h.known, h.gone, h.edits⟩

def Op.isDone : Op → Bool
  | .done => true
  | _ => false

def emptyLog : Log := ⟨[], [], fun _ => none⟩

/-- Once no operation is in progress, the list holds exactly once every message
that was pushed and is not gone, as last edited; and nothing that is gone. -/
theorem queue_exact (max now : Nat) (c : Conf (Queue × Log) Op)
    (hrun : (server max).Run (fun c act => (distinctIds c act && undisturbed c act) = true)
      ⟨(⟨now, []⟩, emptyLog), []⟩ c) (hidle : c.pool.all Op.isDone = true) :
    c.store.1.list.Perm c.store.2.expected ∧ (ids c.store.1.list).Nodup
      ∧ ∀ m ∈ c.store.1.list, m.messageId ∉ c.store.2.gone := by
  have hstart : Exact ⟨(⟨now, []⟩, emptyLog), []⟩ :=
    ⟨.nil, .nil, (fun _ hop => by cases hop), (fun _ hx => by cases hx), fun _ hx => by cases hx⟩
  have h := hrun.invariant (exact_preserved max) hstart
  have hheld : held c.pool = [] := by
    refine List.flatMap_eq_nil_iff.mpr fun op hop => ?_
    have hdone := List.all_eq_true.mp hidle op hop
    cases op <;> first | rfl | cases hdone
  have hperm := h.perm
  rw [hheld, List.append_nil] at hperm
  refine ⟨hperm, (hperm.map _).nodup_iff.mpr h.nodup_expected, fun m hm => ?_⟩
  have hid : m.messageId ∈ ids c.store.2.expected := List.mem_map_of_mem (hperm.subset hm)
  rw [Log.ids_expected] at hid
  obtain ⟨p, hp, hpm⟩ := List.mem_map.mp hid
  rw [← hpm]
  exact of_decide_eq_true (List.mem_filter.mp hp).2

/-! ### A message queued during a sync -/

def sampleMessage (messageId : String) (serverTimestamp : Nat) : Message where
  messageId := messageId
  senderInternalId := some "bob"
  senderId := none
  encryptedContent := "c0"
  iv := "v0"
  clientTimestamp := none
  serverTimestamp := some serverTimestamp
  editedAt := none

/-- A sync reads the queue; another message is queued; the sync deletes the list. -/
def queuedDuringSync : List (Action Op Move) :=
  [.start (.queueMessage (sampleMessage "m1" 0)), .turn 0, .turn 0, .start .sync, .turn 1,
    .start (.queueMessage (sampleMessage "m2" 0)), .turn 2, .turn 2, .turn 1, .turn 1, .turn 1]

theorem queued_message_lost : ¬ ∀ (max now : Nat) (c : Conf (Queue × Log) Op),
    (server max).Run (fun c act => distinctIds c act = true) ⟨(⟨now, []⟩, emptyLog), []⟩ c →
    c.pool.all Op.isDone = true →
    c.store.1.list.Perm c.store.2.expected ∧ (ids c.store.1.list).Nodup
      ∧ ∀ m ∈ c.store.1.list, m.messageId ∉ c.store.2.gone := by
  intro h
  have hrun : ((server 100).execWhile distinctIds ⟨(⟨0, []⟩, emptyLog), []⟩ queuedDuringSync).map
      (fun c => (c.pool.all Op.isDone, c.store.1.list, ids c.store.2.expected))
      = some (true, [], ["m2"]) := by decide +kernel
  obtain ⟨c, hc, heq⟩ := Option.map_eq_some_iff.mp hrun
  simp only [Prod.mk.injEq] at heq
  obtain ⟨hidle, hlist, hexpected⟩ := heq
  obtain ⟨hperm, -⟩ := h 100 0 c (Server.run_of_execWhile (fun _ _ h => h) hc) hidle
  rw [hlist] at hperm
  rw [hperm.nil_eq.symm] at hexpected
  cases hexpected

/-- Three messages with a limit of two, an edit, a removal, a prune and a sync,
one after the other; a fourth message is queued while the prune writes back. -/
def undisturbedRun : List (Action Op Move) :=
  [.start (.queueMessage (sampleMessage "m1" 0)), .turn 0, .turn 0,
    .start (.queueMessage (sampleMessage "m2" 0)), .turn 1, .turn 1,
    .start (.queueMessage (sampleMessage "m3" 9)), .turn 2, .turn 2, .turn 2,
    .start (.updateMessageInQueue "m3" (some "bob") none ⟨"c1", "v1", 7⟩), .turn 3, .turn 3,
    .start (.rewriteQueueKeepingLive 5), .turn 4, .turn 4,
    .start (.queueMessage (sampleMessage "m4" 9)), .turn 5, .turn 5, .turn 4, .turn 4, .turn 4,
    .start (.removeMessageFromQueue "m4"), .turn 6, .turn 6, .turn 6]

theorem queue_exact_undisturbed :
    ∃ c, (server 2).execWhile (fun c act => distinctIds c act && undisturbed c act)
        ⟨(⟨0, []⟩, emptyLog), []⟩ undisturbedRun = some c
      ∧ ids c.store.2.expected = ["m3"]
      ∧ c.store.1.list.Perm c.store.2.expected ∧ (ids c.store.1.list).Nodup
      ∧ ∀ m ∈ c.store.1.list, m.messageId ∉ c.store.2.gone := by
  have hrun : ((server 2).execWhile (fun c act => distinctIds c act && undisturbed c act)
      ⟨(⟨0, []⟩, emptyLog), []⟩ undisturbedRun).map
      (fun c => (c.pool.all Op.isDone, ids c.store.2.expected)) = some (true, ["m3"]) := by
    decide +kernel
  obtain ⟨c, hc, heq⟩ := Option.map_eq_some_iff.mp hrun
  obtain ⟨hidle, hexpected⟩ := Prod.mk.inj heq
  refine ⟨c, hc, hexpected, ?_⟩
  exact queue_exact 2 0 c (Server.run_of_execWhile (fun _ _ h => h) hc) hidle

end OfflineQueue

end BurnedChats

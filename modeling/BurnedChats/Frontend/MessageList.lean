import Mathlib.Data.List.Sort
import Mathlib.Data.List.Nodup

/-!
# The list of messages of a chat view

The two chat views keep their messages in one list, which every handler replaces by a
function of what it then contains: a message is inserted and the list sorted, a batch
is merged, the messages of an id are mapped, those of some ids filtered out. Sorting is
stable, as the language's `sort` is.

`Tidy` is what all of these keep. A list shows a version of each of its messages, told
by its id, content and `editedAt`; `Version.age` orders the versions of a message, with
the unedited one first.
-/

namespace BurnedChats

abbrev MessageId := String

inductive MessageStatus
  | sending
  | sent
  | delivered
  | failed
  deriving DecidableEq, Repr

structure DecryptedMessage where
  id : MessageId
  content : String
  timestamp : Nat
  status : MessageStatus
  editedAt : Option Nat
  deriving DecidableEq, Repr

/-- The client's time if there is one, else the server's, else the time of the call. -/
def toEpochMs (clientTimestamp serverTimestamp : Option Nat) (now : Nat) : Nat :=
  (clientTimestamp.or serverTimestamp).getD now

namespace MessageList

def earlier (a b : DecryptedMessage) : Prop := a.timestamp ≤ b.timestamp

instance : DecidableRel earlier := fun a b =>
  inferInstanceAs (Decidable (a.timestamp ≤ b.timestamp))

instance : Std.Total earlier := ⟨fun a b => Nat.le_total a.timestamp b.timestamp⟩

instance : IsTrans DecryptedMessage earlier := ⟨fun _ _ _ => Nat.le_trans⟩

variable (prev : List DecryptedMessage)

def sortByTimestamp : List DecryptedMessage := prev.insertionSort earlier

def has (id : MessageId) : Bool := prev.any (·.id == id)

/-- A message that has been decrypted, unless its id is there already. -/
def insertNew (m : DecryptedMessage) : List DecryptedMessage :=
  if has prev m.id then prev else sortByTimestamp (prev ++ [m])

/-- Merge incoming messages without duplicates, sorted by timestamp. -/
def mergeMessagesSorted (incoming : List DecryptedMessage) : List DecryptedMessage :=
  let newMessages := incoming.filter fun m => !has prev m.id
  if newMessages.isEmpty then prev else sortByTimestamp (prev ++ newMessages)

def updateMessageStatus (messageId : MessageId) (status : MessageStatus) : List DecryptedMessage :=
  prev.map fun m => if m.id = messageId then { m with status } else m

def applyEdit (messageId : MessageId) (plaintext : String) (editedAtMs : Nat) :
    List DecryptedMessage :=
  prev.map fun m =>
    if m.id = messageId then { m with content := plaintext, editedAt := some editedAtMs } else m

def removeIds (ids : List MessageId) : List DecryptedMessage := prev.filter fun m => m.id ∉ ids

/-! ## Order and ids -/

/-- No id twice, and in the order of the timestamps. -/
structure Tidy : Prop where
  ids : (prev.map (·.id)).Nodup
  sorted : prev.Pairwise earlier

variable {prev} {m : DecryptedMessage} {id : MessageId}

@[simp] theorem mem_sortByTimestamp : m ∈ sortByTimestamp prev ↔ m ∈ prev :=
  List.mem_insertionSort earlier

theorem has_iff : has prev id = true ↔ ∃ m ∈ prev, m.id = id := by
  simp [has]

theorem tidy_nil : Tidy [] := ⟨List.nodup_nil, List.Pairwise.nil⟩

theorem tidy_sort (h : (prev.map (·.id)).Nodup) : Tidy (sortByTimestamp prev) :=
  ⟨(((List.perm_insertionSort earlier prev).map _).nodup_iff).mpr h,
    List.pairwise_insertionSort earlier prev⟩

/-- A tidy list has one message of an id at most. -/
theorem Tidy.unique (h : Tidy prev) {m' : DecryptedMessage} (hm : m ∈ prev) (hm' : m' ∈ prev)
    (hid : m.id = m'.id) : m = m' :=
  List.inj_on_of_nodup_map h.ids hm hm' hid

theorem Tidy.filter (h : Tidy prev) (p : DecryptedMessage → Bool) : Tidy (prev.filter p) :=
  ⟨h.ids.sublist (List.filter_sublist.map _), h.sorted.sublist List.filter_sublist⟩

/-- A map that leaves ids and timestamps alone. -/
theorem Tidy.map (h : Tidy prev) {f : DecryptedMessage → DecryptedMessage}
    (hid : ∀ m, (f m).id = m.id) (htimestamp : ∀ m, (f m).timestamp = m.timestamp) :
    Tidy (prev.map f) := by
  refine ⟨?_, List.pairwise_map.mpr (h.sorted.imp fun {a b} hab => ?_)⟩
  · rw [List.map_map]
    exact (List.map_congr_left fun m _ => hid m) ▸ h.ids
  · unfold earlier
    rw [htimestamp, htimestamp]
    exact hab

/-! ## The updates -/

theorem mem_merge {incoming : List DecryptedMessage} :
    m ∈ mergeMessagesSorted prev incoming ↔
      m ∈ prev ∨ (m ∈ incoming ∧ has prev m.id = false) := by
  unfold mergeMessagesSorted
  dsimp only
  split
  · rename_i he
    rw [List.isEmpty_iff, List.filter_eq_nil_iff] at he
    refine ⟨.inl, fun h => h.resolve_right fun ⟨hm, hhas⟩ => he m hm ?_⟩
    rw [hhas]
    rfl
  · simp

theorem Tidy.merge (h : Tidy prev) {incoming : List DecryptedMessage}
    (hincoming : (incoming.map (·.id)).Nodup) : Tidy (mergeMessagesSorted prev incoming) := by
  unfold mergeMessagesSorted
  dsimp only
  split
  · exact h
  · refine tidy_sort ?_
    rw [List.map_append]
    refine List.Nodup.append h.ids (hincoming.sublist (List.filter_sublist.map _)) ?_
    intro id hid hid'
    obtain ⟨m, hm, rfl⟩ := List.mem_map.mp hid
    obtain ⟨m', hm', he⟩ := List.mem_map.mp hid'
    have hnot := (List.mem_filter.mp hm').2
    rw [show has prev m'.id = true from has_iff.mpr ⟨m, hm, he.symm⟩] at hnot
    cases hnot

/-- A message on its own is inserted as a batch of one is merged. -/
theorem insertNew_eq (prev : List DecryptedMessage) (m : DecryptedMessage) :
    insertNew prev m = mergeMessagesSorted prev [m] := by
  unfold insertNew mergeMessagesSorted
  cases h : has prev m.id <;> simp [h]

theorem mem_removeIds {ids : List MessageId} : m ∈ removeIds prev ids ↔ m ∈ prev ∧ m.id ∉ ids := by
  simp [removeIds]

theorem Tidy.updateMessageStatus (h : Tidy prev) (id : MessageId) (status : MessageStatus) :
    Tidy (updateMessageStatus prev id status) :=
  h.map (fun m => by split <;> rfl) fun m => by split <;> rfl

theorem Tidy.applyEdit (h : Tidy prev) (id : MessageId) (plaintext : String) (editedAtMs : Nat) :
    Tidy (applyEdit prev id plaintext editedAtMs) :=
  h.map (fun m => by split <;> rfl) fun m => by split <;> rfl

/-- After an edit the other messages are as they were, and its own shows it. -/
theorem mem_applyEdit {plaintext : String} {editedAtMs : Nat}
    (h : m ∈ applyEdit prev id plaintext editedAtMs) :
    (m ∈ prev ∧ m.id ≠ id) ∨ ∃ m₀ ∈ prev, m₀.id = id
      ∧ m = { m₀ with content := plaintext, editedAt := some editedAtMs } := by
  obtain ⟨m₀, hm₀, rfl⟩ := List.mem_map.mp h
  by_cases hid : m₀.id = id
  · rw [if_pos hid]
    exact .inr ⟨m₀, hm₀, hid, rfl⟩
  · rw [if_neg hid]
    exact .inl ⟨hm₀, hid⟩

theorem has_applyEdit {id' : MessageId} {plaintext : String} {editedAtMs : Nat} :
    has (applyEdit prev id plaintext editedAtMs) id' = has prev id' := by
  unfold has applyEdit
  rw [List.any_map]
  congr 1
  funext m
  simp only [Function.comp]
  split <;> rfl

theorem has_merge {incoming : List DecryptedMessage} (hm : m ∈ incoming) :
    has (mergeMessagesSorted prev incoming) m.id = true := by
  cases hhas : has prev m.id with
  | true =>
      obtain ⟨m₀, hm₀, hid⟩ := has_iff.mp hhas
      exact has_iff.mpr ⟨m₀, mem_merge.mpr (.inl hm₀), hid⟩
  | false => exact has_iff.mpr ⟨m, mem_merge.mpr (.inr ⟨hm, hhas⟩), rfl⟩

theorem has_of_merge {incoming : List DecryptedMessage}
    (h : has (mergeMessagesSorted prev incoming) id = false) : has prev id = false := by
  refine Bool.eq_false_iff.mpr fun hold => ?_
  obtain ⟨m, hm, hid⟩ := has_iff.mp hold
  rw [has_iff.mpr ⟨m, mem_merge.mpr (.inl hm), hid⟩] at h
  cases h

end MessageList

/-! ## Versions -/

/-- How recent a version is: an unedited one is older than every edit. -/
def editAge (editedAt : Option Nat) : Nat := editedAt.elim 0 (· + 1)

structure Version where
  id : MessageId
  content : String
  editedAt : Option Nat
  deriving DecidableEq, Repr

def Version.age (v : Version) : Nat := editAge v.editedAt

def DecryptedMessage.version (m : DecryptedMessage) : Version := ⟨m.id, m.content, m.editedAt⟩

/-- A message shows the content of the latest edit among the versions received, or the
original one where there is no edit. -/
def ShowsLatest (received : List Version) (m : DecryptedMessage) : Prop :=
  m.version ∈ received ∧ ∀ u ∈ received, u.id = m.id → u.age ≤ m.version.age

end BurnedChats

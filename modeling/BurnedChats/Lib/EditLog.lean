import Mathlib.Data.List.Nodup
import Mathlib.Logic.Function.Basic

/-!
# Logs of a list that is edited in place

A list of entries is pushed to, trimmed, filtered, and edited entry by entry. An
`EditLog` keeps what was pushed, the keys that are gone, and the last edit of each
key; `expected` is the list that these come to. The rules say what a push, a drop
of keys and an edit do to it, and which change of a concrete list with distinct
keys does the same.
-/

/-- Entries with a key that edits leave alone, and edits of which the last counts. -/
structure Entries (M K E : Type) where
  key : M → K
  edit : M → E → M
  key_edit : ∀ m x, key (edit m x) = key m
  edit_edit : ∀ m x y, edit (edit m x) y = edit m y

structure EditLog (M K E : Type) where
  pushed : List M
  gone : List K
  edits : K → Option E

namespace Entries

variable {M K E : Type} (T : Entries M K E)

def keys (l : List M) : List K := l.map T.key

section Keys

variable {T} {a b l : List M} {m : M}

theorem mem_keys (h : m ∈ l) : T.key m ∈ T.keys l := List.mem_map_of_mem h

@[simp] theorem keys_append : T.keys (a ++ b) = T.keys a ++ T.keys b := List.map_append

theorem nodup_keys_sublist (h : (T.keys l).Nodup) (hs : a.Sublist l) : (T.keys a).Nodup :=
  h.sublist (hs.map _)

end Keys

variable [DecidableEq K]

/-- The entries whose key is not among those given. -/
def except (ks : List K) (l : List M) : List M := l.filter fun m => T.key m ∉ ks

/-- The edit of one key. -/
def revise (k : K) (x : E) (m : M) : M := if T.key m = k then T.edit m x else m

section Lists

variable {T} {a b l : List M} {m : M} {k : K}

theorem except_cons (ks : List K) (m : M) (l : List M) :
    T.except ks (m :: l) = if T.key m ∈ ks then T.except ks l else m :: T.except ks l := by
  by_cases h : T.key m ∈ ks <;> simp [except, h]

/-- Of a list with distinct keys, the first part can be dropped by its keys. -/
theorem except_append (h : (T.keys (a ++ b)).Nodup) : T.except (T.keys a) (a ++ b) = b := by
  rw [keys_append] at h
  have ha : a.filter (fun m => decide (T.key m ∉ T.keys a)) = [] :=
    List.filter_eq_nil_iff.mpr fun m hm => by simpa using mem_keys hm
  have hb : b.filter (fun m => decide (T.key m ∉ T.keys a)) = b :=
    List.filter_eq_self.mpr fun m hm =>
      decide_eq_true fun hk => List.disjoint_of_nodup_append h hk (mem_keys hm)
  rw [except, List.filter_append, ha, hb, List.nil_append]

theorem except_append_left (ks : List K) :
    T.except ks (a ++ b) = T.except ks a ++ T.except ks b := List.filter_append ..

theorem except_eq_self {ks : List K} (h : ∀ k ∈ ks, k ∉ T.keys l) : T.except ks l = l :=
  List.filter_eq_self.mpr fun _ hm => decide_eq_true fun hk => h _ hk (mem_keys hm)

/-- So can the entries of a kind. -/
theorem except_filter (h : (T.keys l).Nodup) (f : M → Bool) :
    T.except (T.keys (l.filter f)) l = l.filter fun m => !f m := by
  refine List.filter_congr fun m hm => ?_
  by_cases hf : f m = true
  · have hmem : T.key m ∈ T.keys (l.filter f) := mem_keys (List.mem_filter.mpr ⟨hm, hf⟩)
    simp [hf, hmem]
  · have hno : T.key m ∉ T.keys (l.filter f) := by
      intro hk
      obtain ⟨m', hm', he⟩ := List.mem_map.mp hk
      obtain ⟨hml, hf'⟩ := List.mem_filter.mp hm'
      exact hf (List.inj_on_of_nodup_map h hml hm he ▸ hf')
    simp [hf, hno]

/-- Removing the entry of a key. -/
theorem erase_eq_except [DecidableEq M] (h : (T.keys l).Nodup) (hm : m ∈ l) :
    l.erase m = T.except [T.key m] l := by
  rw [(List.Nodup.of_map _ h).erase_eq_filter, except]
  refine List.filter_congr fun m' hm' => ?_
  rw [Bool.eq_iff_iff]
  simp only [bne_iff_ne, ne_eq, List.mem_singleton, decide_eq_true_eq]
  exact ⟨fun hne he => hne (List.inj_on_of_nodup_map h hm' hm he), fun hne he => hne (he ▸ rfl)⟩

theorem except_erase [DecidableEq M] (hk : T.key m = k) :
    T.except [k] (l.erase m) = T.except [k] l := by
  induction l with
  | nil => rfl
  | cons x l ih =>
      by_cases he : x = m
      · subst he
        rw [List.erase_cons_head, except_cons, if_pos (by simp [hk])]
      · rw [List.erase_cons_tail (by simpa using he), except_cons, except_cons, ih]

/-- Replacing an entry by one of the same key leaves the others alone. -/
theorem except_set {i : Nat} {m' : M} (hi : l[i]? = some m) (hm : T.key m = k)
    (hm' : T.key m' = k) : T.except [k] (l.set i m') = T.except [k] l := by
  induction l generalizing i with
  | nil => rfl
  | cons x l ih =>
      cases i with
      | zero =>
          obtain rfl := Option.some.inj hi
          rw [List.set_cons_zero, except_cons, except_cons, if_pos (by simp [hm']),
            if_pos (by simp [hm])]
      | succ i => rw [List.set_cons_succ, except_cons, except_cons, ih (by simpa using hi)]

theorem map_revise_of_notMem {x : E} (h : k ∉ T.keys l) : l.map (T.revise k x) = l := by
  refine (List.map_congr_left fun m hm => ?_).trans (List.map_id l)
  have hne : T.key m ≠ k := fun he => h (he ▸ mem_keys hm)
  rw [revise, if_neg hne, id]

/-- Where keys are distinct, an edit replaces one position. -/
theorem map_revise_eq_set {i : Nat} {x : E} (h : (T.keys l).Nodup) (hi : l[i]? = some m) :
    l.map (T.revise (T.key m) x) = l.set i (T.edit m x) := by
  induction l generalizing i with
  | nil => cases hi
  | cons y l ih =>
      obtain ⟨hy, hl⟩ := List.nodup_cons.mp h
      cases i with
      | zero =>
          obtain rfl := Option.some.inj hi
          rw [List.map_cons, List.set_cons_zero, map_revise_of_notMem hy, revise, if_pos rfl]
      | succ i =>
          have hi' : l[i]? = some m := by simpa using hi
          have hne : T.key y ≠ T.key m := fun he =>
            hy (he ▸ mem_keys (List.mem_of_getElem? hi'))
          rw [List.map_cons, List.set_cons_succ, ih hl hi', revise, if_neg hne]

end Lists

end Entries

namespace EditLog

open Entries

variable {M K E : Type}

def empty : EditLog M K E := ⟨[], [], fun _ => none⟩

def push (l : EditLog M K E) (m : M) : EditLog M K E := { l with pushed := l.pushed ++ [m] }

def drop (l : EditLog M K E) (ks : List K) : EditLog M K E := { l with gone := l.gone ++ ks }

variable (T : Entries M K E)

def latest (l : EditLog M K E) (m : M) : M := (l.edits (T.key m)).elim m (T.edit m)

/-- Only what was pushed is gone or edited. -/
structure Wf (l : EditLog M K E) : Prop where
  nodup : (T.keys l.pushed).Nodup
  gone : ∀ k ∈ l.gone, k ∈ T.keys l.pushed
  edits : ∀ k, (l.edits k).isSome = true → k ∈ T.keys l.pushed

section Wf

variable {T} {l : EditLog M K E} {m : M} {x : E}

theorem wf_empty : (empty : EditLog M K E).Wf T :=
  ⟨.nil, fun _ h => (List.not_mem_nil h).elim, fun _ h => (Bool.false_ne_true h).elim⟩

@[simp] theorem key_latest : T.key (l.latest T m) = T.key m := by
  unfold latest
  cases l.edits (T.key m) with
  | none => rfl
  | some x => exact T.key_edit m x

theorem edit_latest : T.edit (l.latest T m) x = T.edit m x := by
  unfold latest
  cases l.edits (T.key m) with
  | none => rfl
  | some y => exact T.edit_edit m y x

theorem Wf.push (h : l.Wf T) (hfresh : T.key m ∉ T.keys l.pushed) : (l.push m).Wf T where
  nodup := by
    rw [EditLog.push, keys_append]
    refine List.nodup_append.mpr ⟨h.nodup, by simp [keys], ?_⟩
    rintro k hk k' hk' rfl
    obtain rfl : k = T.key m := by simpa [keys] using hk'
    exact hfresh hk
  gone k hk := by
    rw [EditLog.push, keys_append]
    exact List.mem_append_left _ (h.gone k hk)
  edits k hk := by
    rw [EditLog.push, keys_append]
    exact List.mem_append_left _ (h.edits k hk)

theorem Wf.drop {ks : List K} (h : l.Wf T) (hks : ∀ k ∈ ks, k ∈ T.keys l.pushed) :
    (l.drop ks).Wf T where
  nodup := h.nodup
  gone k hk := (List.mem_append.mp hk).elim (h.gone k) (hks k)
  edits := h.edits

end Wf

/-! ## The list of a log -/

variable [DecidableEq K]

def amend (l : EditLog M K E) (k : K) (x : E) : EditLog M K E :=
  { l with edits := Function.update l.edits k (some x) }

/-- What was pushed and is not gone, in order, as last edited. -/
def expected (l : EditLog M K E) : List M := (T.except l.gone l.pushed).map (l.latest T)

variable {T} {l : EditLog M K E} {m : M} {k : K} {x : E}

theorem keys_expected : T.keys (l.expected T) = T.keys (T.except l.gone l.pushed) := by
  rw [keys, expected, List.map_map]
  exact List.map_congr_left fun m _ => key_latest

theorem nodup_expected (h : l.Wf T) : (T.keys (l.expected T)).Nodup := by
  rw [keys_expected]
  exact nodup_keys_sublist h.nodup List.filter_sublist

theorem mem_expected (h : m ∈ l.expected T) : ∃ p ∈ l.pushed, m = l.latest T p := by
  obtain ⟨p, hp, rfl⟩ := List.mem_map.mp h
  exact ⟨p, (List.mem_filter.mp hp).1, rfl⟩

theorem key_mem_pushed (h : m ∈ l.expected T) : T.key m ∈ T.keys l.pushed := by
  obtain ⟨p, hp, rfl⟩ := mem_expected h
  rw [key_latest]
  exact mem_keys hp

theorem expected_push (h : l.Wf T) (hfresh : T.key m ∉ T.keys l.pushed) :
    (l.push m).expected T = l.expected T ++ [m] := by
  have hgone : T.key m ∉ l.gone := fun hk => hfresh (h.gone _ hk)
  have hedits : l.edits (T.key m) = none := by
    rw [← Option.not_isSome_iff_eq_none]
    exact fun hs => hfresh (h.edits _ hs)
  have hlast : T.except l.gone [m] = [m] := by simp [except, hgone]
  rw [expected, EditLog.push, except_append_left, hlast, List.map_append]
  simp only [List.map_cons, List.map_nil, latest, hedits]
  rfl

theorem expected_drop (ks : List K) :
    (l.drop ks).expected T = T.except ks (l.expected T) := by
  have hcomp : (fun m => decide (T.key m ∉ ks)) ∘ l.latest T = fun m => decide (T.key m ∉ ks) := by
    funext m
    simp
  simp only [expected, EditLog.drop, except, List.filter_map, List.filter_filter, hcomp]
  refine congrArg (List.map _) (List.filter_congr fun m _ => ?_)
  rw [Bool.eq_iff_iff]
  simp only [List.mem_append, not_or, decide_eq_true_eq, Bool.and_eq_true]
  exact and_comm

theorem Wf.amend (h : l.Wf T) (hk : k ∈ T.keys l.pushed) : (l.amend k x).Wf T where
  nodup := h.nodup
  gone := h.gone
  edits k' hk' := by
    by_cases he : k' = k
    · exact he ▸ hk
    · refine h.edits k' ?_
      simpa only [EditLog.amend, Function.update_of_ne he] using hk'

theorem expected_amend : (l.amend k x).expected T = (l.expected T).map (T.revise k x) := by
  rw [expected, expected, List.map_map]
  refine List.map_congr_left fun m _ => ?_
  rw [Function.comp_apply, revise, key_latest]
  by_cases he : T.key m = k
  · rw [if_pos he, edit_latest]
    simp [latest, EditLog.amend, he]
  · rw [if_neg he]
    simp [latest, EditLog.amend, he]

end EditLog

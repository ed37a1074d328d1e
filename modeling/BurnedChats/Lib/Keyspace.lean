import Mathlib.Logic.Function.Basic

/-!
# Keys with a time to live

The part of a key-value server the requests see: every key holds at most one
value and may carry a deadline. A key whose deadline has passed is missing to
every command, whether or not the server has removed it yet, so time only
enters through `now`; nothing has to be said about the moment of removal. A
key is live up to and including its deadline.
-/

/-- A stored value and the last moment it is seen at, if there is one. -/
structure Entry (V : Type) where
  value : V
  deadline : Option Nat

def Entry.live {V : Type} (e : Entry V) (now : Nat) : Bool :=
  match e.deadline with
  | none => true
  | some d => now ≤ d

abbrev Keyspace (K V : Type) := K → Option (Entry V)

namespace Keyspace

variable {K V : Type}

def empty : Keyspace K V := fun _ => none

/-- The live entry of a key. -/
def find? (ks : Keyspace K V) (now : Nat) (k : K) : Option (Entry V) :=
  (ks k).filter (·.live now)

/-- What a read of the key returns. -/
def get? (ks : Keyspace K V) (now : Nat) (k : K) : Option V :=
  (ks.find? now k).map (·.value)

def has (ks : Keyspace K V) (now : Nat) (k : K) : Bool :=
  (ks.find? now k).isSome

theorem find?_eq_some {ks : Keyspace K V} {now : Nat} {k : K} {e : Entry V} :
    ks.find? now k = some e ↔ ks k = some e ∧ e.live now = true := by
  simp [find?, Option.filter_eq_some_iff]

theorem find?_of_none {ks : Keyspace K V} {now : Nat} {k : K} (h : ks k = none) :
    ks.find? now k = none := by
  simp [find?, h]

/-- What is seen later was seen before. -/
theorem find?_earlier {ks : Keyspace K V} {now now' : Nat} {k : K} {e : Entry V}
    (hle : now ≤ now') (h : ks.find? now' k = some e) : ks.find? now k = some e := by
  obtain ⟨he, hlive⟩ := find?_eq_some.mp h
  refine find?_eq_some.mpr ⟨he, ?_⟩
  cases hd : e.deadline with
  | none => simp [Entry.live, hd]
  | some d =>
      simp only [Entry.live, hd, decide_eq_true_eq] at hlive ⊢
      omega

variable [DecidableEq K]

def put (ks : Keyspace K V) (k : K) (e : Entry V) : Keyspace K V :=
  Function.update ks k (some e)

def del (ks : Keyspace K V) (k : K) : Keyspace K V :=
  Function.update ks k none

/-- A command on the value alone: it keeps the deadline of a live key and
creates a missing one without any. -/
def alter (ks : Keyspace K V) (now : Nat) (k : K) (f : Option V → V) : Keyspace K V :=
  match ks.find? now k with
  | some e => ks.put k { e with value := f (some e.value) }
  | none => ks.put k ⟨f none, none⟩

/-- `EXPIRE`: a missing key stays missing. -/
def expire (ks : Keyspace K V) (now ttl : Nat) (k : K) : Keyspace K V :=
  match ks.find? now k with
  | some e => ks.put k { e with deadline := some (now + ttl) }
  | none => ks

@[simp] theorem put_same (ks : Keyspace K V) (k : K) (e : Entry V) : ks.put k e k = some e := by
  simp [put]

theorem put_other {ks : Keyspace K V} {k k' : K} (e : Entry V) (h : k' ≠ k) :
    ks.put k e k' = ks k' := by
  simp [put, h]

theorem put_put (ks : Keyspace K V) (k : K) (e e' : Entry V) :
    (ks.put k e).put k e' = ks.put k e' :=
  Function.update_idem ..

@[simp] theorem del_same (ks : Keyspace K V) (k : K) : ks.del k k = none := by
  simp [del]

theorem del_other {ks : Keyspace K V} {k k' : K} (h : k' ≠ k) : ks.del k k' = ks k' := by
  simp [del, h]

theorem find?_put {ks : Keyspace K V} {now : Nat} {k : K} {e : Entry V}
    (h : e.live now = true) : (ks.put k e).find? now k = some e :=
  find?_eq_some.mpr ⟨put_same .., h⟩

theorem find?_put_other {ks : Keyspace K V} {now : Nat} {k k' : K} {e : Entry V} (h : k' ≠ k) :
    (ks.put k e).find? now k' = ks.find? now k' := by
  simp [find?, put_other e h]

@[simp] theorem find?_del_same (ks : Keyspace K V) (now : Nat) (k : K) :
    (ks.del k).find? now k = none := by
  simp [find?]

theorem find?_del_other {ks : Keyspace K V} {now : Nat} {k k' : K} (h : k' ≠ k) :
    (ks.del k).find? now k' = ks.find? now k' := by
  simp [find?, del_other h]

/-- A value that is written and then given a time to live. -/
theorem expire_alter (ks : Keyspace K V) (now ttl : Nat) (k : K) (f : Option V → V) :
    (ks.alter now k f).expire now ttl k = ks.put k ⟨f (ks.get? now k), some (now + ttl)⟩ := by
  unfold alter get?
  cases h : ks.find? now k with
  | none =>
      have hlive : (⟨f none, none⟩ : Entry V).live now = true := rfl
      simp [expire, find?_put hlive, put_put]
  | some e =>
      have hlive : (⟨f (some e.value), e.deadline⟩ : Entry V).live now = true :=
        (find?_eq_some.mp h).2
      simp [expire, find?_put hlive, put_put]

theorem alter_eq_some {ks : Keyspace K V} {now : Nat} {k : K} {f : Option V → V} {e' : Entry V}
    (h : ks.alter now k f k = some e') :
    (ks.find? now k = none ∧ e' = ⟨f none, none⟩)
      ∨ ∃ e, ks.find? now k = some e ∧ e' = ⟨f (some e.value), e.deadline⟩ := by
  unfold alter at h
  cases he : ks.find? now k with
  | none =>
      simp only [he, put_same, Option.some.injEq] at h
      exact .inl ⟨rfl, h.symm⟩
  | some e =>
      simp only [he, put_same, Option.some.injEq] at h
      exact .inr ⟨e, rfl, h.symm⟩

theorem expire_eq_some {ks : Keyspace K V} {now ttl : Nat} {k : K} {e' : Entry V}
    (h : ks.expire now ttl k k = some e') :
    (ks.find? now k = none ∧ ks k = some e')
      ∨ ∃ e, ks.find? now k = some e ∧ e' = ⟨e.value, some (now + ttl)⟩ := by
  unfold expire at h
  cases he : ks.find? now k with
  | none =>
      simp only [he] at h
      exact .inl ⟨rfl, h⟩
  | some e =>
      simp only [he, put_same, Option.some.injEq] at h
      exact .inr ⟨e, rfl, h.symm⟩

theorem alter_other {ks : Keyspace K V} {k k' : K} (now : Nat) (f : Option V → V) (h : k' ≠ k) :
    ks.alter now k f k' = ks k' := by
  unfold alter
  cases ks.find? now k with
  | none => exact put_other _ h
  | some e => exact put_other _ h

theorem expire_other {ks : Keyspace K V} {k k' : K} (now ttl : Nat) (h : k' ≠ k) :
    ks.expire now ttl k k' = ks k' := by
  unfold expire
  cases ks.find? now k with
  | none => rfl
  | some e => exact put_other _ h

end Keyspace

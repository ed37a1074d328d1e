import Mathlib.Algebra.Ring.Nat
import Mathlib.Data.List.Basic
import Mathlib.Tactic.Cases

/-!
# Reading and writing byte buffers

A reader returns, next to its result, the spans of the buffer that it has
read, in their order. A reader that scans a buffer reads each byte at most
once and none out of order: its spans follow each other from where it began
(`Reading.Scans`), so what it has read when it ends is a piece of the buffer
without gaps. The rules below carry this through a computation step by step;
`result` alone is compositional too, so that what a reader returns is computed
without its spans.

A writer fills a zeroed array at offsets (`setAt`), and fails when the bytes
do not fit.
-/

namespace Buffer

abbrev Bytes := List UInt8

/-! ## Spans -/

/-- The bytes from `start` on and before `stop`. -/
structure Span where
  start : Nat
  stop : Nat
  deriving DecidableEq, Repr

/-- The spans follow each other from `a` to `b`. -/
def Tiles : Nat → Nat → List Span → Prop
  | a, b, [] => a = b
  | a, b, span :: spans => span.start = a ∧ a ≤ span.stop ∧ Tiles span.stop b spans

theorem Tiles.append {xs ys : List Span} {a b c : Nat} (hx : Tiles a b xs) (hy : Tiles b c ys) :
    Tiles a c (xs ++ ys) := by
  induction xs generalizing a with
  | nil => exact hx ▸ hy
  | cons span xs ih => exact ⟨hx.1, hx.2.1, ih hx.2.2⟩

theorem Tiles.le {spans : List Span} {a b : Nat} (h : Tiles a b spans) : a ≤ b := by
  induction spans generalizing a with
  | nil => exact Nat.le_of_eq h
  | cons span spans ih => exact Nat.le_trans h.2.1 (ih h.2.2)

/-- Every span lies between the two ends. -/
theorem Tiles.within {spans : List Span} {a b : Nat} (h : Tiles a b spans) {span : Span}
    (hmem : span ∈ spans) : a ≤ span.start ∧ span.start ≤ span.stop ∧ span.stop ≤ b := by
  induction spans generalizing a with
  | nil => cases hmem
  | cons s spans ih =>
      obtain ⟨rfl, hle, hrest⟩ := h
      rcases List.mem_cons.mp hmem with rfl | hmem
      · exact ⟨Nat.le_refl _, hle, hrest.le⟩
      · obtain ⟨h₁, h₂⟩ := ih hrest hmem
        exact ⟨Nat.le_trans hle h₁, h₂⟩

/-! ## Readers -/

/-- What a computation has read, in order, and how it ended. -/
structure Reading (ε α : Type) where
  reads : List Span
  result : Except ε α

namespace Reading

variable {ε α β : Type}

instance : Monad (Reading ε) where
  pure x := ⟨[], .ok x⟩
  bind p f :=
    match p.result with
    | .ok x => ⟨p.reads ++ (f x).reads, (f x).result⟩
    | .error e => ⟨p.reads, .error e⟩

/-- A step that reads nothing. -/
def lift (r : Except ε α) : Reading ε α := ⟨[], r⟩

def raise (e : ε) : Reading ε α := lift (.error e)

/-- A copy of the bytes of a span. -/
def slice (bytes : Bytes) (start stop : Nat) : Reading ε Bytes :=
  ⟨[⟨start, stop⟩], .ok (bytes.extract start stop)⟩

def byteAt (bytes : Bytes) (i : Fin bytes.length) : Reading ε UInt8 :=
  ⟨[⟨i, i + 1⟩], .ok (bytes.get i)⟩

/-- The number that four bytes write, the highest byte first. -/
def ofBigEndian (bytes : Bytes) : Nat := bytes.foldl (fun n b => n * 256 + b.toNat) 0

/-- The 32-bit number at an offset; `e` when the buffer ends before it. -/
def getUint32 (e : ε) (bytes : Bytes) (offset : Nat) : Reading ε Nat :=
  if offset + 4 ≤ bytes.length then
    ⟨[⟨offset, offset + 4⟩], .ok (ofBigEndian (bytes.extract offset (offset + 4)))⟩
  else raise e

@[simp] theorem result_pure (x : α) : (pure x : Reading ε α).result = .ok x := rfl

@[simp] theorem result_bind (p : Reading ε α) (f : α → Reading ε β) :
    (p >>= f).result = p.result.bind fun x => (f x).result := by
  obtain ⟨reads, result⟩ := p
  cases result <;> rfl

@[simp] theorem result_lift (r : Except ε α) : (lift r).result = r := rfl

@[simp] theorem result_raise (e : ε) : (raise e : Reading ε α).result = .error e := rfl

@[simp] theorem result_slice (bytes : Bytes) (start stop : Nat) :
    (slice bytes start stop : Reading ε Bytes).result = .ok (bytes.extract start stop) := rfl

@[simp] theorem result_byteAt (bytes : Bytes) (i : Fin bytes.length) :
    (byteAt bytes i : Reading ε UInt8).result = .ok (bytes.get i) := rfl

@[simp] theorem result_ite (c : Prop) [Decidable c] (p q : Reading ε α) :
    (if c then p else q).result = if c then p.result else q.result := by
  split <;> rfl

theorem result_getUint32 {e : ε} {bytes : Bytes} {offset : Nat} :
    (getUint32 e bytes offset).result = if offset + 4 ≤ bytes.length
      then .ok (ofBigEndian (bytes.extract offset (offset + 4))) else .error e := by
  rw [getUint32, result_ite, result_raise]

/-! ## Scanning -/

/-- The reader reads on from `a`, without gaps and within `n` bytes; where it
returns, `Q` holds of what it returns and how far it has read. -/
def Scans (n a : Nat) (p : Reading ε α) (Q : α → Nat → Prop) : Prop :=
  ∃ b, b ≤ n ∧ Tiles a b p.reads ∧ ∀ x, p.result = .ok x → Q x b

variable {n a : Nat} {Q : α → Nat → Prop}

theorem scans_pure {x : α} (ha : a ≤ n) (h : Q x a) : Scans n a (pure x : Reading ε α) Q :=
  ⟨a, ha, rfl, fun _ hx => Except.ok.inj hx ▸ h⟩

theorem scans_lift {r : Except ε α} (ha : a ≤ n) (h : ∀ x, r = .ok x → Q x a) :
    Scans n a (lift r) Q :=
  ⟨a, ha, rfl, h⟩

theorem scans_raise {e : ε} (ha : a ≤ n) : Scans n a (raise e : Reading ε α) Q :=
  scans_lift ha fun _ h => by cases h

theorem Scans.mono {p : Reading ε α} {Q' : α → Nat → Prop} (h : Scans n a p Q)
    (hQ : ∀ x b, Q x b → Q' x b) : Scans n a p Q' := by
  obtain ⟨b, hb, htiles, hret⟩ := h
  exact ⟨b, hb, htiles, fun x hx => hQ x b (hret x hx)⟩

theorem scans_bind {p : Reading ε α} {f : α → Reading ε β} {Q : β → Nat → Prop}
    (h : Scans n a p fun x b => Scans n b (f x) Q) : Scans n a (p >>= f) Q := by
  obtain ⟨reads, result⟩ := p
  obtain ⟨b, hb, htiles, hnext⟩ := h
  cases result with
  | error e => exact ⟨b, hb, htiles, fun _ hx => by cases hx⟩
  | ok x =>
      obtain ⟨c, hc, hrest, hQ⟩ := hnext x rfl
      exact ⟨c, hc, htiles.append hrest, hQ⟩

/-- A check that raises before the reader goes on. -/
theorem scans_check {c : Prop} [Decidable c] {e : ε} {p : Reading ε α} (ha : a ≤ n)
    (h : ¬ c → Scans n a p Q) : Scans n a (if c then raise e else p) Q := by
  split
  · exact scans_raise ha
  · next hc => exact h hc

theorem scans_slice {bytes : Bytes} {b : Nat} {Q : Bytes → Nat → Prop} (hab : a ≤ b) (hb : b ≤ n)
    (h : Q (bytes.extract a b) b) : Scans n a (slice bytes a b : Reading ε Bytes) Q :=
  ⟨b, hb, ⟨rfl, hab, rfl⟩, fun _ hx => Except.ok.inj hx ▸ h⟩

theorem scans_byteAt {bytes : Bytes} {i : Fin bytes.length} {Q : UInt8 → Nat → Prop}
    (hi : i < n) (h : Q (bytes.get i) (i + 1)) :
    Scans n i (byteAt bytes i : Reading ε UInt8) Q :=
  ⟨i + 1, hi, ⟨rfl, Nat.le_succ _, rfl⟩, fun _ hx => Except.ok.inj hx ▸ h⟩

theorem scans_getUint32 {bytes : Bytes} {e : ε} {Q : Nat → Nat → Prop} (ha : a ≤ bytes.length)
    (h : ∀ x, a + 4 ≤ bytes.length → Q x (a + 4)) :
    Scans bytes.length a (getUint32 e bytes a) Q := by
  unfold getUint32
  split
  · next hle => exact ⟨a + 4, hle, ⟨rfl, Nat.le_add_right .., rfl⟩, fun _ hx => h _ hle⟩
  · exact scans_raise ha

end Reading

/-! ## Numbers in four bytes -/

/-- A number modulo `2 ^ 32` in four bytes, the highest first. -/
def bigEndian (n : Nat) : Bytes :=
  [.ofNat (n / 2 ^ 24), .ofNat (n / 2 ^ 16), .ofNat (n / 2 ^ 8), .ofNat n]

@[simp] theorem length_bigEndian (n : Nat) : (bigEndian n).length = 4 := rfl

@[simp] theorem ofBigEndian_bigEndian (n : Nat) :
    Reading.ofBigEndian (bigEndian n) = n % 2 ^ 32 := by
  simp only [Reading.ofBigEndian, bigEndian, List.foldl_cons, List.foldl_nil, UInt8.toNat_ofNat']
  omega

theorem bigEndian_ofBigEndian {bytes : Bytes} (h : bytes.length = 4) :
    bigEndian (Reading.ofBigEndian bytes) = bytes := by
  obtain ⟨w, x, y, z, rfl⟩ : ∃ w x y z, bytes = [w, x, y, z] := by
    match bytes, h with
    | [w, x, y, z], _ => exact ⟨w, x, y, z, rfl⟩
  have hw := w.toNat_lt
  have hx := x.toNat_lt
  have hy := y.toNat_lt
  have hz := z.toNat_lt
  simp only [Reading.ofBigEndian, bigEndian, List.foldl_cons, List.foldl_nil, List.cons.injEq,
    and_true, ← UInt8.toNat_inj, UInt8.toNat_ofNat']
  omega

theorem ofBigEndian_lt {bytes : Bytes} (h : bytes.length = 4) :
    Reading.ofBigEndian bytes < 2 ^ 32 := by
  have hmod := ofBigEndian_bigEndian (Reading.ofBigEndian bytes)
  rw [bigEndian_ofBigEndian h] at hmod
  omega

/-! ## Writing at offsets -/

/-- Copies bytes into an array at an offset; none when they do not fit. -/
def setAt (target source : Bytes) (offset : Nat) : Option Bytes :=
  if offset + source.length ≤ target.length then
    some (target.take offset ++ source ++ target.drop (offset + source.length))
  else none

/-- What is written behind a written prefix. -/
theorem setAt_append (done source rest : Bytes) :
    setAt (done ++ (List.replicate source.length 0 ++ rest)) source done.length
      = some (done ++ source ++ rest) := by
  rw [setAt, if_pos (by simp), List.take_left' rfl, ← List.drop_drop, List.drop_left' rfl,
    List.drop_left' (by simp)]

end Buffer

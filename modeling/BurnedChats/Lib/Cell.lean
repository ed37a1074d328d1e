import Mathlib.Data.Nat.Bits
import Mathlib.Data.Nat.Size
import Mathlib.Tactic.Ring
import Mathlib.Algebra.Order.Ring.Nat

/-!
# Cells

The platform's data format: a cell is a string of bits with references to
further cells. It is written through a builder and read through a slice; both
hold bits and references, so one type (`Slice`) serves for the two.

Reading follows the platform's primitives, errors included: an underflow, or an
address that is not a standard one on the base or the master chain, throws.
Writing checks ranges. The capacity of a cell (1023 bits, 4 references) is not a
limit here: what is written in this development either has a fixed small size
or exactly the size of a cell that was read.

The lemmas are round trips: reading what was just written gives it back and
leaves the rest of the slice.
-/

inductive Cell where
  | mk (bits : List Bool) (refs : List Cell)

/-- What is left to read of a cell, or what has been written of one. -/
structure Slice where
  bits : List Bool
  refs : List Cell

/-- The two chains accounts live on (ids 0 and -1). -/
inductive Workchain where
  | basechain
  | masterchain
  deriving DecidableEq, Repr

/-- Account addresses: a workchain and an account hash. -/
structure Address where
  workchain : Workchain
  hash : Nat
  deriving DecidableEq, Repr

namespace Cell

def bits : Cell → List Bool
  | .mk b _ => b

def refs : Cell → List Cell
  | .mk _ r => r

def beginParse (c : Cell) : Slice := ⟨c.bits, c.refs⟩

/-- The cell without bits and references. -/
def empty : Cell := .mk [] []

end Cell

/-! ## Numbers as bit strings -/

/-- The low `w` bits of `n`, most significant first. -/
def natToBits : Nat → Nat → List Bool
  | 0, _ => []
  | w + 1, n => n.testBit w :: natToBits w n

def bitsToNat (l : List Bool) : Nat := l.foldl (fun a b => 2 * a + b.toNat) 0

@[simp] theorem natToBits_length (w n : Nat) : (natToBits w n).length = w := by
  induction w with
  | zero => rfl
  | succ w ih => rw [natToBits, List.length_cons, ih]

theorem foldl_bits (l : List Bool) (a : Nat) :
    l.foldl (fun a b => 2 * a + b.toNat) a = a * 2 ^ l.length + bitsToNat l := by
  unfold bitsToNat
  induction l generalizing a with
  | nil => simp
  | cons b l ih =>
      rw [List.foldl_cons, List.foldl_cons, ih, ih (2 * 0 + b.toNat), List.length_cons, pow_succ]
      ring

theorem bitsToNat_cons (b : Bool) (l : List Bool) :
    bitsToNat (b :: l) = b.toNat * 2 ^ l.length + bitsToNat l := by
  rw [bitsToNat, List.foldl_cons, foldl_bits, Nat.mul_zero, Nat.zero_add]

theorem bitsToNat_natToBits_mod (w n : Nat) : bitsToNat (natToBits w n) = n % 2 ^ w := by
  induction w with
  | zero => simp [natToBits, bitsToNat, Nat.mod_one]
  | succ w ih =>
      rw [natToBits, bitsToNat_cons, natToBits_length, ih, Nat.mod_pow_succ,
        Nat.testBit_eq_decide_div_mod_eq]
      rcases Nat.mod_two_eq_zero_or_one (n / 2 ^ w) with h | h <;> simp [h]
      ring

theorem bitsToNat_natToBits {w n : Nat} (h : n < 2 ^ w) : bitsToNat (natToBits w n) = n := by
  rw [bitsToNat_natToBits_mod, Nat.mod_eq_of_lt h]

theorem bitsToNat_lt (l : List Bool) : bitsToNat l < 2 ^ l.length := by
  induction l with
  | nil => simp [bitsToNat]
  | cons b l ih =>
      have hb : b.toNat ≤ 1 := Bool.toNat_le b
      have hm := Nat.mul_le_mul_right (2 ^ l.length) hb
      rw [bitsToNat_cons, List.length_cons, pow_succ]
      omega

/-- The bits of a number are determined by it and their length. -/
theorem natToBits_bitsToNat (l : List Bool) : natToBits l.length (bitsToNat l) = l := by
  have key : ∀ l l' : List Bool, l.length = l'.length → bitsToNat l = bitsToNat l' → l = l' := by
    intro l
    induction l with
    | nil => intro l' hl _; exact (List.eq_nil_of_length_eq_zero hl.symm).symm
    | cons b l ih =>
        intro l' hl hn
        cases l' with
        | nil => cases hl
        | cons b' l' =>
            have hl' : l.length = l'.length := Nat.succ.inj hl
            rw [bitsToNat_cons, bitsToNat_cons, hl'] at hn
            have h1 := bitsToNat_lt l
            have h2 := bitsToNat_lt l'
            rw [hl'] at h1
            have hb : b = b' := by
              cases b <;> cases b' <;> simp at hn ⊢ <;> omega
            subst hb
            rw [ih l' hl' (by omega)]
  exact key _ _ (natToBits_length _ _) (bitsToNat_natToBits (bitsToNat_lt l))

namespace Slice

/-! ## Reading -/

def loadBits (s : Slice) (n : Nat) : Except String (List Bool × Slice) :=
  if n ≤ s.bits.length then .ok (s.bits.take n, ⟨s.bits.drop n, s.refs⟩)
  else .error "Cell underflow"

def loadUint (s : Slice) (w : Nat) : Except String (Nat × Slice) := do
  let (b, s) ← s.loadBits w
  .ok (bitsToNat b, s)

/-- Reading without advancing. -/
def preloadUint (s : Slice) (w : Nat) : Except String Nat := do
  let (n, _) ← s.loadUint w
  .ok n

def skipBits (s : Slice) (n : Nat) : Except String Slice := do
  let (_, s) ← s.loadBits n
  .ok s

def loadBit (s : Slice) : Except String (Bool × Slice) :=
  match s.bits with
  | [] => .error "Cell underflow"
  | b :: l => .ok (b, ⟨l, s.refs⟩)

/-- A variable-length amount: four bits of byte count, then that many bytes. -/
def loadCoins (s : Slice) : Except String (Nat × Slice) := do
  let (l, s) ← s.loadUint 4
  s.loadUint (8 * l)

def loadRef (s : Slice) : Except String (Cell × Slice) :=
  match s.refs with
  | [] => .error "Cell underflow"
  | c :: r => .ok (c, ⟨s.bits, r⟩)

/-- The eleven leading bits of a standard address of the base chain and of the
master chain. -/
def basechainTag : List Bool :=
  [true, false, false, false, false, false, false, false, false, false, false]

def masterchainTag : List Bool :=
  [true, false, false, true, true, true, true, true, true, true, true]

def loadAddress (s : Slice) : Except String (Address × Slice) := do
  let (tag, s) ← s.loadBits 11
  let (h, s) ← s.loadUint 256
  if tag = basechainTag then .ok (⟨.basechain, h⟩, s)
  else if tag = masterchainTag then .ok (⟨.masterchain, h⟩, s)
  else .error "Invalid standard address"

/-! ## Writing -/

def empty : Slice := ⟨[], []⟩

def storeBits (b : Slice) (l : List Bool) : Slice := ⟨b.bits ++ l, b.refs⟩

def storeBit (b : Slice) (x : Bool) : Slice := b.storeBits [x]

def storeUint (b : Slice) (n : Int) (w : Nat) : Except String Slice :=
  if 0 ≤ n ∧ n < 2 ^ w then .ok (b.storeBits (natToBits w n.toNat))
  else .error "Integer out of expected range"

/-- The number of bytes an amount takes. -/
def coinBytes (n : Nat) : Nat := (Nat.size n + 7) / 8

def coinBits (n : Nat) : List Bool :=
  natToBits 4 (coinBytes n) ++ natToBits (8 * coinBytes n) n

def storeCoins (b : Slice) (n : Nat) : Except String Slice :=
  if n < 2 ^ 120 then .ok (b.storeBits (coinBits n)) else .error "Integer out of expected range"

def chainTag : Workchain → List Bool
  | .basechain => basechainTag
  | .masterchain => masterchainTag

def addressBits (a : Address) : List Bool := chainTag a.workchain ++ natToBits 256 a.hash

def storeAddress (b : Slice) (a : Address) : Slice := b.storeBits (addressBits a)

def storeRef (b : Slice) (c : Cell) : Slice := ⟨b.bits, b.refs ++ [c]⟩

def storeSlice (b s : Slice) : Slice := ⟨b.bits ++ s.bits, b.refs ++ s.refs⟩

def endCell (b : Slice) : Cell := .mk b.bits b.refs

end Slice

/-- Addresses that fit a cell: the hash has 256 bits. -/
def Address.Standard (a : Address) : Prop := a.hash < 2 ^ 256

instance (a : Address) : Decidable a.Standard := inferInstanceAs (Decidable (_ < _))

/-- What a cell keeps of an address. -/
def Address.wrap (a : Address) : Address := ⟨a.workchain, a.hash % 2 ^ 256⟩

theorem Address.wrap_of_standard {a : Address} (h : a.Standard) : a.wrap = a := by
  rw [Address.wrap, Nat.mod_eq_of_lt h]

namespace Slice

/-! ## Round trips -/

theorem loadBits_append (l rest : List Bool) (r : List Cell) :
    (Slice.mk (l ++ rest) r).loadBits l.length = .ok (l, ⟨rest, r⟩) := by
  simp [loadBits]

theorem loadUint_append_mod (n w : Nat) (rest : List Bool) (r : List Cell) :
    (Slice.mk (natToBits w n ++ rest) r).loadUint w = .ok (n % 2 ^ w, ⟨rest, r⟩) := by
  have hb := loadBits_append (natToBits w n) rest r
  rw [natToBits_length] at hb
  simp only [loadUint, hb, Bind.bind, Except.bind, bitsToNat_natToBits_mod]

theorem loadUint_append {n w : Nat} (h : n < 2 ^ w) (rest : List Bool) (r : List Cell) :
    (Slice.mk (natToBits w n ++ rest) r).loadUint w = .ok (n, ⟨rest, r⟩) := by
  rw [loadUint_append_mod, Nat.mod_eq_of_lt h]

/-- The end of a slice, where nothing follows. -/
theorem loadUint_self {n w : Nat} (h : n < 2 ^ w) (r : List Cell) :
    (Slice.mk (natToBits w n) r).loadUint w = .ok (n, ⟨[], r⟩) := by
  simpa using loadUint_append h [] r

@[simp] theorem loadBit_cons (b : Bool) (l : List Bool) (r : List Cell) :
    (Slice.mk (b :: l) r).loadBit = .ok (b, ⟨l, r⟩) := rfl

@[simp] theorem loadRef_cons (l : List Bool) (c : Cell) (r : List Cell) :
    (Slice.mk l (c :: r)).loadRef = .ok (c, ⟨l, r⟩) := rfl

theorem storeUint_eq_ok {b b' : Slice} {n : Int} {w : Nat} :
    b.storeUint n w = .ok b' ↔ 0 ≤ n ∧ n < 2 ^ w ∧ b' = b.storeBits (natToBits w n.toNat) := by
  unfold storeUint
  split
  · rename_i h
    simp only [Except.ok.injEq, h.1, h.2, true_and]
    exact eq_comm
  · rename_i h
    simp only [reduceCtorEq, false_iff, not_and]
    exact fun h0 h1 => absurd ⟨h0, h1⟩ h

theorem storeCoins_eq_ok {b b' : Slice} {n : Nat} :
    b.storeCoins n = .ok b' ↔ n < 2 ^ 120 ∧ b' = b.storeBits (coinBits n) := by
  unfold storeCoins
  split
  · rename_i h
    simp only [Except.ok.injEq, h, true_and]
    exact eq_comm
  · rename_i h
    simp only [reduceCtorEq, false_iff, not_and]
    exact fun h' => absurd h' h

theorem coinBytes_lt {n : Nat} (h : n < 2 ^ 120) : coinBytes n < 2 ^ 4 := by
  have := Nat.size_le.mpr h
  unfold coinBytes
  omega

theorem lt_pow_coinBytes (n : Nat) : n < 2 ^ (8 * coinBytes n) := by
  refine lt_of_lt_of_le (Nat.lt_size_self n) (Nat.pow_le_pow_right (by omega) ?_)
  unfold coinBytes
  omega

theorem loadCoins_append {n : Nat} (h : n < 2 ^ 120) (rest : List Bool) (r : List Cell) :
    (Slice.mk (coinBits n ++ rest) r).loadCoins = .ok (n, ⟨rest, r⟩) := by
  rw [coinBits, List.append_assoc, loadCoins, loadUint_append (coinBytes_lt h)]
  exact loadUint_append (lt_pow_coinBytes n) rest r

theorem loadCoins_self {n : Nat} (h : n < 2 ^ 120) (r : List Cell) :
    (Slice.mk (coinBits n) r).loadCoins = .ok (n, ⟨[], r⟩) := by
  simpa using loadCoins_append h [] r

theorem loadAddress_append (a : Address) (rest : List Bool) (r : List Cell) :
    (Slice.mk (addressBits a ++ rest) r).loadAddress = .ok (a.wrap, ⟨rest, r⟩) := by
  obtain ⟨wc, hash⟩ := a
  have hb := loadBits_append (chainTag wc) (natToBits 256 hash ++ rest) r
  have hl : (chainTag wc).length = 11 := by cases wc <;> rfl
  rw [hl] at hb
  simp only [addressBits, List.append_assoc, loadAddress, hb, Bind.bind, Except.bind,
    loadUint_append_mod, Address.wrap]
  cases wc with
  | basechain => simp [chainTag]
  | masterchain => simp [chainTag, basechainTag, masterchainTag]

theorem loadAddress_self (a : Address) (r : List Cell) :
    (Slice.mk (addressBits a) r).loadAddress = .ok (a.wrap, ⟨[], r⟩) := by
  simpa using loadAddress_append a [] r

/-! ## What was read -/

theorem loadBits_ok {s s' : Slice} {n : Nat} {l : List Bool} (h : s.loadBits n = .ok (l, s')) :
    s = ⟨l ++ s'.bits, s'.refs⟩ ∧ l.length = n := by
  unfold loadBits at h
  split at h
  · rename_i hn
    obtain ⟨rfl, rfl⟩ := Prod.mk.inj (Except.ok.inj h)
    refine ⟨?_, by simp [hn]⟩
    simp [List.take_append_drop]
  · cases h

theorem loadUint_ok {s s' : Slice} {n w : Nat} (h : s.loadUint w = .ok (n, s')) :
    s = ⟨natToBits w n ++ s'.bits, s'.refs⟩ ∧ n < 2 ^ w := by
  unfold loadUint at h
  cases hb : s.loadBits w with
  | error e => rw [hb] at h; cases h
  | ok r =>
      obtain ⟨l, s₁⟩ := r
      rw [hb] at h
      obtain ⟨rfl, rfl⟩ := Prod.mk.inj (Except.ok.inj h)
      obtain ⟨rfl, rfl⟩ := loadBits_ok hb
      exact ⟨by rw [natToBits_bitsToNat], bitsToNat_lt l⟩

theorem loadUint_eq_ok {s s' : Slice} {n w : Nat} :
    s.loadUint w = .ok (n, s')
      ↔ w ≤ s.bits.length ∧ n = bitsToNat (s.bits.take w) ∧ s' = ⟨s.bits.drop w, s.refs⟩ := by
  unfold loadUint loadBits
  by_cases h : w ≤ s.bits.length
  · simp only [h, if_true, Bind.bind, Except.bind, Except.ok.injEq, Prod.mk.injEq, true_and]
    exact ⟨fun ⟨h1, h2⟩ => ⟨h1.symm, h2.symm⟩, fun ⟨h1, h2⟩ => ⟨h1.symm, h2.symm⟩⟩
  · simp [h, Bind.bind, Except.bind]

theorem skipBits_eq_ok {s s' : Slice} {n : Nat} :
    s.skipBits n = .ok s' ↔ n ≤ s.bits.length ∧ s' = ⟨s.bits.drop n, s.refs⟩ := by
  unfold skipBits loadBits
  by_cases h : n ≤ s.bits.length
  · simp only [h, if_true, Bind.bind, Except.bind, Except.ok.injEq, true_and]
    exact eq_comm
  · simp [h, Bind.bind, Except.bind]

theorem loadAddress_standard {s s' : Slice} {a : Address} (h : s.loadAddress = .ok (a, s')) :
    a.Standard := by
  unfold loadAddress at h
  cases hb : s.loadBits 11 with
  | error e => rw [hb] at h; cases h
  | ok r =>
      obtain ⟨tag, s₁⟩ := r
      rw [hb] at h
      simp only [Bind.bind, Except.bind] at h
      cases hu : s₁.loadUint 256 with
      | error e => rw [hu] at h; cases h
      | ok r =>
          obtain ⟨n, s₂⟩ := r
          have hn := (loadUint_ok hu).2
          rw [hu] at h
          simp only at h
          split at h
          · obtain ⟨rfl, rfl⟩ := Prod.mk.inj (Except.ok.inj h)
            exact hn
          · split at h
            · obtain ⟨rfl, rfl⟩ := Prod.mk.inj (Except.ok.inj h)
              exact hn
            · cases h

theorem loadCoins_lt {s s' : Slice} {n : Nat} (h : s.loadCoins = .ok (n, s')) : n < 2 ^ 120 := by
  unfold loadCoins at h
  cases hu : s.loadUint 4 with
  | error e => rw [hu] at h; cases h
  | ok r =>
      obtain ⟨l, s₁⟩ := r
      have hl := (loadUint_ok hu).2
      rw [hu] at h
      have hn := (loadUint_ok (s := s₁) h).2
      exact lt_of_lt_of_le hn (Nat.pow_le_pow_right (by omega) (by omega))

end Slice

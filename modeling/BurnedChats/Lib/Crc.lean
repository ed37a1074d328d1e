import Mathlib.Data.BitVec
import BurnedChats.Lib.Cell

/-!
# Checksums by polynomial division

A cyclic checksum is a remainder of polynomials over the two-element field. `divide`
is the division as one does it by hand: the message's bits enter at the low end, and
whatever leaves at the high end is cancelled by the divisor; the checksum of a message
is the remainder after as many zero bits as the register has. Implementations that
work by the byte instead enter each byte at the high end and need no zeros at the end
(`bytewise`). Both give the same remainder (`bytewise_eq`), because a step of the
register is linear.
-/

namespace Crc

variable {w : Nat} (p : BitVec w)

/-- One step of the register: a shift, and the divisor where a one has left. -/
def shift (x : BitVec w) : BitVec w := if x.msb then (x <<< 1) ^^^ p else x <<< 1

def shifts : Nat → BitVec w → BitVec w
  | 0, x => x
  | n + 1, x => shifts n (shift p x)

/-- A bit as a register. -/
def bit (w : Nat) (b : Bool) : BitVec w := BitVec.ofNat w b.toNat

/-- The division: the bits enter at the low end. -/
def divide (r : BitVec w) (bits : List Bool) : BitVec w :=
  bits.foldl (fun r b => shift p r ^^^ bit w b) r

/-- The division by bytes: each enters at the high end. -/
def bytewise (r : BitVec w) (bytes : List Nat) : BitVec w :=
  bytes.foldl (fun r x => shifts p 8 (r ^^^ (BitVec.ofNat w x <<< (w - 8)))) r

def checksum (bytes : List Nat) : BitVec w :=
  divide p 0#w (bytes.flatMap (natToBits 8) ++ List.replicate w false)

/-! ## Linearity -/

theorem shift_xor (x y : BitVec w) : shift p (x ^^^ y) = shift p x ^^^ shift p y := by
  unfold shift
  simp only [BitVec.msb_xor, BitVec.shiftLeft_xor_distrib]
  cases x.msb <;> cases y.msb <;> simp only [Bool.xor_false, Bool.xor_true, Bool.not_false,
    Bool.not_true, Bool.false_eq_true, if_true, if_false]
  · ac_rfl
  · ac_rfl
  · rw [BitVec.xor_assoc, BitVec.xor_comm p, BitVec.xor_assoc, BitVec.xor_self, BitVec.xor_zero]

theorem shifts_xor (n : Nat) (x y : BitVec w) :
    shifts p n (x ^^^ y) = shifts p n x ^^^ shifts p n y := by
  induction n generalizing x y with
  | zero => rfl
  | succ n ih => rw [shifts, shift_xor, ih, shifts, shifts]

theorem shifts_add (m n : Nat) (x : BitVec w) :
    shifts p (m + n) x = shifts p n (shifts p m x) := by
  induction m generalizing x with
  | zero => rw [Nat.zero_add, shifts]
  | succ m ih => rw [Nat.succ_add, shifts, ih, shifts]

/-- As long as nothing leaves the register, the steps are one shift. -/
theorem shifts_small {n : Nat} {x : BitVec w} (h : x.toNat * 2 ^ n < 2 ^ w) :
    shifts p n x = x <<< n := by
  induction n generalizing x with
  | zero => rw [shifts, BitVec.shiftLeft_zero]
  | succ n ih =>
      have hpow : 1 ≤ 2 ^ n := Nat.one_le_two_pow
      have hdouble : x.toNat * 2 * 2 ^ n < 2 ^ w := by
        rwa [Nat.mul_assoc, ← Nat.pow_succ']
      have hlt : x.toNat * 2 < 2 ^ w := lt_of_le_of_lt (Nat.le_mul_of_pos_right _ hpow) hdouble
      have hmsb : x.msb = false := by
        rw [BitVec.msb_eq_decide, decide_eq_false_iff_not, Nat.not_le]
        cases w with
        | zero => omega
        | succ w =>
            rw [Nat.pow_succ] at hlt
            exact Nat.lt_of_mul_lt_mul_right hlt
      have hnat : (x <<< 1).toNat = x.toNat * 2 := by
        rw [BitVec.toNat_shiftLeft, Nat.shiftLeft_eq, Nat.pow_one, Nat.mod_eq_of_lt hlt]
      rw [shifts, shift, hmsb, if_neg Bool.false_ne_true, ih (by rwa [hnat]), ← BitVec.shiftLeft_add,
        Nat.add_comm]

/-! ## The division by parts -/

theorem divide_append (r : BitVec w) (l l' : List Bool) :
    divide p r (l ++ l') = divide p (divide p r l) l' :=
  List.foldl_append

theorem divide_zeros (n : Nat) (r : BitVec w) : divide p r (List.replicate n false) = shifts p n r := by
  induction n generalizing r with
  | zero => rfl
  | succ n ih =>
      rw [List.replicate_succ, divide, List.foldl_cons, shifts, ← ih]
      have hbit : bit w false = 0#w := rfl
      rw [hbit, BitVec.xor_zero]
      rfl

/-- A leading bit above the others is added without a carry. -/
theorem xor_bits (b : Bool) {k n : Nat} (h : n < 2 ^ k) :
    (b.toNat * 2 ^ k) ^^^ n = b.toNat * 2 ^ k + n := by
  cases b with
  | false => simp
  | true =>
      rw [Bool.toNat_true, Nat.one_mul]
      have hor := Nat.two_pow_add_eq_or_of_lt h 1
      rw [Nat.mul_one] at hor
      rw [hor]
      refine Nat.eq_of_testBit_eq fun i => ?_
      rw [Nat.testBit_xor, Nat.testBit_or, Nat.testBit_two_pow]
      by_cases hi : k = i
      · subst hi
        simp [Nat.testBit_lt_two_pow h]
      · simp [hi]

/-- Bits that fit into the register: the register moves on, and they are added. -/
theorem divide_eq {l : List Bool} (h : l.length ≤ w) (r : BitVec w) :
    divide p r l = shifts p l.length r ^^^ BitVec.ofNat w (bitsToNat l) := by
  induction l generalizing r with
  | nil => simp [divide, shifts, bitsToNat]
  | cons b l ih =>
      have hl : l.length + 1 ≤ w := h
      have hb : b.toNat ≤ 1 := Bool.toNat_le b
      have hpow : 2 ^ l.length * 2 ≤ 2 ^ w := by
        rw [← Nat.pow_succ]
        exact Nat.pow_le_pow_right (by omega) hl
      have hlead : b.toNat * 2 ^ l.length ≤ 2 ^ l.length := by
        calc b.toNat * 2 ^ l.length ≤ 1 * 2 ^ l.length := Nat.mul_le_mul_right _ hb
          _ = 2 ^ l.length := Nat.one_mul _
      have hnat : (bit w b).toNat = b.toNat := by
        rw [bit, BitVec.toNat_ofNat]
        have hone : 1 ≤ 2 ^ l.length := Nat.one_le_two_pow
        exact Nat.mod_eq_of_lt (by omega)
      have hrest := bitsToNat_lt l
      have hsmall : shifts p l.length (bit w b) = bit w b <<< l.length :=
        shifts_small p (by rw [hnat]; omega)
      have hjoin : bit w b <<< l.length ^^^ BitVec.ofNat w (bitsToNat l)
          = BitVec.ofNat w (bitsToNat (b :: l)) := by
        apply BitVec.eq_of_toNat_eq
        rw [bitsToNat_cons, ← xor_bits b hrest, BitVec.toNat_xor, BitVec.toNat_shiftLeft, hnat,
          Nat.shiftLeft_eq, BitVec.toNat_ofNat, BitVec.toNat_ofNat, Nat.xor_mod_two_pow]
      calc divide p r (b :: l) = divide p (shift p r ^^^ bit w b) l := rfl
        _ = shifts p l.length (shift p r ^^^ bit w b) ^^^ BitVec.ofNat w (bitsToNat l) := ih (by omega) _
        _ = shifts p l.length (shift p r)
              ^^^ (bit w b <<< l.length ^^^ BitVec.ofNat w (bitsToNat l)) := by
            rw [shifts_xor, hsmall, BitVec.xor_assoc]
        _ = shifts p (b :: l).length r ^^^ BitVec.ofNat w (bitsToNat (b :: l)) := by
            rw [hjoin]
            rfl

/-- A byte that enters at the high end, against the same byte in the division: `w`
zeros make the difference. -/
theorem divide_byte (hw : 8 ≤ w) (r : BitVec w) (x : Nat) :
    shifts p w (divide p r (natToBits 8 x))
      = shifts p 8 (shifts p w r ^^^ (BitVec.ofNat w (x % 2 ^ 8) <<< (w - 8))) := by
  have hlen : (natToBits 8 x).length ≤ w := by rwa [natToBits_length]
  have hx : x % 2 ^ 8 < 2 ^ 8 := Nat.mod_lt _ (by decide)
  have hsplit : 2 ^ 8 * 2 ^ (w - 8) = 2 ^ w := by rw [← Nat.pow_add, Nat.add_sub_cancel' hw]
  have hnat : (BitVec.ofNat w (x % 2 ^ 8)).toNat = x % 2 ^ 8 := by
    rw [BitVec.toNat_ofNat]
    exact Nat.mod_eq_of_lt (lt_of_lt_of_le hx (Nat.pow_le_pow_right (by decide) hw))
  have hsmall : shifts p (w - 8) (BitVec.ofNat w (x % 2 ^ 8))
      = BitVec.ofNat w (x % 2 ^ 8) <<< (w - 8) := by
    refine shifts_small p ?_
    rw [hnat, ← hsplit]
    exact Nat.mul_lt_mul_of_pos_right hx (Nat.two_pow_pos _)
  have hpast : shifts p w (BitVec.ofNat w (x % 2 ^ 8))
      = shifts p 8 (BitVec.ofNat w (x % 2 ^ 8) <<< (w - 8)) := by
    rw [← hsmall, ← shifts_add, Nat.sub_add_cancel hw]
  rw [divide_eq p hlen, natToBits_length, bitsToNat_natToBits_mod, shifts_xor, shifts_xor, hpast,
    ← shifts_add, ← shifts_add, Nat.add_comm]

/-- The two divisions agree. -/
theorem bytewise_eq (hw : 8 ≤ w) {bytes : List Nat} (h : ∀ x ∈ bytes, x < 2 ^ 8) :
    bytewise p 0#w bytes = checksum p bytes := by
  have hall : ∀ r, bytewise p (shifts p w r) bytes
      = shifts p w (divide p r (bytes.flatMap (natToBits 8))) := by
    induction bytes with
    | nil => exact fun r => rfl
    | cons x bytes ih =>
        intro r
        have hx : x % 2 ^ 8 = x := Nat.mod_eq_of_lt (h x (List.mem_cons_self ..))
        have hbyte := divide_byte p hw r x
        rw [hx] at hbyte
        calc bytewise p (shifts p w r) (x :: bytes)
            = bytewise p (shifts p 8 (shifts p w r ^^^ (BitVec.ofNat w x <<< (w - 8)))) bytes := rfl
          _ = bytewise p (shifts p w (divide p r (natToBits 8 x))) bytes := by rw [hbyte]
          _ = shifts p w (divide p (divide p r (natToBits 8 x)) (bytes.flatMap (natToBits 8))) :=
              ih (fun y hy => h y (List.mem_cons_of_mem x hy)) _
          _ = shifts p w (divide p r ((x :: bytes).flatMap (natToBits 8))) := by
              rw [← divide_append, List.flatMap_cons]
  have hzero : shifts p w 0#w = 0#w := by
    rw [shifts_small p (by simp)]
    simp
  have hstart := hall 0#w
  rw [hzero] at hstart
  rw [hstart, checksum, divide_append, divide_zeros]

end Crc

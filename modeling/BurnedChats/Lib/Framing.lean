import BurnedChats.Lib.Buffer

/-!
# Fields in a row

Messages that are hashed or signed are fields one after the other. Where every field but
the last has a known length, or carries its length in front, the fields can be read off
the message (`prefixed_inj`), so two messages are equal only where all their fields are.
What is then known of a hash is stated without an assumption on it: two messages with one
hash are the same, or they are a collision (`eq_or_collides`).
-/

namespace Framing

open Buffer (Bytes)

/-! ## Numbers -/

/-- A number modulo `256 ^ w` in `w` bytes, the lowest first. -/
def littleEndian : Nat → Nat → Bytes
  | 0, _ => []
  | w + 1, n => .ofNat n :: littleEndian w (n / 256)

@[simp] theorem length_littleEndian (w n : Nat) : (littleEndian w n).length = w := by
  induction w generalizing n with
  | zero => rfl
  | succ w ih => rw [littleEndian, List.length_cons, ih]

theorem littleEndian_inj {w m n : Nat} (hm : m < 256 ^ w) (hn : n < 256 ^ w)
    (h : littleEndian w m = littleEndian w n) : m = n := by
  induction w generalizing m n with
  | zero =>
      rw [Nat.pow_zero] at hm hn
      omega
  | succ w ih =>
      obtain ⟨hlow, hrest⟩ := List.cons.inj h
      rw [Nat.pow_succ] at hm hn
      have hhigh := ih (Nat.div_lt_of_lt_mul (by rwa [Nat.mul_comm] at hm))
        (Nat.div_lt_of_lt_mul (by rwa [Nat.mul_comm] at hn)) hrest
      have hbyte := congrArg UInt8.toNat hlow
      simp only [UInt8.toNat_ofNat'] at hbyte
      omega

/-- The two's complement of a number in `w` bytes. -/
def twos (w : Nat) (x : Int) : Nat := (x % (256 ^ w : Nat)).toNat

theorem twos_lt (w : Nat) (x : Int) : twos w x < 256 ^ w := by
  have hpos : (0 : Int) < (256 ^ w : Nat) := by exact_mod_cast Nat.pow_pos (by omega)
  have hlt := Int.emod_lt_of_pos x hpos
  rw [twos]
  omega

/-- Numbers that fit have different complements. -/
theorem twos_inj {w : Nat} {x y : Int}
    (hx : -(256 ^ w : Nat) ≤ x * 2 ∧ x * 2 < (256 ^ w : Nat))
    (hy : -(256 ^ w : Nat) ≤ y * 2 ∧ y * 2 < (256 ^ w : Nat)) (h : twos w x = twos w y) :
    x = y := by
  have hpos : (0 : Int) < (256 ^ w : Nat) := by exact_mod_cast Nat.pow_pos (by omega)
  have hmod : x % (256 ^ w : Nat) = y % (256 ^ w : Nat) := by
    have hxle := Int.emod_nonneg x (Int.ne_of_gt hpos)
    have hyle := Int.emod_nonneg y (Int.ne_of_gt hpos)
    rw [twos, twos] at h
    omega
  rw [← Int.bmod_eq_of_le_mul_two hx.1 hx.2, ← Int.emod_bmod, hmod, Int.emod_bmod,
    Int.bmod_eq_of_le_mul_two hy.1 hy.2]

/-! ## Fields -/

/-- A field with its length in front is read off what it begins. -/
theorem prefixed_inj {w : Nat} {d d' rest rest' : Bytes} (hd : d.length < 256 ^ w)
    (hd' : d'.length < 256 ^ w)
    (h : littleEndian w d.length ++ (d ++ rest) = littleEndian w d'.length ++ (d' ++ rest')) :
    d = d' ∧ rest = rest' := by
  obtain ⟨hlen, hbody⟩ := List.append_inj h (by simp)
  exact List.append_inj hbody (littleEndian_inj hd hd' hlen)

/-! ## Hashes -/

section

variable {α β : Type} (H : α → β) {x y : α}

def Collides (x y : α) : Prop := x ≠ y ∧ H x = H y

theorem eq_or_collides (h : H x = H y) : x = y ∨ Collides H x y := by
  by_cases hxy : x = y
  · exact .inl hxy
  · exact .inr ⟨hxy, h⟩

end

end Framing

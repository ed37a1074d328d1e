import Mathlib.Data.Nat.Digits.Defs

/-!
# Decimal numerals

A reader of numerals is given by the digits it knows: one that takes the digits
of every script and one that takes ten characters are the same definition. A
numeral is an optional sign and one digit or more. Whoever reads the ten digit
characters as what they are reads back every number that was written
(`signed_toString`).
-/

namespace Decimal

variable (digit : Char → Option Nat)

/-- One digit or more. -/
def magnitude : List Char → Option Nat
  | [] => none
  | l => l.foldlM (fun n c => (digit c).map (10 * n + ·)) 0

/-- A numeral with an optional sign. -/
def signed : List Char → Option Int
  | '-' :: l => (magnitude digit l).map fun n => -n
  | '+' :: l => (magnitude digit l).map fun n => n
  | l => (magnitude digit l).map fun n => n

/-- The ten digit characters have their values. -/
def Reads : Prop := ∀ c : Char, c.isDigit = true → digit c = some (c.toNat - '0'.toNat)

variable {digit}

theorem foldlM_digits (h : Reads digit) {l : List Char} (hl : ∀ c ∈ l, c.isDigit = true)
    (n : Nat) :
    l.foldlM (fun n c => (digit c).map (10 * n + ·)) n = some (Nat.ofDigitChars 10 l n) := by
  induction l generalizing n with
  | nil => rfl
  | cons c l ih =>
      have hc := h c (hl c List.mem_cons_self)
      rw [List.foldlM_cons, hc, Nat.ofDigitChars_cons]
      exact ih (fun d hd => hl d (List.mem_cons_of_mem c hd)) _

theorem isDigit_of_mem {n : Nat} {c : Char} (h : c ∈ Nat.toDigits 10 n) : c.isDigit = true :=
  Nat.isDigit_of_mem_toDigits (by decide) (by decide) h

theorem magnitude_toDigits (h : Reads digit) (n : Nat) :
    magnitude digit (Nat.toDigits 10 n) = some n := by
  have hfold := foldlM_digits h (fun c hc => isDigit_of_mem (n := n) hc) 0
  rw [Nat.ofDigitChars_ten_toDigits] at hfold
  cases hl : Nat.toDigits 10 n with
  | nil => exact absurd hl Nat.toDigits_ne_nil
  | cons c l => rwa [hl] at hfold

/-- A numeral without a sign. -/
theorem signed_toDigits (h : Reads digit) (n : Nat) :
    signed digit (Nat.toDigits 10 n) = some (n : Int) := by
  have hmag := magnitude_toDigits h n
  unfold signed
  split
  · rename_i l heq
    exact absurd (isDigit_of_mem (n := n) (heq ▸ List.mem_cons_self)) (by decide)
  · rename_i l heq
    exact absurd (isDigit_of_mem (n := n) (heq ▸ List.mem_cons_self)) (by decide)
  · rw [hmag]
    rfl

theorem toList_ofNat (n : Nat) : (toString (Int.ofNat n)).toList = Nat.toDigits 10 n :=
  Nat.toList_repr

theorem toList_negSucc (n : Nat) :
    (toString (Int.negSucc n)).toList = '-' :: Nat.toDigits 10 (n + 1) := by
  show ("-" ++ (n + 1).repr).toList = _
  rw [String.toList_append, Nat.toList_repr]
  rfl

/-- Every number is read back from its numeral. -/
theorem signed_toString (h : Reads digit) (z : Int) : signed digit (toString z).toList = some z := by
  cases z with
  | ofNat n =>
      rw [toList_ofNat, signed_toDigits h]
      rfl
  | negSucc n =>
      rw [toList_negSucc, signed, magnitude_toDigits h]
      rfl

/-- A numeral is not without a digit. -/
theorem exists_digit (z : Int) : ∃ c ∈ (toString z).toList, c.isDigit = true := by
  have hdigits : ∀ n, ∃ c ∈ Nat.toDigits 10 n, c.isDigit = true := fun n => by
    obtain ⟨c, hc⟩ := List.exists_mem_of_ne_nil _ (Nat.toDigits_ne_nil (n := n) (b := 10))
    exact ⟨c, hc, isDigit_of_mem hc⟩
  cases z with
  | ofNat n =>
      rw [toList_ofNat]
      exact hdigits n
  | negSucc n =>
      obtain ⟨c, hc, hdigit⟩ := hdigits (n + 1)
      rw [toList_negSucc]
      exact ⟨c, List.mem_cons_of_mem _ hc, hdigit⟩

end Decimal

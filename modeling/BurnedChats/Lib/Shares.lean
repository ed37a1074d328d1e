import BurnedChats.Lib.Table
import Mathlib.Algebra.BigOperators.Ring.List
import Mathlib.Tactic.Linarith
import Mathlib.Tactic.Ring

/-!
# Reward per share

The accounting of rewards shared out by a growing index. A position of amount
`a` has earned `⌊a · index / scale⌋` since the beginning, of which its debt has
been settled. What is still owed, times the scale, is the sum of
`a · index - scale · debt` over the positions (`owed`); this quantity is linear
in the index, so an accrual raises it by the total times the rise, and rebasing
a debt to the current index leaves less than one unit of `scale` behind.
-/

namespace Shares

variable {K V : Type} [DecidableEq K]

/-- What one position is owed, times the scale. -/
def term (scale index a d : Nat) : Int := (a * index : Nat) - (scale * d : Nat)

/-- What all positions are owed, times the scale. -/
def owed (scale index : Nat) (amount : K → V → Nat) (debt : K → Nat) (t : Table K V) : Int :=
  Table.sum (fun k v => term scale index (amount k v) (debt k)) t

variable {scale index : Nat} {amount : K → V → Nat} {debt : K → Nat} {t : Table K V}

omit [DecidableEq K] in
theorem owed_rise (δ : Nat) :
    owed scale (index + δ) amount debt t
      = owed scale index amount debt t + (Table.sum amount t * δ : Nat) := by
  unfold owed
  have h : (fun k v => term scale (index + δ) (amount k v) (debt k))
      = fun k v => term scale index (amount k v) (debt k) + ((amount k v * δ : Nat) : Int) := by
    funext k v
    simp only [term]
    push_cast
    ring
  rw [h, Table.sum_add]
  congr 1
  unfold Table.sum
  rw [← List.sum_map_mul_right]
  generalize t.entries = l
  induction l with
  | nil => rfl
  | cons e l ih =>
      simp only [List.map_cons, List.sum_cons, ih]
      push_cast
      ring

/-- A settled debt leaves the remainder of the division. -/
theorem term_settled (scale index a : Nat) :
    term scale index a (a * index / scale) = (a * index % scale : Nat) := by
  have h := Nat.div_add_mod (a * index) scale
  simp only [term]
  omega

/-- The term of a position that is settled and then rebased: whole units out, the
remainder stays. -/
theorem term_eq_pending {a d : Nat} (h : d ≤ a * index / scale) :
    term scale index a d
      = (scale * (a * index / scale - d) : Nat) + (a * index % scale : Nat) := by
  have h1 := Nat.div_add_mod (a * index) scale
  have h2 : scale * (a * index / scale - d) + scale * d = scale * (a * index / scale) := by
    rw [← Nat.mul_add, Nat.sub_add_cancel h]
  simp only [term]
  omega

/-- Splitting one position off. -/
theorem owed_split (k : K) (t : Table K V) :
    owed scale index amount debt t
      = Table.at? (fun k v => term scale index (amount k v) (debt k)) k t
        + owed scale index amount debt (t.erase k) :=
  Table.sum_split _ k t

theorem owed_erase_congr {debt' : K → Nat} {k : K} (h : ∀ k', k' ≠ k → debt' k' = debt k') :
    owed scale index amount debt' (t.erase k) = owed scale index amount debt (t.erase k) := by
  refine Table.sum_congr fun k' v hv => ?_
  rw [h k']
  rintro rfl
  simp at hv

/-- Storing a position anew, with its debt at `k` and nowhere else changed. -/
theorem owed_insert {debt' : K → Nat} {k : K} (v : V) (h : ∀ k', k' ≠ k → debt' k' = debt k') :
    owed scale index amount debt' (t.insert k v)
        + Table.at? (fun k v => term scale index (amount k v) (debt k)) k t
      = owed scale index amount debt t + term scale index (amount k v) (debt' k) := by
  have h1 : owed scale index amount debt' (t.insert k v)
      = term scale index (amount k v) (debt' k) + owed scale index amount debt' (t.erase k) :=
    Table.sum_insert _ k v t
  rw [h1, owed_erase_congr h, owed_split k t]
  ring

end Shares

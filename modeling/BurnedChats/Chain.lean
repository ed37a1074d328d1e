import BurnedChats.Lib.Cell

/-!
# Contract executions

What every contract of the repository runs in: an execution context, a monad of
executions that may throw, and the derivation of jetton-wallet addresses.

Fees and remaining values are decided by the platform, not by the contracts, so
an execution receives them (`Gas`) and nothing constrains them.
-/

namespace BurnedChats

/-- Amounts of TON are counted in nanotons; the contracts write them as decimal
TON literals with at most three decimals. -/
def milliTon (n : Nat) : Nat := n * 1000000

/-- A contract execution: a result, or a throw with its message. -/
abbrev Tx := Except String

def require (c : Prop) [Decidable c] (e : String) : Tx Unit :=
  if c then .ok () else .error e

@[simp] theorem require_eq_ok {c : Prop} [Decidable c] {e : String} {u : Unit} :
    require c e = .ok u ↔ c := by
  unfold require
  split <;> simp_all

theorem require_pos {c : Prop} [Decidable c] {e : String} (h : c) : require c e = .ok () := by
  rw [require, if_pos h]

@[simp] theorem bind_eq_ok {α β : Type} {x : Tx α} {f : α → Tx β} {r : β} :
    (x >>= f) = .ok r ↔ ∃ a, x = .ok a ∧ f a = .ok r := by
  cases x with
  | error e => simp [Bind.bind, Except.bind]
  | ok a => simp [Bind.bind, Except.bind]

@[simp] theorem ok_bind {α β : Type} (a : α) (f : α → Tx β) : ((.ok a : Tx α) >>= f) = f a := rfl

@[simp] theorem error_bind {α β : Type} (e : String) (f : α → Tx β) :
    ((.error e : Tx α) >>= f) = .error e := rfl

/-- Storing or sending a value in an unsigned field throws when it does not fit. -/
def uintField (w : Nat) (x : Int) : Tx Nat := do
  require (0 ≤ x ∧ x < 2 ^ w) "Integer out of expected range"
  .ok x.toNat

theorem uintField_eq_ok {w n : Nat} {x : Int} (h : uintField w x = .ok n) :
    (n : Int) = x ∧ n < 2 ^ w := by
  simp only [uintField, bind_eq_ok, require_eq_ok, exists_const, Except.ok.injEq] at h
  obtain ⟨⟨h0, hlt⟩, rfl⟩ := h
  have hx : (x.toNat : Int) = x := Int.toNat_of_nonneg h0
  refine ⟨hx, ?_⟩
  rw [← hx] at hlt
  exact_mod_cast hlt

theorem uintField_of_lt {w n : Nat} (h : n < 2 ^ w) : uintField w n = .ok n := by
  have hn : (n : Int) < 2 ^ w := by exact_mod_cast h
  rw [uintField, require_pos ⟨Int.natCast_nonneg n, hn⟩, ok_bind, Int.toNat_natCast]

/-- What the platform supplies to one execution. `fwdFee` is the forward fee read
off the inbound message, `remaining` what a send of the remaining value or
balance carries, `myBalance` the account balance, `computeFee` and `deployFee`
the prices of the gas and state-init budgets the contracts ask for. -/
structure Gas where
  fwdFee : Nat
  remaining : Nat
  myBalance : Nat
  computeFee : Nat
  deployFee : Nat
  deriving DecidableEq, Repr

structure Ctx extends Gas where
  myAddress : Address
  sender : Address
  value : Nat
  now : Nat

/-- Throws unless the address is on the base chain. -/
def forceBasechain (a : Address) : Tx Unit :=
  require (a.workchain = .basechain) "Not a basechain address"

/-- How the addresses of jetton wallets arise from their initial data (owner and
jetton master). Deriving an address is hashing, so all that is used of it is
that the owner can be told from the address. -/
structure WalletBook where
  addr : Address → Address → Address
  ownerOf : Address → Address → Option Address
  ownerOf_iff : ∀ owner master a, ownerOf master a = some owner ↔ addr owner master = a

namespace WalletBook

variable (W : WalletBook)

@[simp] theorem ownerOf_addr (owner master : Address) :
    W.ownerOf master (W.addr owner master) = some owner :=
  (W.ownerOf_iff owner master _).mpr rfl

theorem addr_injective {owner owner' master : Address}
    (h : W.addr owner master = W.addr owner' master) : owner = owner' := by
  have h1 := W.ownerOf_addr owner master
  rw [h, ownerOf_addr] at h1
  exact (Option.some.inj h1).symm

@[simp] theorem addr_inj {owner owner' master : Address} :
    W.addr owner master = W.addr owner' master ↔ owner = owner' :=
  ⟨W.addr_injective, fun h => h ▸ rfl⟩

/-- Addresses as numbers, and back. -/
def number (a : Address) : Nat :=
  match a.workchain with
  | .basechain => 2 * a.hash
  | .masterchain => 2 * a.hash + 1

def unnumber (n : Nat) : Address := ⟨if n % 2 = 0 then .basechain else .masterchain, n / 2⟩

theorem unnumber_number (a : Address) : unnumber (number a) = a := by
  obtain ⟨wc, h⟩ := a
  cases wc with
  | basechain => simp [number, unnumber]
  | masterchain =>
      have h1 : (2 * h + 1) % 2 = 1 := by omega
      have h2 : (2 * h + 1) / 2 = h := by omega
      simp [number, unnumber, h1, h2]

/-- A collision-free derivation, on which concrete runs are computed. -/
def numbered : WalletBook where
  addr o m := ⟨.basechain, 2 * (number o + m.hash) + 1⟩
  ownerOf m a :=
    let o := unnumber (a.hash / 2 - m.hash)
    if (⟨.basechain, 2 * (number o + m.hash) + 1⟩ : Address) = a then some o else none
  ownerOf_iff o m a := by
    constructor
    · intro h
      simp only at h
      split at h
      · obtain rfl := Option.some.inj h
        assumption
      · cases h
    · rintro rfl
      have h : (2 * (number o + m.hash) + 1) / 2 - m.hash = number o := by omega
      simp only [h, unnumber_number, if_true]

end WalletBook

/-- Small addresses for concrete runs. -/
def account (n : Nat) : Address := ⟨.basechain, n⟩

end BurnedChats

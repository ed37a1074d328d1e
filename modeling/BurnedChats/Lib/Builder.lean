import BurnedChats.Lib.Cell

/-!
# Builders

Writing a cell within its capacity. A builder is what has been written together
with the fact that it fits, so a write either keeps within the capacity or throws,
and all that matters of a sequence of writes is what it writes in total
(`write_bind_write`). A string that is longer than the room left continues in
referenced cells.

Optional fields (an address that may be absent, a reference announced by a bit) are
written and read here too.
-/

def maxBits : Nat := 1023

def maxRefs : Nat := 4

namespace Slice

def Fits (s : Slice) : Prop := s.bits.length ≤ maxBits ∧ s.refs.length ≤ maxRefs

instance (s : Slice) : Decidable s.Fits := inferInstanceAs (Decidable (_ ∧ _))

theorem storeSlice_assoc (a b c : Slice) :
    (a.storeSlice b).storeSlice c = a.storeSlice (b.storeSlice c) := by
  simp only [storeSlice, List.append_assoc]

theorem Fits.of_storeSlice {a b : Slice} (h : (a.storeSlice b).Fits) : a.Fits := by
  obtain ⟨hb, hr⟩ := h
  simp only [storeSlice, List.length_append] at hb hr
  exact ⟨by omega, by omega⟩

end Slice

/-- What has been written of a cell: never more than fits. -/
structure Builder where
  written : Slice
  fits : written.Fits

namespace Builder

def beginCell : Builder := ⟨.empty, by decide⟩

def endCell (b : Builder) : Cell := b.written.endCell

/-- Bits first, then references. -/
def write (b : Builder) (s : Slice) : Except String Builder :=
  if hb : (b.written.storeSlice s).bits.length ≤ maxBits then
    if hr : (b.written.storeSlice s).refs.length ≤ maxRefs then
      .ok ⟨b.written.storeSlice s, hb, hr⟩
    else .error "Too many references"
  else .error "BitBuilder overflow"

def storeBits (b : Builder) (l : List Bool) : Except String Builder := b.write ⟨l, []⟩

def storeBit (b : Builder) (x : Bool) : Except String Builder := b.storeBits [x]

def storeRef (b : Builder) (c : Cell) : Except String Builder := b.write ⟨[], [c]⟩

def storeSlice (b : Builder) (s : Slice) : Except String Builder := b.write s

def storeUint (b : Builder) (n w : Nat) : Except String Builder :=
  if n < 2 ^ w then b.storeBits (natToBits w n) else .error "Integer out of expected range"

/-- A signed number in two's complement. -/
def intBits (w : Nat) (x : Int) : List Bool := natToBits w (x % 2 ^ w).toNat

def storeInt (b : Builder) (x : Int) (w : Nat) : Except String Builder :=
  if -2 ^ (w - 1) ≤ x ∧ x < 2 ^ (w - 1) then b.storeBits (intBits w x)
  else .error "Integer out of expected range"

def storeCoins (b : Builder) (n : Nat) : Except String Builder :=
  if n < 2 ^ 120 then b.storeBits (Slice.coinBits n) else .error "Integer out of expected range"

/-- An absent address takes two zero bits. -/
def maybeAddressBits : Option Address → List Bool
  | none => [false, false]
  | some a => Slice.addressBits a

def storeAddress (b : Builder) (a : Option Address) : Except String Builder :=
  b.storeBits (maybeAddressBits a)

/-- A reference is announced by a bit. -/
def maybeRef : Option Cell → Slice
  | none => ⟨[false], []⟩
  | some c => ⟨[true], [c]⟩

/-! ## What a sequence of writes comes to -/

theorem ext_written {b b' : Builder} (h : b.written = b'.written) : b = b' := by
  obtain ⟨s, hs⟩ := b
  obtain ⟨s', hs'⟩ := b'
  obtain rfl : s = s' := h
  rfl

theorem write_ok (b : Builder) {s : Slice} (h : (b.written.storeSlice s).Fits) :
    b.write s = .ok ⟨b.written.storeSlice s, h⟩ := by
  rw [write, dif_pos h.1, dif_pos h.2]

/-- The capacity is part of the builder that comes out. -/
theorem write_eq_ok {b b' : Builder} {s : Slice} :
    b.write s = .ok b' ↔ b'.written = b.written.storeSlice s := by
  constructor
  · intro h
    unfold write at h
    split at h
    · split at h
      · cases h
        rfl
      · cases h
    · cases h
  · intro h
    have hfits : (b.written.storeSlice s).Fits := h ▸ b'.fits
    rw [write_ok b hfits]
    exact congrArg Except.ok (ext_written h.symm)

theorem write_fits {b : Builder} {s : Slice} :
    (∃ b', b.write s = .ok b') ↔ (b.written.storeSlice s).Fits :=
  ⟨fun ⟨b', h⟩ => write_eq_ok.mp h ▸ b'.fits, fun h => ⟨_, write_ok b h⟩⟩

theorem write_bind {α : Type} {b : Builder} {s : Slice} {k : Builder → Except String α} {r : α} :
    (b.write s >>= k) = .ok r
      ↔ ∃ b' : Builder, b'.written = b.written.storeSlice s ∧ k b' = .ok r := by
  cases hw : b.write s with
  | error e =>
      refine iff_of_false (fun h => by cases h) ?_
      rintro ⟨b', hb', -⟩
      rw [write_eq_ok.mpr hb'] at hw
      cases hw
  | ok b₁ =>
      have hb₁ := write_eq_ok.mp hw
      constructor
      · exact fun h => ⟨b₁, hb₁, h⟩
      · rintro ⟨b', hb', h⟩
        rw [ext_written (hb'.trans hb₁.symm)] at h
        exact h

/-- Two writes succeed as one. -/
theorem write_bind_write {α : Type} (b : Builder) (s t : Slice) (k : Builder → Except String α)
    (r : α) :
    (b.write s >>= fun b₁ => b₁.write t >>= k) = .ok r
      ↔ (b.write (s.storeSlice t) >>= k) = .ok r := by
  simp only [write_bind, ← Slice.storeSlice_assoc]
  constructor
  · rintro ⟨b₁, hb₁, b', hb', h⟩
    exact ⟨b', hb₁ ▸ hb', h⟩
  · rintro ⟨b', hb', h⟩
    have hfits : (b.written.storeSlice s).Fits := Slice.Fits.of_storeSlice (hb' ▸ b'.fits)
    exact ⟨⟨_, hfits⟩, rfl, b', hb', h⟩

/-- From a fresh builder: what is written is the cell, if it fits. -/
theorem beginCell_write_bind {α : Type} {s : Slice} {k : Builder → Except String α} {r : α} :
    (beginCell.write s >>= k) = .ok r ↔ ∃ h : s.Fits, k ⟨s, h⟩ = .ok r := by
  rw [write_bind]
  have hempty : beginCell.written.storeSlice s = s := by
    simp only [beginCell, Slice.empty, Slice.storeSlice, List.nil_append]
  rw [hempty]
  constructor
  · rintro ⟨b, rfl, h⟩
    exact ⟨b.fits, h⟩
  · rintro ⟨hfits, h⟩
    exact ⟨⟨s, hfits⟩, rfl, h⟩

theorem storeUint_eq {n w : Nat} (h : n < 2 ^ w) (b : Builder) :
    b.storeUint n w = b.write ⟨natToBits w n, []⟩ :=
  if_pos h

theorem storeCoins_eq {n : Nat} (h : n < 2 ^ 120) (b : Builder) :
    b.storeCoins n = b.write ⟨Slice.coinBits n, []⟩ :=
  if_pos h

theorem storeInt_eq {x : Int} {w : Nat} (h : -2 ^ (w - 1) ≤ x ∧ x < 2 ^ (w - 1)) (b : Builder) :
    b.storeInt x w = b.write ⟨intBits w x, []⟩ :=
  if_pos h

/-- Only what is in range can be written. -/
theorem storeUint_lt {b b' : Builder} {n w : Nat} (h : b.storeUint n w = .ok b') : n < 2 ^ w := by
  by_contra hn
  rw [storeUint, if_neg hn] at h
  cases h

theorem storeCoins_lt {b b' : Builder} {n : Nat} (h : b.storeCoins n = .ok b') : n < 2 ^ 120 := by
  by_contra hn
  rw [storeCoins, if_neg hn] at h
  cases h

theorem storeInt_bounds {b b' : Builder} {x : Int} {w : Nat} (h : b.storeInt x w = .ok b') :
    -2 ^ (w - 1) ≤ x ∧ x < 2 ^ (w - 1) := by
  by_contra hn
  rw [storeInt, if_neg hn] at h
  cases h

@[simp] theorem intBits_length (w : Nat) (x : Int) : (intBits w x).length = w :=
  natToBits_length ..

/-! ## Strings -/

def byteBits (l : List UInt8) : List Bool := l.flatMap fun x => natToBits 8 x.toNat

def storeBuffer (b : Builder) (l : List UInt8) : Except String Builder := b.storeBits (byteBits l)

/-- The bytes there is room for. -/
def room (b : Builder) : Nat := (maxBits - b.written.bits.length) / 8

theorem room_le (b : Builder) : b.room ≤ 127 := by
  unfold room maxBits
  omega

/-- As many bytes as there is room for, the others in a referenced cell, and so on. -/
def storeBufferTail (b : Builder) (l : List UInt8) : Except String Builder :=
  if l.length ≤ b.room then b.storeBuffer l
  else do
    let b' ← b.storeBuffer (l.take b.room)
    let rest ← storeBufferTail beginCell (l.drop b.room)
    b'.storeRef rest.endCell
termination_by l.length + (127 - b.room)
decreasing_by
  have hb := b.room_le
  have hfresh : beginCell.room = 127 := rfl
  rw [List.length_drop, hfresh]
  omega

@[simp] theorem byteBits_length (l : List UInt8) : (byteBits l).length = 8 * l.length := by
  induction l with
  | nil => rfl
  | cons x l ih =>
      rw [byteBits, List.flatMap_cons, List.length_append, natToBits_length, List.length_cons]
      have ih' : (List.flatMap (fun x : UInt8 => natToBits 8 x.toNat) l).length = 8 * l.length := ih
      omega

/-- A string that fits is written in place. -/
theorem storeBufferTail_inline {b : Builder} {l : List UInt8} (h : l.length ≤ b.room) :
    b.storeBufferTail l = b.write ⟨byteBits l, []⟩ := by
  rw [storeBufferTail, if_pos h]
  rfl

/-- Where a reference is left, every string can be written: it fills the room and
takes at most the one reference. -/
theorem storeBufferTail_ok (b : Builder) (l : List UInt8) (href : b.written.refs.length < maxRefs) :
    ∃ b' r, b.storeBufferTail l = .ok b'
      ∧ b'.written = b.written.storeSlice ⟨byteBits (l.take b.room), r⟩ ∧ r.length ≤ 1
      ∧ (l.length ≤ b.room → r = []) := by
  have hbits : (b.written.storeSlice ⟨byteBits (l.take b.room), []⟩).bits.length ≤ maxBits := by
    have htake : (l.take b.room).length ≤ b.room := List.length_take_le ..
    have hfits := b.fits.1
    simp only [Slice.storeSlice, List.length_append, byteBits_length]
    unfold room maxBits at *
    omega
  have hplain : (b.written.storeSlice ⟨byteBits (l.take b.room), []⟩).Fits :=
    ⟨hbits, by simpa [Slice.storeSlice] using b.fits.2⟩
  by_cases hl : l.length ≤ b.room
  · refine ⟨⟨_, hplain⟩, [], ?_, rfl, Nat.zero_le 1, fun _ => rfl⟩
    rw [storeBufferTail_inline hl, write_eq_ok]
    show b.written.storeSlice ⟨byteBits (l.take b.room), []⟩ = _
    rw [List.take_of_length_le hl]
  · obtain ⟨rest, r, hrest, -, -⟩ :=
      storeBufferTail_ok beginCell (l.drop b.room) (by decide)
    have hfull : (b.written.storeSlice ⟨byteBits (l.take b.room), [rest.endCell]⟩).Fits := by
      refine ⟨hbits, ?_⟩
      simp only [Slice.storeSlice, List.length_append, List.length_singleton]
      exact href
    refine ⟨⟨_, hfull⟩, [rest.endCell], ?_, rfl, le_refl 1, fun h => absurd h hl⟩
    rw [storeBufferTail, if_neg hl]
    show (b.write ⟨byteBits (l.take b.room), []⟩ >>= _) = _
    rw [write_ok b hplain]
    show (storeBufferTail beginCell (l.drop b.room) >>= _) = _
    rw [hrest]
    show storeRef _ _ = _
    rw [storeRef, write_eq_ok, Slice.storeSlice_assoc]
    simp only [Slice.storeSlice, List.append_nil, List.nil_append]
termination_by l.length + (127 - b.room)
decreasing_by
  have hb := b.room_le
  have hfresh : beginCell.room = 127 := rfl
  rw [List.length_drop, hfresh]
  omega

end Builder

/-! ## Reading signed and optional fields -/

namespace Slice

def loadInt (s : Slice) (w : Nat) : Except String (Int × Slice) := do
  let (n, s) ← s.loadUint w
  .ok (if n < 2 ^ (w - 1) then n else n - 2 ^ w, s)

def loadMaybeAddress (s : Slice) : Except String (Option Address × Slice) := do
  let tag ← s.preloadUint 2
  if tag = 0 then do
    let s ← s.skipBits 2
    .ok (none, s)
  else do
    let (a, s) ← s.loadAddress
    .ok (some a, s)

def loadMaybeRef (s : Slice) : Except String (Option Cell × Slice) := do
  let (present, s) ← s.loadBit
  if present then do
    let (c, s) ← s.loadRef
    .ok (some c, s)
  else .ok (none, s)

theorem loadInt_append {x : Int} {w : Nat} (hw : 0 < w) (hle : -2 ^ (w - 1) ≤ x)
    (hlt : x < 2 ^ (w - 1)) (rest : List Bool) (r : List Cell) :
    (Slice.mk (Builder.intBits w x ++ rest) r).loadInt w = .ok (x, ⟨rest, r⟩) := by
  have hpow : (2 : Int) ^ w = 2 * 2 ^ (w - 1) := by
    obtain ⟨n, rfl⟩ := Nat.exists_eq_succ_of_ne_zero hw.ne'
    rw [Nat.succ_sub_one, pow_succ, mul_comm]
  have hnat : ∀ n : Nat, ((2 ^ n : Nat) : Int) = 2 ^ n := Nat.cast_pow 2
  have hhalf := hnat (w - 1)
  have hfull := hnat w
  have hpos : (0 : Int) < 2 ^ (w - 1) := Int.pow_pos (by decide)
  have hmod : (((x % 2 ^ w).toNat : Nat) : Int) = x % 2 ^ w :=
    Int.toNat_of_nonneg (Int.emod_nonneg _ (by omega))
  have hwrap : ((x % 2 ^ w).toNat) < 2 ^ w := by
    have hlt' : x % 2 ^ w < 2 ^ w := Int.emod_lt_of_pos _ (by omega)
    omega
  rw [loadInt, Builder.intBits, loadUint_append hwrap]
  show Except.ok _ = _
  refine congrArg (fun y : Int => Except.ok (y, Slice.mk rest r)) ?_
  by_cases hx : 0 ≤ x
  · have hself : x % 2 ^ w = x := Int.emod_eq_of_lt hx (by omega)
    rw [hself] at hmod
    rw [hself, if_pos (by omega)]
    exact hmod
  · have hself : x % 2 ^ w = x + 2 ^ w := by
      rw [← Int.add_emod_right, Int.emod_eq_of_lt (by omega) (by omega)]
    rw [hself] at hmod
    rw [hself, if_neg (by omega)]
    omega

theorem loadMaybeAddress_append (a : Option Address) (rest : List Bool) (r : List Cell) :
    (Slice.mk (Builder.maybeAddressBits a ++ rest) r).loadMaybeAddress
      = .ok (a.map Address.wrap, ⟨rest, r⟩) := by
  cases a with
  | none => simp [Builder.maybeAddressBits, loadMaybeAddress, preloadUint, loadUint, loadBits,
      skipBits, bitsToNat, Bind.bind, Except.bind]
  | some a =>
      have htag : (Slice.mk (addressBits a ++ rest) r).preloadUint 2 = .ok 2 := by
        obtain ⟨wc, hash⟩ := a
        cases wc <;> rfl
      show (Slice.mk (addressBits a ++ rest) r).loadMaybeAddress = _
      rw [loadMaybeAddress, htag]
      show ((Slice.mk (addressBits a ++ rest) r).loadAddress >>= _) = _
      rw [loadAddress_append]
      rfl

theorem loadMaybeRef_append (c : Option Cell) (rest : List Bool) (r : List Cell) :
    (Slice.mk ((Builder.maybeRef c).bits ++ rest) ((Builder.maybeRef c).refs ++ r)).loadMaybeRef
      = .ok (c, ⟨rest, r⟩) := by
  cases c <;> rfl

end Slice

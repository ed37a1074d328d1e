import BurnedChats.Backend.TonAddress

/-!
# A bag of cells from outside

The decoder of `TonAddressBoc` reads what an RPC node answers. It checks the checksum,
the number of cells and that the cell ends inside the bag, but not the magic number, the
number of roots, the descriptor or the bit that ends the data, and it follows the
header's widths before it looks where they lead. `Decoded` is what a reader may expect
of it: the address that the bag stores, or a `TonRpcException`. `Admissible` says which
bags get that (`decoded_iff`).

A field of the header is a number of any size here (`field`); the decoder reads it into
32 bits (`readBeUint_eq`).
-/

namespace BurnedChats.TonAddressBoc

open Encoding
open Buffer (Bytes)
open Builder (byteBits)

/-! ## The header -/

/-- The bytes of an index, by the header. -/
def sizeBytes (full : Bytes) : Nat := (full.getD 4 0).toNat % 8

/-- The bytes of a size, by the header. -/
def offsetBytes (full : Bytes) : Nat := (full.getD 5 0).toNat

/-- The number in `n` bytes from `offset` on. -/
def field (full : Bytes) (offset n : Nat) : Nat :=
  Buffer.Reading.ofBigEndian ((full.drop offset).take n)

def cellsNum (full : Bytes) : Nat := field full 6 (sizeBytes full)

def rootsNum (full : Bytes) : Nat := field full (6 + sizeBytes full) (sizeBytes full)

/-- The cells' size follows three indices: cells, roots and absent cells. -/
def sizeStart (full : Bytes) : Nat := 6 + 3 * sizeBytes full

def totalCellSize (full : Bytes) : Nat := field full (sizeStart full) (offsetBytes full)

/-- The cells follow the index of the root. -/
def cellStart (full : Bytes) : Nat := sizeStart full + offsetBytes full + sizeBytes full

/-- The first bit of the fifth byte announces an index between the root and the cells. -/
def hasIndex (full : Bytes) : Bool := decide (128 ≤ (full.getD 4 0).toNat)

/-! ## What a bag stores -/

/-- By its header, the bag has one root, and what lies between the header and the
checksum is a cell with the data of the address and with its references. -/
structure Stores (full : Bytes) (p : ParsedAddress) : Prop where
  magic : field full 0 4 = BOC_MAGIC
  roots : rootsNum full = 1
  index : hasIndex full = false
  size : cellStart full + totalCellSize full + 4 = full.length
  cell : ∃ (d1 : UInt8) (refs : Bytes), refs.length = d1.toNat % 8 * sizeBytes full
    ∧ (full.drop (cellStart full)).take (totalCellSize full)
      = d1 :: .ofNat (bitsDescriptor 267) :: (addressBits p).toPaddedCellBytes ++ refs

/-- The other exceptions come from the array accesses and copies. -/
def isTonRpcException (e : String) : Prop := e ≠ outOfBounds ∧ e ≠ "IllegalArgumentException"

/-- The bag's address, or a `TonRpcException`. -/
def Decoded (jdk : Jdk) (full : Bytes) : Prop :=
  let outcome := decodeRawAddressFromSingleRootBoc jdk (String.ofList (encode full))
  (∃ p : ParsedAddress, p.hash.length = 32 ∧ -128 ≤ p.workchain ∧ p.workchain ≤ 127
      ∧ outcome = .ok (rawText p.workchain p.hash) ∧ Stores full p)
    ∨ ∃ e, outcome = .error e ∧ isTonRpcException e

/-! ## Which bags are decoded -/

/-- The decoder's first checks. -/
def Sealed (jdk : Jdk) (full : Bytes) : Prop :=
  16 ≤ full.length
    ∧ crcBytes (jdk.crc32c (full.take (full.length - 4))) = full.drop (full.length - 4)
    ∧ 0 < sizeBytes full

/-- The decoder's check of the layout, in 32 bits. -/
def LaidOut (full : Bytes) : Prop :=
  int32 (cellsNum full) = 1 ∧ 0 < int32 (totalCellSize full)
    ∧ int32 (cellStart full + int32 (totalCellSize full) + 4) ≤ full.length

/-- The cell as it is copied, filled up with zeros. -/
def cellOf (full : Bytes) : Bytes :=
  let n := (int32 (totalCellSize full)).toNat
  let copied := (full.drop (cellStart full)).take n
  copied ++ List.replicate (n - copied.length) 0

def descriptor (cell : Bytes) : Nat := (cell.getD 1 0).toNat

def payload (cell : Bytes) : Bytes := cell.drop 2

/-- The payload begins with the tag of a standard address, and its end is not before the
address's end: by the descriptor, or because a one bit stands there. -/
def CarriesAddress (cell : Bytes) : Prop :=
  (byteBits (payload cell)).take 2 = [true, false]
    ∧ (descriptor cell = bitsDescriptor 267 ∨ true ∈ (byteBits (payload cell)).drop 267)

/-- What the decoder takes for granted. -/
structure Regular (full : Bytes) : Prop where
  magic : field full 0 4 = BOC_MAGIC
  roots : rootsNum full = 1
  index : hasIndex full = false
  size : cellStart full + totalCellSize full + 4 = full.length
  cellSize : totalCellSize full
    = 36 + ((full.getD (cellStart full) 0).toNat % 8) * sizeBytes full
  descriptor : descriptor (cellOf full) = bitsDescriptor 267
  anycast : (byteBits (payload (cellOf full)))[2]? = some false
  ending : ((byteBits (payload (cellOf full))).drop 267).take 5 = [true, false, false, false, false]

/-- The size's bytes lie inside the bag; a cell whose layout passes ends before the
numbers overflow and has a descriptor, and a byte of data if the descriptor says so; and
where it carries an address, the rest of the bag is regular. -/
def Admissible (jdk : Jdk) (full : Bytes) : Prop :=
  Sealed jdk full →
    (offsetBytes full = 0 ∨ sizeStart full + offsetBytes full ≤ full.length)
      ∧ (LaidOut full →
          cellStart full ≤ full.length
            ∧ cellStart full + int32 (totalCellSize full) < 2 ^ 31
            ∧ 2 ≤ int32 (totalCellSize full)
            ∧ (descriptor (cellOf full) = bitsDescriptor 267 → 3 ≤ int32 (totalCellSize full))
            ∧ (CarriesAddress (cellOf full) → Regular full))

/-! ## Numbers of the header -/

section Fields

variable {full : Bytes}

theorem byteAt_of_lt {i : Nat} (h : i < full.length) :
    byteAt full i = .ok (full.getD i 0).toNat := by
  have hnonneg : ¬ (i : Int) < 0 := by omega
  rw [byteAt, if_neg hnonneg, Int.toNat_natCast, List.getElem?_eq_getElem h]
  simp [orThrow, List.getD_eq_getElem?_getD, h]

theorem byteAt_of_le {i : Nat} (h : full.length ≤ i) : byteAt full i = .error outOfBounds := by
  have hnonneg : ¬ (i : Int) < 0 := by omega
  rw [byteAt, if_neg hnonneg, Int.toNat_natCast, List.getElem?_eq_none h]
  rfl

/-- A field of one byte more. -/
theorem field_succ {offset n : Nat} (h : offset + n < full.length) :
    field full offset (n + 1) = field full offset n * 256 + (full.getD (offset + n) 0).toNat := by
  have hbyte : (full.drop offset)[n]? = some (full.getD (offset + n) 0) := by
    rw [List.getElem?_drop, List.getElem?_eq_getElem h]
    simp [List.getD_eq_getElem?_getD, h]
  unfold field Buffer.Reading.ofBigEndian
  rw [List.take_add_one, hbyte, List.foldl_append]
  rfl

/-- Four more steps of the shift do not see what has overflowed. -/
theorem int32_push (v : Int) (b : Nat) : int32 (int32 v * 256 + b) = int32 (v * 256 + b) := by
  unfold int32
  rw [← Int.bmod_add_bmod, Int.bmod_mul_bmod, Int.bmod_add_bmod]

/-- The decoder's number of a field, or an access past the end. -/
theorem readBeUint_eq (full : Bytes) (offset n : Nat) :
    readBeUint full offset n
      = if n = 0 ∨ offset + n ≤ full.length then .ok (int32 (field full offset n))
        else .error outOfBounds := by
  induction n with
  | zero =>
      have hzero : int32 ((0 : Nat) : Int) = 0 := by decide
      rw [if_pos (Or.inl rfl)]
      exact congrArg Except.ok hzero.symm
  | succ n ih =>
      have hstep : readBeUint full offset (n + 1) = (do
          let v ← readBeUint full offset n
          let b ← byteAt full (offset + n : Nat)
          .ok (int32 (v * 256 + b))) := by
        have hcast : ∀ l : List Nat, (do let a ← l; pure (a : Int)) = l.map Int.ofNat := by
          intro l
          exact (List.map_eq_flatMap).symm
        unfold readBeUint
        rw [hcast, hcast, List.range_succ, List.map_append, List.foldlM_append]
        simp
      rw [hstep, ih]
      by_cases hn : offset + n < full.length
      · rw [if_pos (Or.inr (by omega)), if_pos (Or.inr (by omega)), ok_bind, byteAt_of_lt hn,
          ok_bind, int32_push, field_succ hn]
        congr 2
      · rw [if_neg (c := n + 1 = 0 ∨ offset + (n + 1) ≤ full.length) (by omega),
          byteAt_of_le (by omega)]
        split <;> rfl

end Fields

/-! ## Reading to the end -/

namespace BitReader

/-- The reader gives these bits and then fails with `e`. -/
def Yields (e : String) : BitReader → List Bool → Prop
  | r, [] => r.readBit = .error e
  | r, b :: l => ∃ r', r.readBit = .ok (b, r') ∧ Yields e r' l

/-- Out of the declared bits, or out of the array when it is shorter. -/
def exhausted (r : BitReader) : String :=
  if (byteBits r.data).length < r.bitLen then outOfBounds else "Unexpected end of address bits"

variable {e : String} {r : BitReader} {l : List Bool}

theorem yields_ahead (h : r.pos ≤ (byteBits r.data).length) : Yields r.exhausted r r.ahead := by
  generalize hl : r.ahead = l
  induction l generalizing r with
  | nil =>
      have hlen := congrArg List.length hl
      rw [ahead, List.length_drop, List.length_take, List.length_nil] at hlen
      show r.readBit = .error r.exhausted
      unfold readBit exhausted
      by_cases hshort : (byteBits r.data).length < r.bitLen
      · rw [if_pos hshort, if_neg (by omega), List.getElem?_eq_none (by omega)]
        rfl
      · rw [if_neg hshort, if_pos (by omega)]
  | cons b l ih =>
      have hlen := congrArg List.length hl
      rw [ahead, List.length_drop, List.length_take, List.length_cons] at hlen
      have hpos : r.pos < ((byteBits r.data).take r.bitLen).length := by
        rw [List.length_take]
        omega
      rw [ahead, List.drop_eq_getElem_cons hpos] at hl
      obtain ⟨hbit, hrest⟩ := List.cons.inj hl
      rw [List.getElem_take] at hbit
      have hat : (byteBits r.data)[r.pos]? = some b := by
        rw [List.getElem?_eq_getElem (by omega), hbit]
      refine ⟨{ r with pos := r.pos + 1 }, ?_, ?_⟩
      · rw [readBit, if_neg (by omega), hat]
        rfl
      · have hnext : ({ r with pos := r.pos + 1 } : BitReader).pos ≤ (byteBits r.data).length := by
          show r.pos + 1 ≤ _
          omega
        exact ih hnext hrest

theorem readUint_yields {n : Nat} (h : Yields e r l) :
    (n ≤ l.length → ∃ r', r.readUint n = .ok (bitsToNat (l.take n), r') ∧ Yields e r' (l.drop n))
      ∧ (l.length < n → r.readUint n = .error e) := by
  have hall : ∀ (n : Nat) (l : List Bool) (r : BitReader) (v : Nat), Yields e r l →
      (n ≤ l.length → ∃ r', r.readUintFrom v n
          = .ok ((l.take n).foldl (fun a b => 2 * a + b.toNat) v, r') ∧ Yields e r' (l.drop n))
        ∧ (l.length < n → r.readUintFrom v n = .error e) := by
    intro n
    induction n with
    | zero => exact fun l r v h => ⟨fun _ => ⟨r, rfl, h⟩, fun hlt => absurd hlt (Nat.not_lt_zero _)⟩
    | succ n ih =>
        intro l r v h
        cases l with
        | nil =>
            refine ⟨fun hle => absurd hle (Nat.not_succ_le_zero n), fun _ => ?_⟩
            rw [readUintFrom, show r.readBit = .error e from h, error_bind]
        | cons b l =>
            obtain ⟨r₁, hread, hrest⟩ := h
            obtain ⟨henough, hshort⟩ := ih l r₁ (2 * v + b.toNat) hrest
            rw [readUintFrom, hread, ok_bind]
            exact ⟨fun hle => henough (Nat.le_of_succ_le_succ hle),
              fun hlt => hshort (Nat.lt_of_succ_lt_succ hlt)⟩
  exact hall n l r 0 h

/-- A whole byte, as a byte. -/
theorem packBytes_eight {l : List Bool} (h : 8 ≤ l.length) :
    packBytes l = .ofNat (bitsToNat (l.take 8)) :: packBytes (l.drop 8) := by
  have hne : l.isEmpty = false := by
    cases l with
    | nil => exact absurd h (by decide)
    | cons b l => rfl
  rw [packBytes, hne, if_neg Bool.false_ne_true, Nat.sub_eq_zero_of_le h, List.replicate_zero,
    List.append_nil]

theorem readBytes_yields {n : Nat} (h : Yields e r l) :
    (8 * n ≤ l.length → ∃ r', r.readBytes n = .ok (packBytes (l.take (8 * n)), r'))
      ∧ (l.length < 8 * n → r.readBytes n = .error e) := by
  induction n generalizing r l with
  | zero =>
      refine ⟨fun _ => ⟨r, ?_⟩, fun hlt => absurd hlt (Nat.not_lt_zero _)⟩
      rw [Nat.mul_zero, List.take_zero, packBytes_nil]
      rfl
  | succ n ih =>
      obtain ⟨henough, hshort⟩ := @readUint_yields e r l 8 h
      by_cases height : 8 ≤ l.length
      · obtain ⟨r₁, hread, hrest⟩ := henough height
        obtain ⟨hmore, hfew⟩ := ih hrest
        rw [List.length_drop] at hmore hfew
        constructor
        · intro hle
          obtain ⟨r₂, hbytes⟩ := hmore (by omega)
          have hpack : packBytes (l.take (8 * (n + 1)))
              = .ofNat (bitsToNat (l.take 8)) :: packBytes ((l.drop 8).take (8 * n)) := by
            rw [packBytes_eight (by rw [List.length_take]; omega), List.take_take, List.drop_take,
              Nat.min_eq_left (by omega)]
            rfl
          refine ⟨r₂, ?_⟩
          rw [readBytes, hread, ok_bind]
          dsimp only
          rw [hbytes, ok_bind, hpack]
        · intro hlt
          rw [readBytes, hread, ok_bind]
          dsimp only
          rw [hfew (by omega), error_bind]
      · refine ⟨fun hle => absurd hle (by omega), fun _ => ?_⟩
        rw [readBytes, hshort (by omega), error_bind]

end BitReader

/-! ## Reading an address -/

/-- The decoder's steps on the data. -/
def readAddress (br : BitReader) : Except String String := do
  let (tag, br) ← br.readUint 2
  require (tag = 2) s!"Unexpected address tag bits: {tag}"
  let (_, br) ← br.readBit
  let (wc, br) ← br.readInt 8
  let (hash, _) ← br.readBytes 32
  .ok (rawText wc hash)

/-- The address that these bits write after the tag and the bit for an anycast. -/
def addressOf (l : List Bool) : ParsedAddress :=
  ⟨(bitsToNat ((l.drop 3).take 8) : Int).bmod 256, packBytes ((l.drop 11).take 256)⟩

theorem tag_isTonRpc (a b : Bool) :
    isTonRpcException s!"Unexpected address tag bits: {bitsToNat [a, b]}" := by
  cases a <;> cases b <;> exact ⟨by decide, by decide⟩

section Reading

variable {e : String} {r : BitReader} {l : List Bool}

theorem readAddress_nil (h : BitReader.Yields e r []) : readAddress r = .error e := by
  rw [readAddress, (@BitReader.readUint_yields e r [] 2 h).2 (by decide), error_bind]

/-- Without the tag of a standard address. -/
theorem readAddress_other {a b : Bool} (h : BitReader.Yields e r (a :: b :: l))
    (htag : ¬ (a = true ∧ b = false)) :
    ∃ e', readAddress r = .error e' ∧ isTonRpcException e' := by
  obtain ⟨r₁, hread, -⟩ := (@BitReader.readUint_yields e r _ 2 h).1 (by simp)
  refine ⟨_, ?_, tag_isTonRpc a b⟩
  have hne : bitsToNat [a, b] ≠ 2 := by
    cases a <;> cases b <;> simp_all [bitsToNat]
  rw [readAddress, hread, ok_bind]
  show (require (bitsToNat [a, b] = 2) _ >>= _) = _
  rw [require, if_neg hne, error_bind]
  rfl

theorem readAddress_tagged (h : BitReader.Yields e r (true :: false :: l)) :
    readAddress r = if 267 ≤ (true :: false :: l).length
      then .ok (rawText (addressOf (true :: false :: l)).workchain
        (addressOf (true :: false :: l)).hash)
      else .error e := by
  obtain ⟨r₁, hread, h₁⟩ := (@BitReader.readUint_yields e r _ 2 h).1 (by simp)
  have htwo : bitsToNat [true, false] = 2 := rfl
  rw [readAddress, hread, ok_bind]
  show (require (bitsToNat [true, false] = 2) _ >>= _) = _
  rw [require, if_pos htwo, ok_bind]
  cases l with
  | nil =>
      have hend : r₁.readBit = .error e := h₁
      rw [hend, error_bind, if_neg (by decide)]
  | cons c l =>
      obtain ⟨r₂, hbit, h₂⟩ := h₁
      rw [hbit, ok_bind]
      dsimp only
      obtain ⟨hwc, hnowc⟩ := @BitReader.readUint_yields e r₂ l 8 h₂
      by_cases height : 8 ≤ l.length
      · obtain ⟨r₃, hwc, h₃⟩ := hwc height
        obtain ⟨hhash, hnohash⟩ := @BitReader.readBytes_yields e r₃ (l.drop 8) 32 h₃
        rw [BitReader.readInt, hwc, ok_bind]
        show (r₃.readBytes 32 >>= _) = _
        rw [List.length_drop] at hhash hnohash
        by_cases hlen : 267 ≤ (true :: false :: c :: l).length
        · rw [if_pos hlen]
          simp only [List.length_cons] at hlen
          obtain ⟨r₄, hhash⟩ := hhash (by omega)
          rw [hhash, ok_bind]
          rfl
        · rw [if_neg hlen]
          simp only [List.length_cons] at hlen
          rw [hnohash (by omega), error_bind]
      · have hshort : ¬ 267 ≤ (true :: false :: c :: l).length := by
          simp only [List.length_cons]
          omega
        rw [BitReader.readInt, hnowc (by omega), error_bind, error_bind, if_neg hshort]

/-- Running out of the declared bits, or another tag. -/
theorem readAddress_refused (h : BitReader.Yields e r l) (he : isTonRpcException e)
    (hl : l.take 2 = [true, false] → l.length < 267) :
    ∃ e', readAddress r = .error e' ∧ isTonRpcException e' := by
  by_cases htwo : l.length < 2
  · refine ⟨e, ?_, he⟩
    rw [readAddress, (BitReader.readUint_yields h).2 htwo, error_bind]
  · obtain ⟨a, b, l, rfl⟩ : ∃ a b l', l = a :: b :: l' := by
      cases l with
      | nil => exact absurd Nat.two_pos htwo
      | cons a l =>
          cases l with
          | nil => exact absurd Nat.one_lt_two htwo
          | cons b l => exact ⟨a, b, l, rfl⟩
    by_cases htag : a = true ∧ b = false
    · obtain ⟨rfl, rfl⟩ := htag
      refine ⟨e, ?_, he⟩
      rw [readAddress_tagged h, if_neg (Nat.not_le_of_lt (hl rfl))]
    · exact readAddress_other h htag

end Reading

/-! ## The length of the data -/

theorem byteBits_length (bytes : Bytes) : (byteBits bytes).length = 8 * bytes.length := by
  induction bytes with
  | nil => rfl
  | cons x bytes ih =>
      rw [byteBits, List.flatMap_cons, List.length_append, natToBits_length, List.length_cons]
      show 8 + (byteBits bytes).length = _
      omega

theorem byteBits_append (a b : Bytes) : byteBits (a ++ b) = byteBits a ++ byteBits b :=
  List.flatMap_append

/-- A zero byte has no one bit. -/
theorem not_mem_byteBits {bytes : Bytes} (h : ∀ x ∈ bytes, x = 0) : true ∉ byteBits bytes := by
  intro hmem
  obtain ⟨x, hx, hbit⟩ := List.mem_flatMap.mp hmem
  rw [h x hx] at hbit
  exact absurd hbit (by decide)

/-- The byte's lowest one bit, and zeros after it. -/
theorem lowestOneBit_spec : ∀ b < 256, b ≠ 0 → lowestOneBit b ≤ 8
    ∧ (natToBits 8 b).drop (8 - lowestOneBit b)
      = true :: List.replicate (lowestOneBit b - 1) false := by
  decide +kernel

/-- The first hit from the end. -/
theorem find?_reverse_range {f : Nat → Bool} {n i : Nat}
    (h : (List.range n).reverse.find? f = some i) :
    i < n ∧ f i = true ∧ ∀ j, i < j → j < n → f j = false := by
  induction n with
  | zero => cases h
  | succ n ih =>
      rw [List.range_succ, List.reverse_append, List.reverse_singleton, List.singleton_append,
        List.find?_cons] at h
      cases hf : f n with
      | true =>
          rw [hf] at h
          obtain rfl := Option.some.inj h
          exact ⟨Nat.lt_succ_self n, hf, fun j hlt hle => absurd hlt (by omega)⟩
      | false =>
          rw [hf] at h
          obtain ⟨hlt, hi, hafter⟩ := ih h
          refine ⟨by omega, hi, fun j hj hjn => ?_⟩
          rcases Nat.lt_succ_iff_lt_or_eq.mp hjn with hjn | rfl
          · exact hafter j hj hjn
          · exact hf

/-- The data ends before the last one bit of the payload. -/
theorem bitLength_of_marker {padded : Bytes} {d2 : Nat} (hd2 : bitsDescriptor 267 ≠ d2) :
    (bitLengthFromPaddedPayload padded d2 = .error "Empty cell payload"
        ∧ true ∉ byteBits padded)
      ∨ ∃ n, bitLengthFromPaddedPayload padded d2 = .ok n ∧ n < (byteBits padded).length
        ∧ ∃ l, (byteBits padded).drop n = true :: l ∧ true ∉ l := by
  unfold bitLengthFromPaddedPayload
  rw [if_neg hd2]
  cases hfind : (List.range padded.length).reverse.find? fun i => padded.getD i 0 != 0 with
  | none =>
      refine .inl ⟨rfl, not_mem_byteBits fun x hx => ?_⟩
      obtain ⟨i, hi, rfl⟩ := List.getElem_of_mem hx
      have hzero := List.find?_eq_none.mp hfind i (by simpa using hi)
      simpa [List.getD_eq_getElem?_getD, hi] using hzero
  | some i =>
      obtain ⟨hi, hne, hafter⟩ := find?_reverse_range hfind
      have hget : padded.getD i 0 = padded[i] := by simp [List.getD_eq_getElem?_getD, hi]
      rw [hget] at hne
      have hpos : padded[i].toNat ≠ 0 := fun hzero =>
        (bne_iff_ne.mp hne) (UInt8.toNat_inj.mp hzero)
      obtain ⟨hle, hdrop⟩ := lowestOneBit_spec padded[i].toNat padded[i].toNat_lt hpos
      have hsplit : padded = padded.take i ++ padded[i] :: padded.drop (i + 1) := by
        rw [← List.drop_eq_getElem_cons hi, List.take_append_drop]
      have hzeros : true ∉ byteBits (padded.drop (i + 1)) := by
        refine not_mem_byteBits fun x hx => ?_
        obtain ⟨j, hj, rfl⟩ := List.getElem_of_mem hx
        rw [List.length_drop] at hj
        have hfalse := hafter (i + 1 + j) (by omega) (by omega)
        rw [List.getElem_drop]
        simpa [List.getD_eq_getElem?_getD, show i + 1 + j < padded.length by omega] using hfalse
      have hbits : (byteBits padded).drop (i * 8)
          = natToBits 8 padded[i].toNat ++ byteBits (padded.drop (i + 1)) := by
        have hlen : (byteBits (padded.take i)).length = i * 8 := by
          rw [byteBits_length, List.length_take, Nat.min_eq_left (by omega), Nat.mul_comm]
        rw [congrArg byteBits hsplit, byteBits_append, List.drop_left' hlen]
        rfl
      refine .inr ⟨i * 8 + (8 - lowestOneBit padded[i].toNat), ?_, ?_,
        List.replicate (lowestOneBit padded[i].toNat - 1) false
          ++ byteBits (padded.drop (i + 1)), ?_, ?_⟩
      · show Except.ok (i * 8 + (8 - lowestOneBit (padded.getD i 0).toNat)) = _
        rw [hget]
      · have hone : 1 ≤ lowestOneBit padded[i].toNat := Nat.le_add_left 1 _
        rw [byteBits_length]
        omega
      · rw [← List.drop_drop, hbits, List.drop_append_of_le_length (by simp), hdrop]
        rfl
      · rw [List.mem_append]
        rintro (hmem | hmem)
        · exact absurd (List.eq_of_mem_replicate hmem) (by decide)
        · exact hzeros hmem

/-- Where the data ends by the last one bit, a bit stands past an offset exactly when
the data reaches it. -/
theorem mem_drop_iff {bits l : List Bool} {m n : Nat} (h : bits.drop n = true :: l)
    (hl : true ∉ l) : true ∈ bits.drop m ↔ m ≤ n := by
  constructor
  · intro hmem
    by_contra hlt
    have hdrop : bits.drop m = l.drop (m - n - 1) := by
      have hm : m = n + (m - n - 1 + 1) := by omega
      rw [hm, ← List.drop_drop, h, List.drop_succ_cons]
      congr 1
      omega
    rw [hdrop] at hmem
    exact hl (List.mem_of_mem_drop hmem)
  · intro hle
    have hn : n = m + (n - m) := by omega
    rw [hn, ← List.drop_drop] at h
    exact List.mem_of_mem_drop (h ▸ List.mem_cons_self)

/-! ## Reading a cell -/

/-- The decoder's steps on the copied cell. -/
def readCell (cell : Bytes) : Except String String := do
  let d2 ← byteAt cell 1
  let padded ← copyOfRange cell 2 cell.length
  let bitLen ← bitLengthFromPaddedPayload padded d2
  readAddress ⟨padded, bitLen, 0⟩

/-- An address is in the first 267 bits. -/
theorem addressOf_take {l : List Bool} {n : Nat} (h : 267 ≤ n) :
    addressOf (l.take n) = addressOf l := by
  unfold addressOf
  rw [List.drop_take, List.drop_take, List.take_take, List.take_take, Nat.min_eq_left (by omega),
    Nat.min_eq_left (by omega)]

section Cells

variable {cell : Bytes}

theorem readCell_short (h : cell.length < 2) : readCell cell = .error outOfBounds := by
  have hbyte : byteAt cell 1 = .error outOfBounds := byteAt_of_le (i := 1) (by omega)
  rw [readCell, hbyte, error_bind]

theorem readCell_eq (h : 2 ≤ cell.length) :
    readCell cell = (do
      let bitLen ← bitLengthFromPaddedPayload (payload cell) (descriptor cell)
      readAddress ⟨payload cell, bitLen, 0⟩) := by
  have hbyte : byteAt cell 1 = .ok (descriptor cell) := byteAt_of_lt (i := 1) (by omega)
  have hlen : (cell.length : Int) = ((cell.take 2).length : Int) + (payload cell).length := by
    rw [payload, List.length_take, List.length_drop]
    omega
  have htwo : (2 : Int) = (cell.take 2).length := by
    rw [List.length_take, Nat.min_eq_left h]
    rfl
  have hcopy : copyOfRange cell 2 cell.length = .ok (payload cell) := by
    have hall := @copyOfRange_eq (cell.take 2) (payload cell) [] 2 cell.length htwo hlen
    rwa [List.append_nil, payload, List.take_append_drop] at hall
  rw [readCell, hbyte, ok_bind, hcopy, ok_bind]

theorem yields_start (padded : Bytes) (n : Nat) :
    BitReader.Yields (BitReader.mk padded n 0).exhausted ⟨padded, n, 0⟩
      ((byteBits padded).take n) := by
  have h := @BitReader.yields_ahead ⟨padded, n, 0⟩ (Nat.zero_le _)
  rwa [BitReader.ahead, List.drop_zero] at h

/-- A descriptor of 267 bits, and no data. -/
theorem readCell_bare (h : cell.length = 2) (hd2 : descriptor cell = bitsDescriptor 267) :
    readCell cell = .error outOfBounds := by
  have hpayload : payload cell = [] := List.drop_eq_nil_of_le (Nat.le_of_eq h)
  rw [readCell_eq (Nat.le_of_eq h.symm), hd2, hpayload]
  exact readAddress_nil (yields_start [] 267)

/-- A cell that carries an address gives it, or runs out of its array. -/
theorem readCell_carries (h : 2 ≤ cell.length) (hc : CarriesAddress cell) :
    readCell cell = if 267 ≤ (byteBits (payload cell)).length
      then .ok (rawText (addressOf (byteBits (payload cell))).workchain
        (addressOf (byteBits (payload cell))).hash)
      else .error outOfBounds := by
  obtain ⟨htag, hend⟩ := hc
  have hread : ∀ n, 267 ≤ n → (n ≤ (byteBits (payload cell)).length ∨ n = 267) →
      readAddress ⟨payload cell, n, 0⟩ = if 267 ≤ (byteBits (payload cell)).length
        then .ok (rawText (addressOf (byteBits (payload cell))).workchain
          (addressOf (byteBits (payload cell))).hash)
        else .error outOfBounds := by
    intro n hn hbound
    have hstart := yields_start (payload cell) n
    have htwo : ((byteBits (payload cell)).take n).take 2 = [true, false] := by
      rw [List.take_take, Nat.min_eq_left (by omega), htag]
    have hcons : ∃ l, (byteBits (payload cell)).take n = true :: false :: l := by
      refine ⟨((byteBits (payload cell)).take n).drop 2, ?_⟩
      conv_lhs => rw [← List.take_append_drop 2 ((byteBits (payload cell)).take n), htwo]
      rfl
    obtain ⟨l, hl⟩ := hcons
    rw [hl] at hstart
    have hlen : (true :: false :: l).length = min n (byteBits (payload cell)).length := by
      rw [← hl, List.length_take]
    rw [readAddress_tagged hstart, hlen, ← hl, addressOf_take hn]
    by_cases henough : 267 ≤ (byteBits (payload cell)).length
    · rw [if_pos henough, if_pos (by omega)]
    · rw [if_neg henough, if_neg (by omega), BitReader.exhausted, if_pos (by
        show (byteBits (payload cell)).length < n
        omega)]
  rw [readCell_eq h]
  by_cases hd2 : bitsDescriptor 267 = descriptor cell
  · rw [bitLengthFromPaddedPayload, if_pos hd2, ok_bind]
    exact hread 267 (Nat.le_refl _) (.inr rfl)
  · rcases bitLength_of_marker hd2 with ⟨-, hnone⟩ | ⟨n, hn, hlt, l, hdrop, hl⟩
    · exact absurd (List.mem_of_mem_drop (hend.resolve_left (Ne.symm hd2))) hnone
    · rw [hn, ok_bind]
      exact hread n ((mem_drop_iff hdrop hl).mp (hend.resolve_left (Ne.symm hd2)))
        (.inl (Nat.le_of_lt hlt))

/-- Every other cell with a byte of data is refused. -/
theorem readCell_other (h : 2 ≤ cell.length) (hc : ¬ CarriesAddress cell)
    (hdata : descriptor cell = bitsDescriptor 267 → 3 ≤ cell.length) :
    ∃ e, readCell cell = .error e ∧ isTonRpcException e := by
  have hend : isTonRpcException "Unexpected end of address bits" := ⟨by decide, by decide⟩
  have hempty : isTonRpcException "Empty cell payload" := ⟨by decide, by decide⟩
  rw [readCell_eq h]
  by_cases hd2 : bitsDescriptor 267 = descriptor cell
  · rw [bitLengthFromPaddedPayload, if_pos hd2, ok_bind]
    have hstart := yields_start (payload cell) 267
    have hlen : 8 ≤ (byteBits (payload cell)).length := by
      have := hdata hd2.symm
      rw [byteBits_length, payload, List.length_drop]
      omega
    generalize hbits : byteBits (payload cell) = bits at hstart hlen
    cases bits with
    | nil => exact absurd hlen (by decide)
    | cons a bits =>
        cases bits with
        | nil => exact absurd hlen (by simp)
        | cons b bits =>
            refine readAddress_other hstart ?_
            rintro ⟨rfl, rfl⟩
            exact hc ⟨by rw [hbits]; rfl, .inl hd2.symm⟩
  · rcases bitLength_of_marker hd2 with ⟨hn, -⟩ | ⟨n, hn, hlt, l, hdrop, hl⟩
    · rw [hn, error_bind]
      exact ⟨_, rfl, hempty⟩
    · rw [hn, ok_bind]
      have hstart := yields_start (payload cell) n
      rw [BitReader.exhausted, if_neg (by
        show ¬ (byteBits (payload cell)).length < n
        omega)] at hstart
      have hshort : (byteBits (payload cell)).take 2 = [true, false] → n < 267 := by
        intro htag
        by_contra hge
        exact hc ⟨htag, .inr ((mem_drop_iff hdrop hl).mpr (by omega))⟩
      refine readAddress_refused hstart hend fun htag => ?_
      have htwo : 2 ≤ n := by
        have hlen := congrArg List.length htag
        simp only [List.length_take, List.length_cons, List.length_nil] at hlen
        omega
      rw [List.take_take, Nat.min_eq_left htwo] at htag
      rw [List.length_take, Nat.min_eq_left (Nat.le_of_lt hlt)]
      exact hshort htag

end Cells

/-! ## Reading a bag -/

/-- The decoder's steps after the header. -/
def readLaidOut (full : Bytes) (total : Int) : Except String String := do
  require (int32 (cellsNum full) = 1 ∧ 0 < total
    ∧ int32 (cellStart full + total + 4) ≤ full.length) "Invalid BoC layout"
  let cell ← copyOfRange full (cellStart full) (int32 (cellStart full + total))
  readCell cell

section Bags

variable {jdk : Jdk} {full : Bytes}

theorem cellStart_lt (full : Bytes) : cellStart full < 290 := by
  have hoffset : offsetBytes full < 256 := UInt8.toNat_lt _
  have hsize : sizeBytes full < 8 := Nat.mod_lt _ (by decide)
  unfold cellStart sizeStart
  omega

/-- The first checks fail with a `TonRpcException`. -/
theorem decode_unsealed (h : ¬ Sealed jdk full) :
    ∃ e, decodeRawAddressFromSingleRootBoc jdk (String.ofList (encode full)) = .error e
      ∧ isTonRpcException e := by
  rw [decodeRawAddressFromSingleRootBoc, String.toList_ofList, decode_encode]
  simp only [orThrow, ok_bind]
  by_cases hlen : 16 ≤ full.length
  · rw [require_pos hlen, ok_bind]
    by_cases hcrc : crcBytes (jdk.crc32c (full.take (full.length - 4)))
        = full.drop (full.length - 4)
    · rw [require_pos hcrc, ok_bind]
      have hmeta : byteAt full 4 = .ok (full.getD 4 0).toNat := byteAt_of_lt (i := 4) (by omega)
      have hzero : ¬ 0 < (full.getD 4 0).toNat % 8 := fun hpos => h ⟨hlen, hcrc, hpos⟩
      rw [hmeta, ok_bind, require, if_neg hzero, error_bind]
      exact ⟨_, rfl, by decide, by decide⟩
    · rw [require, if_neg hcrc, error_bind]
      exact ⟨_, rfl, by decide, by decide⟩
  · rw [require, if_neg hlen, error_bind]
    exact ⟨_, rfl, by decide, by decide⟩

theorem decode_sealed (h : Sealed jdk full) :
    decodeRawAddressFromSingleRootBoc jdk (String.ofList (encode full))
      = (readBeUint full (sizeStart full) (offsetBytes full) >>= readLaidOut full) := by
  obtain ⟨hlen, hcrc, hsize⟩ := h
  have hmeta : byteAt full 4 = .ok (full.getD 4 0).toNat := byteAt_of_lt (i := 4) (by omega)
  have hoffset : byteAt full 5 = .ok (offsetBytes full) := byteAt_of_lt (i := 5) (by omega)
  have hlt : sizeBytes full < 8 := Nat.mod_lt _ (by decide)
  have hcells : readBeUint full 6 (sizeBytes full) = .ok (int32 (cellsNum full)) := by
    have hread := readBeUint_eq full 6 (sizeBytes full)
    rw [if_pos (.inr (by omega))] at hread
    exact hread
  have hsum : (6 : Int) + 3 * (sizeBytes full : Int) = (sizeStart full : Int) := by
    unfold sizeStart
    omega
  have hstart : (sizeStart full : Int) + (offsetBytes full : Int) + (sizeBytes full : Int)
      = (cellStart full : Int) := by
    unfold cellStart
    omega
  rw [decodeRawAddressFromSingleRootBoc, String.toList_ofList, decode_encode]
  simp only [orThrow, ok_bind]
  rw [require_pos hlen, ok_bind, require_pos hcrc, ok_bind, hmeta, ok_bind]
  show (require (0 < sizeBytes full) _ >>= _) = _
  rw [require_pos hsize, ok_bind, hoffset, ok_bind]
  show (readBeUint full 6 (sizeBytes full) >>= _) = _
  rw [hcells, ok_bind]
  show (readBeUint full (6 + 3 * (sizeBytes full : Int)) (offsetBytes full) >>= _) = _
  rw [hsum]
  refine congrArg _ (funext fun total => ?_)
  show (require (int32 (cellsNum full) = 1 ∧ 0 < total
    ∧ int32 ((sizeStart full : Int) + (offsetBytes full : Int) + (sizeBytes full : Int) + total + 4)
      ≤ full.length) _ >>= _) = _
  rw [hstart]
  rfl

/-- The size's bytes are not all there. -/
theorem decode_outside (h : Sealed jdk full)
    (hout : ¬ (offsetBytes full = 0 ∨ sizeStart full + offsetBytes full ≤ full.length)) :
    decodeRawAddressFromSingleRootBoc jdk (String.ofList (encode full)) = .error outOfBounds := by
  rw [decode_sealed h, readBeUint_eq, if_neg hout, error_bind]

theorem decode_misplaced (h : Sealed jdk full)
    (hin : offsetBytes full = 0 ∨ sizeStart full + offsetBytes full ≤ full.length)
    (hlaid : ¬ LaidOut full) :
    ∃ e, decodeRawAddressFromSingleRootBoc jdk (String.ofList (encode full)) = .error e
      ∧ isTonRpcException e := by
  refine ⟨"Invalid BoC layout", ?_, by decide, by decide⟩
  rw [decode_sealed h, readBeUint_eq, if_pos hin, ok_bind]
  show readLaidOut full (int32 (totalCellSize full)) = _
  unfold LaidOut at hlaid
  rw [readLaidOut, require, if_neg hlaid, error_bind]

theorem decode_laidOut (h : Sealed jdk full)
    (hin : offsetBytes full = 0 ∨ sizeStart full + offsetBytes full ≤ full.length)
    (hlaid : LaidOut full) :
    decodeRawAddressFromSingleRootBoc jdk (String.ofList (encode full))
      = (copyOfRange full (cellStart full) (int32 (cellStart full + int32 (totalCellSize full)))
          >>= readCell) := by
  rw [decode_sealed h, readBeUint_eq, if_pos hin, ok_bind]
  show readLaidOut full (int32 (totalCellSize full)) = _
  unfold LaidOut at hlaid
  rw [readLaidOut, require_pos hlaid, ok_bind]

theorem int32_lt (x : Int) : int32 x < 2 ^ 31 := by
  have h := @Int.bmod_lt x (2 ^ 32) (by decide)
  unfold int32
  omega

/-- The end of the cell overflows: the range is reversed. -/
theorem copy_overflow (hpos : 0 < int32 (totalCellSize full))
    (h : ¬ cellStart full + int32 (totalCellSize full) < 2 ^ 31) :
    copyOfRange full (cellStart full) (int32 (cellStart full + int32 (totalCellSize full)))
      = .error "IllegalArgumentException" := by
  have hlt := int32_lt (totalCellSize full)
  have hstart := cellStart_lt full
  have hneg : int32 (cellStart full + int32 (totalCellSize full)) < 0 := by
    generalize int32 (totalCellSize full) = total at h hlt hpos
    unfold int32
    rw [Int.bmod_def]
    split <;> omega
  rw [copyOfRange, if_pos (by omega)]

theorem stop_eq (hpos : 0 < int32 (totalCellSize full))
    (h : cellStart full + int32 (totalCellSize full) < 2 ^ 31) :
    int32 (cellStart full + int32 (totalCellSize full))
      = cellStart full + int32 (totalCellSize full) := by
  generalize int32 (totalCellSize full) = total at h hpos
  exact Int.bmod_eq_of_le (by omega) (by omega)

/-- The copied cell. -/
theorem copy_cell (hpos : 0 < int32 (totalCellSize full))
    (h : cellStart full + int32 (totalCellSize full) < 2 ^ 31) :
    copyOfRange full (cellStart full) (int32 (cellStart full + int32 (totalCellSize full)))
      = if cellStart full ≤ full.length then .ok (cellOf full) else .error outOfBounds := by
  rw [stop_eq hpos h, copyOfRange, if_neg (by omega)]
  by_cases hle : cellStart full ≤ full.length
  · rw [if_neg (by omega), if_pos hle]
    have hn : ((cellStart full : Int) + int32 (totalCellSize full) - cellStart full).toNat
        = (int32 (totalCellSize full)).toNat := by omega
    dsimp only
    rw [hn, Int.toNat_natCast]
    rfl
  · rw [if_pos (by omega), if_neg hle]

theorem cellOf_length (full : Bytes) :
    (cellOf full).length = (int32 (totalCellSize full)).toNat := by
  unfold cellOf
  dsimp only
  rw [List.length_append, List.length_replicate, List.length_take]
  omega

/-- A cell that fills the bag is copied as it is. -/
theorem cellOf_eq (hsize : cellStart full + totalCellSize full + 4 = full.length)
    (htotal : totalCellSize full < 2 ^ 31) :
    int32 (totalCellSize full) = totalCellSize full
      ∧ cellOf full = (full.drop (cellStart full)).take (totalCellSize full)
      ∧ (cellOf full).length = totalCellSize full := by
  have hint : int32 (totalCellSize full) = totalCellSize full :=
    Int.bmod_eq_of_le (by omega) (by omega)
  have hlen : ((full.drop (cellStart full)).take (totalCellSize full)).length
      = totalCellSize full := by
    rw [List.length_take, List.length_drop]
    omega
  refine ⟨hint, ?_, ?_⟩
  · unfold cellOf
    dsimp only
    rw [hint, Int.toNat_natCast, hlen, Nat.sub_self, List.replicate_zero, List.append_nil]
  · rw [cellOf_length, hint, Int.toNat_natCast]

end Bags

/-! ## Regular bags -/

section Regularity

variable {full : Bytes} {p : ParsedAddress}

theorem refs_le (d1 : UInt8) (full : Bytes) : d1.toNat % 8 * sizeBytes full ≤ 7 * 7 := by
  have hrefs : d1.toNat % 8 ≤ 7 := Nat.le_of_lt_succ (Nat.mod_lt _ (by decide))
  have hsize : sizeBytes full ≤ 7 := Nat.le_of_lt_succ (Nat.mod_lt _ (by decide))
  exact Nat.mul_le_mul hrefs hsize

theorem getD_of_take {start n : Nat} {x : UInt8} {l : Bytes}
    (h : (full.drop start).take n = x :: l) : full.getD start 0 = x := by
  have hn : 0 < n := by
    cases n with
    | zero => cases h
    | succ n => exact Nat.succ_pos n
  have hget := congrArg (·[0]?) h
  simp only [List.getElem?_take_of_lt hn, List.getElem?_drop, List.getElem?_cons_zero,
    Nat.add_zero] at hget
  rw [List.getD_eq_getElem?_getD, hget]
  rfl

/-- A bag that stores an address is regular. -/
theorem regular_of_stores (h : Stores full p) (hhash : p.hash.length = 32) : Regular full := by
  obtain ⟨d1, refs, hrefs, hcell⟩ := h.cell
  obtain ⟨hbits, hpadded⟩ := toPaddedCellBytes_spec hhash
  have hd1 := getD_of_take hcell
  have hbound := refs_le d1 full
  have htotal : totalCellSize full = 36 + refs.length := by
    have hlen := congrArg List.length hcell
    simp only [List.length_take, List.length_drop, List.length_cons, List.cons_append,
      List.length_append, hpadded] at hlen
    have := h.size
    omega
  obtain ⟨-, hcopied, -⟩ := cellOf_eq h.size (by omega)
  rw [hcell] at hcopied
  have hpayload : byteBits (payload (cellOf full))
      = addressBits p ++ ([true, false, false, false, false] ++ byteBits refs) := by
    rw [hcopied]
    show byteBits ((addressBits p).toPaddedCellBytes ++ refs) = _
    rw [byteBits_append, hbits, List.append_assoc]
  refine ⟨h.magic, h.roots, h.index, h.size, ?_, ?_, ?_, ?_⟩
  · rw [hd1, htotal, hrefs]
  · rw [hcopied]
    rfl
  · rw [hpayload, addressBits_eq]
    rfl
  · rw [hpayload, List.drop_left' (addressBits_length hhash)]
    rfl

/-- The bits of an address with no anycast are those of the address read. -/
theorem addressBits_addressOf {l : List Bool} (hlen : 267 ≤ l.length)
    (htag : l.take 2 = [true, false]) (hany : l[2]? = some false) :
    (addressOf l).hash.length = 32 ∧ -128 ≤ (addressOf l).workchain
      ∧ (addressOf l).workchain ≤ 127 ∧ addressBits (addressOf l) = l.take 267 := by
  have hhash : ((l.drop 11).take 256).length = 8 * 32 := by
    rw [List.length_take, List.length_drop]
    omega
  have hwclen : ((l.drop 3).take 8).length = 8 := by
    rw [List.length_take, List.length_drop]
    omega
  obtain ⟨hpack, hpacklen⟩ := byteBits_packBytes hhash
  have hwclt := bitsToNat_lt ((l.drop 3).take 8)
  have hwcbits := natToBits_bitsToNat ((l.drop 3).take 8)
  rw [hwclen] at hwclt hwcbits
  have hwc : (addressOf l).workchain = (bitsToNat ((l.drop 3).take 8) : Int).bmod 256 := by
    unfold addressOf
    with_reducible rfl
  generalize bitsToNat ((l.drop 3).take 8) = v at hwc hwclt hwcbits
  have hlow := @Int.le_bmod v 256 (by decide)
  have hhigh := @Int.bmod_lt v 256 (by decide)
  have hemod : (v : Int).bmod 256 % 256 = (v : Int) % 256 := Int.bmod_emod
  have hmod : ((addressOf l).workchain % 256).toNat = v := by
    rw [hwc, hemod]
    omega
  refine ⟨hpacklen, by rw [hwc]; omega, by rw [hwc]; omega, ?_⟩
  have hthree : l.take 3 = [true, false, false] := by
    rw [List.take_add_one, htag, hany]
    rfl
  have hsplit : l.take 267 = l.take 3 ++ ((l.drop 3).take 8 ++ (l.drop 11).take 256) := by
    rw [show 267 = 3 + (8 + 256) from rfl, List.take_add, List.take_add, List.drop_drop]
  rw [addressBits_eq, hmod, hwcbits, hsplit, hthree, List.append_assoc]
  exact congrArg _ (congrArg _ hpack)

theorem byteBits_injective {a b : Bytes} (h : byteBits a = byteBits b) : a = b := by
  have hpack := fun x => packBytes_append x []
  simp only [List.append_nil, packBytes_nil] at hpack
  rw [← hpack a, h, hpack b]

/-- A regular bag with an address in its cell stores that address. -/
theorem stores_of_regular (h : Regular full) (hc : CarriesAddress (cellOf full)) :
    267 ≤ (byteBits (payload (cellOf full))).length
      ∧ (addressOf (byteBits (payload (cellOf full)))).hash.length = 32
      ∧ -128 ≤ (addressOf (byteBits (payload (cellOf full)))).workchain
      ∧ (addressOf (byteBits (payload (cellOf full)))).workchain ≤ 127
      ∧ Stores full (addressOf (byteBits (payload (cellOf full)))) := by
  have hbound := refs_le (full.getD (cellStart full) 0) full
  have htotal := h.cellSize
  obtain ⟨-, hcopied, hcopiedlen⟩ := cellOf_eq h.size (by omega)
  have hpaylen : (payload (cellOf full)).length
      = 34 + (full.getD (cellStart full) 0).toNat % 8 * sizeBytes full := by
    rw [payload, List.length_drop, hcopiedlen]
    omega
  have hbitslen := byteBits_length (payload (cellOf full))
  obtain ⟨hhash, hlow, hhigh, haddress⟩ :=
    addressBits_addressOf (l := byteBits (payload (cellOf full))) (by omega) hc.1 h.anycast
  refine ⟨by omega, hhash, hlow, hhigh, h.magic, h.roots, h.index, h.size, ?_⟩
  obtain ⟨hpadbits, hpadlen⟩ := toPaddedCellBytes_spec hhash
  -- The data's 34 bytes have the address's bits and the marker after them.
  have hdata : (payload (cellOf full)).take 34
      = (addressBits (addressOf (byteBits (payload (cellOf full))))).toPaddedCellBytes := by
    have hsplit : byteBits (payload (cellOf full))
        = byteBits ((payload (cellOf full)).take 34)
          ++ byteBits ((payload (cellOf full)).drop 34) := by
      rw [← byteBits_append, List.take_append_drop]
    have hlen : (byteBits ((payload (cellOf full)).take 34)).length = 267 + 5 := by
      rw [byteBits_length, List.length_take]
      omega
    have htake : (byteBits (payload (cellOf full))).take (267 + 5)
        = byteBits ((payload (cellOf full)).take 34) := by
      rw [hsplit, List.take_left' hlen]
    refine byteBits_injective ?_
    rw [hpadbits, haddress, ← htake, List.take_add, h.ending]
  have hd2 := h.descriptor
  clear haddress hhash hlow hhigh hpadbits
  generalize addressOf (byteBits (payload (cellOf full))) = p at hdata hpadlen ⊢
  generalize cellOf full = cell at hcopied hcopiedlen hd2 hpaylen hdata
  obtain ⟨d1, d2, data, rfl⟩ : ∃ d1 d2 data, cell = d1 :: d2 :: data := by
    cases cell with
    | nil => exact absurd hcopiedlen (by rw [List.length_nil]; omega)
    | cons d1 cell =>
        cases cell with
        | nil => exact absurd hcopiedlen (by rw [List.length_singleton]; omega)
        | cons d2 data => exact ⟨d1, d2, data, rfl⟩
  have hbyte : d2 = .ofNat (bitsDescriptor 267) := by
    rw [← hd2]
    exact UInt8.ofNat_toNat.symm
  have hd1 := getD_of_take hcopied.symm
  refine ⟨d1, data.drop 34, ?_, ?_⟩
  · rw [hd1] at hpaylen
    have hlen : data.length = 34 + d1.toNat % 8 * sizeBytes full := hpaylen
    rw [List.length_drop, hlen]
    omega
  · have hsplit : data.take 34 = (addressBits p).toPaddedCellBytes := hdata
    rw [← hcopied, hbyte, List.cons_append, List.cons_append, ← hsplit, List.take_append_drop]

end Regularity

/-! ## Decoded bags -/

/-- Another exception is not what a reader may expect. -/
theorem not_decoded {jdk : Jdk} {full : Bytes} {e : String}
    (h : decodeRawAddressFromSingleRootBoc jdk (String.ofList (encode full)) = .error e)
    (he : ¬ isTonRpcException e) : ¬ Decoded jdk full := by
  rintro (⟨p, -, -, -, hok, -⟩ | ⟨e', he', hrpc⟩)
  · rw [h] at hok
    cases hok
  · rw [h] at he'
    exact he (Except.error.inj he' ▸ hrpc)

/-- **Which bags are decoded.** For every byte string the decoder gives the address that
the bag stores, or a `TonRpcException`, if and only if the bag is admissible. -/
theorem decoded_iff (jdk : Jdk) (full : Bytes) : Decoded jdk full ↔ Admissible jdk full := by
  have hbounds : ¬ isTonRpcException outOfBounds := fun h => h.1 rfl
  have hrange : ¬ isTonRpcException "IllegalArgumentException" := fun h => h.2 rfl
  by_cases hs : Sealed jdk full
  swap
  · exact ⟨fun _ hseal => absurd hseal hs, fun _ => .inr (decode_unsealed hs)⟩
  by_cases hin : offsetBytes full = 0 ∨ sizeStart full + offsetBytes full ≤ full.length
  swap
  · exact ⟨fun h => absurd h (not_decoded (decode_outside hs hin) hbounds),
      fun h => absurd (h hs).1 hin⟩
  by_cases hlaid : LaidOut full
  swap
  · exact ⟨fun _ _ => ⟨hin, fun h => absurd h hlaid⟩, fun _ => .inr (decode_misplaced hs hin hlaid)⟩
  have hdecode := decode_laidOut hs hin hlaid
  have hpos := hlaid.2.1
  by_cases hstop : cellStart full + int32 (totalCellSize full) < 2 ^ 31
  swap
  · rw [copy_overflow hpos hstop, error_bind] at hdecode
    exact ⟨fun h => absurd h (not_decoded hdecode hrange),
      fun h => absurd ((h hs).2 hlaid).2.1 hstop⟩
  rw [copy_cell hpos hstop] at hdecode
  by_cases hstart : cellStart full ≤ full.length
  swap
  · rw [if_neg hstart, error_bind] at hdecode
    exact ⟨fun h => absurd h (not_decoded hdecode hbounds),
      fun h => absurd ((h hs).2 hlaid).1 hstart⟩
  rw [if_pos hstart, ok_bind] at hdecode
  have hlen := cellOf_length full
  by_cases htwo : 2 ≤ int32 (totalCellSize full)
  swap
  · rw [readCell_short (by omega)] at hdecode
    exact ⟨fun h => absurd h (not_decoded hdecode hbounds),
      fun h => absurd ((h hs).2 hlaid).2.2.1 htwo⟩
  by_cases hdata : descriptor (cellOf full) = bitsDescriptor 267 → 3 ≤ int32 (totalCellSize full)
  swap
  · obtain ⟨hd2, hbare⟩ := Classical.not_imp.mp hdata
    rw [readCell_bare (by omega) hd2] at hdecode
    exact ⟨fun h => absurd h (not_decoded hdecode hbounds),
      fun h => absurd ((h hs).2 hlaid).2.2.2.1 hdata⟩
  by_cases hc : CarriesAddress (cellOf full)
  swap
  · obtain ⟨e, he, hrpc⟩ := readCell_other (by omega) hc (fun hd2 => by have := hdata hd2; omega)
    rw [he] at hdecode
    exact ⟨fun _ _ => ⟨hin, fun _ => ⟨hstart, hstop, htwo, hdata, fun h => absurd h hc⟩⟩,
      fun _ => .inr ⟨e, hdecode, hrpc⟩⟩
  rw [readCell_carries (by omega) hc] at hdecode
  constructor
  · rintro hdecoded -
    refine ⟨hin, fun _ => ⟨hstart, hstop, htwo, hdata, fun _ => ?_⟩⟩
    rcases hdecoded with ⟨p, hhash, -, -, -, hstores⟩ | ⟨e, he, hrpc⟩
    · exact regular_of_stores hstores hhash
    · rw [hdecode] at he
      split at he
      · cases he
      · exact absurd (Except.error.inj he ▸ hrpc) hbounds
  · intro h
    obtain ⟨henough, hhash, hlow, hhigh, hstores⟩ :=
      stores_of_regular (((h hs).2 hlaid).2.2.2.2 hc) hc
    rw [if_pos henough] at hdecode
    exact .inl ⟨_, hhash, hlow, hhigh, hdecode, hstores⟩

/-! ## Two bags -/

/-- A bag with its checksum. -/
def withChecksum (bag : Bytes) : Bytes := bag ++ crcBytes (latin.crc32c bag)

/-- Another magic number and seven roots, and the cell of the zero address. -/
def foreignBag : Bytes :=
  withChecksum ([0, 0, 0, 0, 0x41, 1, 1, 7, 0, 36, 0]
    ++ 0 :: 67 :: 0x80 :: List.replicate 32 0 ++ [0x10])

/-- A size of 255 bytes in a bag of sixteen. -/
def truncatedBag : Bytes := withChecksum [0xb5, 0xee, 0x9c, 0x72, 0x41, 0xff, 1, 1, 0, 36, 0, 0]

/-- The first is accepted, and the second is read past its end. -/
theorem bags_misread :
    decodeRawAddressFromSingleRootBoc latin (String.ofList (encode foreignBag))
        = .ok "0:0000000000000000000000000000000000000000000000000000000000000000"
      ∧ ¬ Decoded latin foreignBag
      ∧ decodeRawAddressFromSingleRootBoc latin (String.ofList (encode truncatedBag))
        = .error outOfBounds
      ∧ ¬ Decoded latin truncatedBag := by
  have hforeign : decodeRawAddressFromSingleRootBoc latin (String.ofList (encode foreignBag))
      = .ok "0:0000000000000000000000000000000000000000000000000000000000000000" := by
    decide +kernel
  have htruncated : decodeRawAddressFromSingleRootBoc latin (String.ofList (encode truncatedBag))
      = .error outOfBounds := by
    decide +kernel
  refine ⟨hforeign, ?_, htruncated, not_decoded htruncated fun h => h.1 rfl⟩
  rintro (⟨p, -, -, -, -, hstores⟩ | ⟨e, he, -⟩)
  · exact absurd hstores.magic (by decide +kernel)
  · rw [hforeign] at he
    cases he

end BurnedChats.TonAddressBoc

import Mathlib.Data.Nat.Size
import BurnedChats.Lib.Buffer
import BurnedChats.Backend.Pow

/-!
# The proof-of-work solver and the two verifiers

`pow.ts` and `PowHash.java` count the leading zero bits of a digest by the same loop: eight
for every zero byte, then a mask that is shifted down until it meets a bit. TypeScript has
the byte as a number from 0 to 255, Java has it signed, so the mask meets a word of 32 bits
that is extended with zeros in one language and with the sign in the other. The mask never
leaves the lowest byte, where both words agree (`zerosFrom_pow`).

The solver's counter is an exact integer. Its loop is cut into batches by a clock; what a
reading of the clock decides is only whether the next step is an attempt or a pause, and a
pause keeps the counter (`search_returned`).
-/

namespace BurnedChats

open Buffer (Bytes)

namespace PowSolver

/-! ## Leading zero bits -/

/-- The inner loop: the bits counted until the mask meets one or is shifted out. -/
def zerosFrom (b : BitVec 32) (mask : Nat) : Nat :=
  if mask ≠ 0 ∧ b &&& BitVec.ofNat 32 mask = 0 then 1 + zerosFrom b (mask >>> 1) else 0
termination_by mask
decreasing_by
  rw [Nat.shiftRight_one]
  omega

/-- The outer loop, with the conversion of a byte to a word of 32 bits. -/
def leadingZeros (word : BitVec 8 → BitVec 32) : List (BitVec 8) → Nat
  | [] => 0
  | b :: hash => if b = 0 then 8 + leadingZeros word hash else zerosFrom (word b) 0x80

/-- `leadingZeroBits` of `pow.ts`, on numbers from 0 to 255. -/
def leadingZeroBits (hash : Bytes) : Nat := leadingZeros (·.setWidth 32) (hash.map (·.toBitVec))

namespace PowHash

/-- `leadingZeroBits` of `PowHash`, on signed bytes. -/
def leadingZeroBits (hash : List Int8) : Nat :=
  leadingZeros (·.signExtend 32) (hash.map (·.toBitVec))

end PowHash

/-- The signed bytes of an array. -/
def signedBytes (hash : Bytes) : List Int8 := hash.map (·.toInt8)

/-! ## Verifiers -/

/-- A string by its UTF-16 code units. -/
abbrev Text := List UInt16

def isHigh (u : UInt16) : Bool := 0xD800 ≤ u && u ≤ 0xDBFF

def isLow (u : UInt16) : Bool := 0xDC00 ≤ u && u ≤ 0xDFFF

/-- A continuation byte, with the six lowest bits of a number. -/
def continuation (n : Nat) : UInt8 := UInt8.ofNat (0x80 + n % 64)

/-- The UTF-8 bytes of one unit; `bad` stands for half of a pair. -/
def encodeUnit (bad : Bytes) (u : UInt16) : Bytes :=
  let n := u.toNat
  if n < 0x80 then [UInt8.ofNat n]
  else if n < 0x800 then [UInt8.ofNat (0xC0 + n / 64), continuation n]
  else if isHigh u || isLow u then bad
  else [UInt8.ofNat (0xE0 + n / 4096), continuation (n / 64), continuation n]

/-- The UTF-8 bytes of a surrogate pair. -/
def encodePair (high low : UInt16) : Bytes :=
  let n := 0x10000 + (high.toNat - 0xD800) * 0x400 + (low.toNat - 0xDC00)
  [UInt8.ofNat (0xF0 + n / 262144), continuation (n / 4096), continuation (n / 64),
    continuation n]

def encode (bad : Bytes) : Text → Bytes
  | [] => []
  | [u] => encodeUnit bad u
  | u :: v :: text =>
      if isHigh u && isLow v then encodePair u v ++ encode bad text
      else encodeUnit bad u ++ encode bad (v :: text)

/-- `TextEncoder`: an unpaired surrogate becomes U+FFFD. -/
def textEncoder : Text → Bytes := encode [0xEF, 0xBF, 0xBD]

/-- `String.getBytes(UTF_8)`: an unpaired surrogate becomes a question mark. -/
def getBytes : Text → Bytes := encode [0x3F]

def ascii (text : Text) : Prop := ∀ u ∈ text, u < 0x80

section Digest

variable (sha256 : Bytes → Vector UInt8 32)

def verifyPow (challengeId nonce : Text) (difficulty : Int) : Bool :=
  if challengeId.isEmpty then false
  else if difficulty < 0 then false
  else difficulty ≤ leadingZeroBits (sha256 (textEncoder (challengeId ++ nonce))).toList

def PowHash.meetsDifficulty (challengeId nonce : Text) (difficulty : Int) : Bool :=
  difficulty ≤ leadingZeroBits
    (signedBytes (sha256 (getBytes (challengeId ++ nonce))).toList)

/-! ## Solver -/

/-- `counter.toString()`. -/
def decimal (counter : Nat) : Text := (Nat.toDigits 10 counter).map fun c => c.toNat.toUInt16

inductive Outcome where
  | returned (nonce : Text) (iterations : Nat)
  | threw (message : String)
  | searching
deriving DecidableEq

/-- What the solver meets: the readings of the clock in milliseconds, and whether the signal
is aborted at each of the tests. -/
structure Host where
  now : Nat → Rat
  aborted : Nat → Bool

def BATCH_BUDGET_MS : Rat := 8

/-- The search, one reading of the clock a step; `t` and `k` number the readings and the
tests of the signal. -/
def search (host : Host) (challengeId : Text) (difficulty : Int) :
    (fuel counter : Nat) → (batchStart : Rat) → (t k : Nat) → Outcome
  | 0, _, _, _, _ => .searching
  | fuel + 1, counter, batchStart, t, k =>
      if host.now t - batchStart < BATCH_BUDGET_MS then
        let nonce := decimal counter
        if difficulty ≤ leadingZeroBits (sha256 (textEncoder (challengeId ++ nonce))).toList then
          .returned nonce (counter + 1)
        else search host challengeId difficulty fuel (counter + 1) batchStart (t + 1) k
      else if host.aborted k then .threw "PoW solving was aborted"
      else search host challengeId difficulty fuel counter (host.now (t + 1)) (t + 2) (k + 1)

def solvePow (host : Host) (challengeId : Text) (difficulty : Int) (fuel : Nat) : Outcome :=
  if challengeId.isEmpty then .threw "PoW: challengeId must be a non-empty string"
  else if difficulty < 0 then
    .threw s!"PoW: difficulty must be a non-negative integer, received: {difficulty}"
  else if 32 * 8 < difficulty then
    .threw s!"PoW: difficulty {difficulty} exceeds the 256-bit digest size"
  else if host.aborted 0 then .threw "PoW solving was aborted"
  else if difficulty = 0 then .returned (decimal 0) 1
  else search sha256 host challengeId difficulty fuel 0 (host.now 0) 1 1

end Digest

/-! ## The bits of a digest -/

/-- One turn of the inner loop, at a mask of one bit. -/
theorem zerosFrom_two_pow {k : Nat} (hk : k < 32) (x : BitVec 32) :
    zerosFrom x (2 ^ k) = if x.getLsbD k then 0 else 1 + zerosFrom x (2 ^ k >>> 1) := by
  have hmask : BitVec.ofNat 32 (2 ^ k) = BitVec.twoPow 32 k :=
    BitVec.eq_of_toNat_eq (by simp [BitVec.toNat_twoPow])
  have hne : BitVec.twoPow 32 k ≠ 0 := fun h => by
    have hbit := congrArg (·.getLsbD k) h
    simp [hk] at hbit
  have hpos : (2 : Nat) ^ k ≠ 0 := Nat.pos_iff_ne_zero.mp (Nat.two_pow_pos k)
  rw [zerosFrom, hmask, BitVec.and_twoPow]
  cases x.getLsbD k with
  | true => rw [if_pos rfl, if_pos rfl, if_neg fun h => hne h.2]
  | false => rw [if_neg Bool.false_ne_true, if_neg Bool.false_ne_true, if_pos ⟨hpos, rfl⟩]

/-- A word whose lowest bits are those of a byte: the mask counts the byte's bits. -/
theorem zerosFrom_pow {x : BitVec 32} {b : UInt8} {k : Nat} (hk : k < 32)
    (h : ∀ i ≤ k, x.getLsbD i = b.toNat.testBit i) :
    zerosFrom x (2 ^ k) = Pow.zeroBitsFrom b (k + 1) := by
  induction k with
  | zero =>
      have hout : zerosFrom x (2 ^ 0 >>> 1) = 0 := by
        rw [zerosFrom]
        simp
      rw [zerosFrom_two_pow hk, h 0 (Nat.le_refl 0), hout]
      rfl
  | succ k ih =>
      have hshift : 2 ^ (k + 1) >>> 1 = 2 ^ k := by
        rw [Nat.shiftRight_one, Nat.pow_succ]
        omega
      rw [zerosFrom_two_pow hk, h (k + 1) (Nat.le_refl _), hshift,
        ih (by omega) fun i hi => h i (by omega)]
      rfl

/-- A byte's lowest `n` bits: the leading zeros and the size of the rest. -/
theorem zeroBitsFrom_add_size (b : UInt8) (n : Nat) :
    Pow.zeroBitsFrom b n + (b.toNat % 2 ^ n).size = n := by
  induction n with
  | zero => simp [Pow.zeroBitsFrom, Nat.mod_one]
  | succ n ih =>
      have hlt : b.toNat % 2 ^ n < 2 ^ n := Nat.mod_lt _ (Nat.two_pow_pos n)
      rw [Pow.zeroBitsFrom, Nat.mod_pow_succ, Nat.testBit_eq_decide_div_mod_eq]
      rcases Nat.mod_two_eq_zero_or_one (b.toNat / 2 ^ n) with hbit | hbit
      · simp only [hbit, Nat.zero_ne_one, decide_false, Bool.false_eq_true, if_false, Nat.mul_zero,
          Nat.add_zero]
        omega
      · have hle : (b.toNat % 2 ^ n + 2 ^ n).size ≤ n + 1 :=
          Nat.size_le.mpr (by rw [Nat.pow_succ]; omega)
        have hlt : n < (b.toNat % 2 ^ n + 2 ^ n).size := Nat.lt_size.mpr (by omega)
        simp only [hbit, decide_true, if_true, Nat.mul_one]
        omega

/-- Digits below a number that is not zero add their length to its size. -/
theorem size_mul_add {x y k : Nat} (hx : x ≠ 0) (hy : y < 2 ^ k) :
    (x * 2 ^ k + y).size = x.size + k := by
  have hpos : 0 < x.size := Nat.size_pos.mpr (Nat.pos_of_ne_zero hx)
  have hlow : 2 ^ (x.size - 1) ≤ x := Nat.lt_size.mp (by omega)
  apply Nat.le_antisymm
  · rw [Nat.size_le, Nat.pow_add]
    calc x * 2 ^ k + y < (x + 1) * 2 ^ k := by rw [Nat.succ_mul]; omega
      _ ≤ 2 ^ x.size * 2 ^ k := Nat.mul_le_mul_right _ (Nat.lt_size_self x)
  · have hle : x.size - 1 + k < (x * 2 ^ k + y).size := by
      rw [Nat.lt_size, Nat.pow_add]
      exact Nat.le_trans (Nat.mul_le_mul_right _ hlow) (Nat.le_add_right _ _)
    omega

theorem foldl_bytes (l : Bytes) (n : Nat) :
    l.foldl (fun n b => n * 256 + b.toNat) n
      = n * 2 ^ (8 * l.length) + Buffer.Reading.ofBigEndian l := by
  unfold Buffer.Reading.ofBigEndian
  induction l generalizing n with
  | nil => simp
  | cons b l ih =>
      have hpow : (2 : Nat) ^ (8 * (l.length + 1)) = 256 * 2 ^ (8 * l.length) := by
        rw [Nat.mul_succ, Nat.pow_add, Nat.mul_comm]
      rw [List.foldl_cons, List.foldl_cons, ih, ih (0 * 256 + b.toNat), List.length_cons, hpow,
        Nat.add_mul, Nat.mul_assoc, Nat.zero_mul, Nat.zero_add, Nat.add_assoc]

theorem ofBigEndian_cons (b : UInt8) (l : Bytes) :
    Buffer.Reading.ofBigEndian (b :: l)
      = b.toNat * 2 ^ (8 * l.length) + Buffer.Reading.ofBigEndian l := by
  show l.foldl (fun n b => n * 256 + b.toNat) (0 * 256 + b.toNat) = _
  rw [foldl_bytes, Nat.zero_mul, Nat.zero_add]

theorem ofBigEndian_lt_pow (l : Bytes) : Buffer.Reading.ofBigEndian l < 2 ^ (8 * l.length) := by
  induction l with
  | nil => decide
  | cons b l ih =>
      have hb : b.toNat < 256 := UInt8.toNat_lt b
      rw [ofBigEndian_cons, List.length_cons, Nat.mul_succ, Nat.pow_add, Nat.mul_comm (2 ^ _)]
      calc b.toNat * 2 ^ (8 * l.length) + Buffer.Reading.ofBigEndian l
          < (b.toNat + 1) * 2 ^ (8 * l.length) := by rw [Nat.succ_mul b.toNat]; omega
        _ ≤ 2 ^ 8 * 2 ^ (8 * l.length) := Nat.mul_le_mul_right _ hb

/-- The zero bits and the bits of the number fill the bytes. -/
theorem leadingZeroBits_add_size (l : Bytes) :
    Pow.leadingZeroBits l + (Buffer.Reading.ofBigEndian l).size = 8 * l.length := by
  induction l with
  | nil => rfl
  | cons b l ih =>
      rw [ofBigEndian_cons, List.length_cons, Pow.leadingZeroBits]
      by_cases hb : b = 0
      · rw [if_pos hb, hb, UInt8.toNat_zero, Nat.zero_mul, Nat.zero_add]
        omega
      · have hne : b.toNat ≠ 0 := fun h => hb (UInt8.toNat_inj.mp h)
        have hsize := zeroBitsFrom_add_size b 8
        rw [Nat.mod_eq_of_lt (UInt8.toNat_lt b)] at hsize
        rw [if_neg hb, size_mul_add hne (ofBigEndian_lt_pow l)]
        omega

/-! ## The two counts -/

/-- An extension that keeps the byte's own bits. -/
theorem leadingZeros_eq {word : BitVec 8 → BitVec 32}
    (hword : ∀ b : BitVec 8, ∀ i ≤ 7, (word b).getLsbD i = b.getLsbD i) (hash : Bytes) :
    leadingZeros word (hash.map (·.toBitVec)) = Pow.leadingZeroBits hash := by
  induction hash with
  | nil => rfl
  | cons b hash ih =>
      have hzero : b.toBitVec = 0 ↔ b = 0 := by
        rw [← UInt8.toBitVec_inj]
        rfl
      have hmask : zerosFrom (word b.toBitVec) 0x80 = Pow.zeroBitsFrom b 8 :=
        zerosFrom_pow (k := 7) (by decide) fun i hi => hword b.toBitVec i hi
      simp only [List.map_cons, leadingZeros, Pow.leadingZeroBits, ih, hmask, hzero]

theorem leadingZeroBits_eq (hash : Bytes) : leadingZeroBits hash = Pow.leadingZeroBits hash :=
  leadingZeros_eq (fun b i hi => by
    rw [BitVec.getLsbD_setWidth]
    simp [show i < 32 by omega]) hash

/-- The sign does not reach the byte's own bits. -/
theorem PowHash.leadingZeroBits_eq (hash : Bytes) :
    PowHash.leadingZeroBits (signedBytes hash) = Pow.leadingZeroBits hash := by
  rw [PowHash.leadingZeroBits, signedBytes, List.map_map]
  exact leadingZeros_eq (fun b i hi => by
    rw [BitVec.getLsbD_signExtend]
    simp [show i < 32 by omega, show i < 8 by omega]) hash

/-! ## The two encodings -/

theorem encodeUnit_ascii {bad : Bytes} {u : UInt16} (hu : u < 0x80) :
    encodeUnit bad u = [u.toUInt8] := by
  have hn : u.toNat < 0x80 := hu
  simp only [encodeUnit, if_pos hn]
  rfl

theorem isHigh_ascii {u : UInt16} (hu : u < 0x80) : isHigh u = false := by
  have hn : u.toNat < 0x80 := hu
  have hlow : ¬ (0xD800 : UInt16) ≤ u := fun h => by
    have hle : (0xD800 : UInt16).toNat ≤ u.toNat := h
    have hval : (0xD800 : UInt16).toNat = 0xD800 := rfl
    omega
  simp [isHigh, hlow]

theorem encode_ascii (bad : Bytes) : ∀ {text : Text}, ascii text →
    encode bad text = text.map (·.toUInt8)
  | [], _ => rfl
  | [u], h => encodeUnit_ascii (h u List.mem_cons_self)
  | u :: v :: text, h => by
      have hu : u < 0x80 := h u List.mem_cons_self
      have hrest : ascii (v :: text) := fun w hw => h w (List.mem_cons_of_mem _ hw)
      rw [encode, isHigh_ascii hu, Bool.false_and, if_neg Bool.false_ne_true,
        encodeUnit_ascii hu, encode_ascii bad hrest]
      rfl

theorem ascii_decimal (counter : Nat) : ascii (decimal counter) := by
  intro u hu
  obtain ⟨c, hc, rfl⟩ := List.mem_map.mp hu
  have hdigit := Nat.isDigit_of_mem_toDigits (by decide) (by decide) hc
  simp only [Char.isDigit, Bool.and_eq_true, decide_eq_true_eq] at hdigit
  have hn : c.toNat ≤ 57 := hdigit.2
  rw [UInt16.lt_iff_toNat_lt]
  simp only [Nat.toUInt16_eq, UInt16.toNat_ofNat', UInt16.reduceToNat]
  omega

variable {sha256 : Bytes → Vector UInt8 32}

/-- On ASCII the digests are the same, and so are the verdicts. -/
theorem verifyPow_eq {challengeId nonce : Text} {difficulty : Int} (hne : challengeId ≠ [])
    (hid : ascii challengeId) (hnonce : ascii nonce) (hd : 0 ≤ difficulty) :
    verifyPow sha256 challengeId nonce difficulty
      = PowHash.meetsDifficulty sha256 challengeId nonce difficulty := by
  have hascii : ascii (challengeId ++ nonce) := fun u hu => by
    rcases List.mem_append.mp hu with hu | hu
    · exact hid u hu
    · exact hnonce u hu
  have hempty : challengeId.isEmpty = false := by simpa using hne
  rw [verifyPow, hempty, if_neg Bool.false_ne_true, if_neg (by omega), PowHash.meetsDifficulty,
    textEncoder, getBytes, encode_ascii _ hascii, encode_ascii _ hascii, leadingZeroBits_eq,
    PowHash.leadingZeroBits_eq]

/-! ## The search -/

/-- A search that returns found the first counter that is accepted, from where it started. -/
theorem search_returned {host : Host} {challengeId : Text} {difficulty : Int} {nonce : Text}
    {iterations : Nat} (hne : challengeId ≠ []) (hd : 0 ≤ difficulty) {fuel : Nat} :
    ∀ {counter : Nat} {batchStart : Rat} {t k : Nat},
      search sha256 host challengeId difficulty fuel counter batchStart t k
        = .returned nonce iterations →
      ∃ found, counter ≤ found ∧ nonce = decimal found ∧ iterations = found + 1 ∧
        verifyPow sha256 challengeId (decimal found) difficulty = true ∧
        ∀ c, counter ≤ c → c < found →
          verifyPow sha256 challengeId (decimal c) difficulty = false := by
  have hverify : ∀ c, verifyPow sha256 challengeId (decimal c) difficulty = decide (difficulty
      ≤ leadingZeroBits (sha256 (textEncoder (challengeId ++ decimal c))).toList) := fun c => by
    have hempty : challengeId.isEmpty = false := by simpa using hne
    rw [verifyPow, hempty, if_neg Bool.false_ne_true, if_neg (by omega)]
  induction fuel with
  | zero => exact fun h => by cases h
  | succ fuel ih =>
      intro counter batchStart t k h
      rw [search] at h
      split at h
      -- an attempt
      · dsimp only at h
        split at h
        · rename_i hfound
          obtain ⟨rfl, rfl⟩ := Outcome.returned.inj h
          exact ⟨counter, Nat.le_refl _, rfl, rfl, by rw [hverify]; exact decide_eq_true hfound,
            fun c hc hlt => absurd hlt (by omega)⟩
        · rename_i hmiss
          obtain ⟨found, hle, hnonce, hiter, hok, hrest⟩ := ih h
          refine ⟨found, by omega, hnonce, hiter, hok, fun c hc hlt => ?_⟩
          rcases Nat.eq_or_lt_of_le hc with rfl | hc
          · rw [hverify]
            exact decide_eq_false hmiss
          · exact hrest c hc hlt
      -- a pause
      · split at h
        · cases h
        · exact ih h

/-- The two counts are the leading zeros of the digest as a number of 256 bits, the two
verifiers agree on ASCII, and a solver that returns has found the least counter that both
accept. -/
theorem pow_agrees (sha256 : Bytes → Vector UInt8 32) :
    (∀ digest : Vector UInt8 32,
      leadingZeroBits digest.toList
          = 256 - (Buffer.Reading.ofBigEndian digest.toList).size ∧
        PowHash.leadingZeroBits (signedBytes digest.toList)
          = 256 - (Buffer.Reading.ofBigEndian digest.toList).size) ∧
    (∀ (challengeId nonce : Text) (difficulty : Int), challengeId ≠ [] → ascii challengeId →
      ascii nonce → 0 ≤ difficulty → verifyPow sha256 challengeId nonce difficulty
        = PowHash.meetsDifficulty sha256 challengeId nonce difficulty) ∧
    ∀ (host : Host) (challengeId : Text) (difficulty : Int) (fuel : Nat) (nonce : Text)
      (iterations : Nat), ascii challengeId →
      solvePow sha256 host challengeId difficulty fuel = .returned nonce iterations →
      ∃ counter, nonce = decimal counter ∧ iterations = counter + 1 ∧
        (difficulty = 0 → counter = 0) ∧
        verifyPow sha256 challengeId nonce difficulty = true ∧
        PowHash.meetsDifficulty sha256 challengeId nonce difficulty = true ∧
        ∀ c < counter, verifyPow sha256 challengeId (decimal c) difficulty = false ∧
          PowHash.meetsDifficulty sha256 challengeId (decimal c) difficulty = false := by
  refine ⟨fun digest => ?_, fun challengeId nonce difficulty => verifyPow_eq, ?_⟩
  · have hsum := leadingZeroBits_add_size digest.toList
    rw [Vector.length_toList] at hsum
    rw [leadingZeroBits_eq, PowHash.leadingZeroBits_eq]
    omega
  · intro host challengeId difficulty fuel nonce iterations hid h
    unfold solvePow at h
    split at h
    · cases h
    · rename_i hempty
      have hne : challengeId ≠ [] := by simpa using hempty
      split at h
      · cases h
      · rename_i hneg
        have hd : 0 ≤ difficulty := by omega
        have hboth : ∀ c, verifyPow sha256 challengeId (decimal c) difficulty
            = PowHash.meetsDifficulty sha256 challengeId (decimal c) difficulty :=
          fun c => verifyPow_eq hne hid (ascii_decimal c) hd
        split at h
        · cases h
        · split at h
          · cases h
          · split at h
            · rename_i hzero
              obtain ⟨rfl, rfl⟩ := Outcome.returned.inj h
              have hok : verifyPow sha256 challengeId (decimal 0) difficulty = true := by
                rw [verifyPow, if_neg hempty, if_neg hneg, hzero]
                exact decide_eq_true (Int.natCast_nonneg _)
              exact ⟨0, rfl, rfl, fun _ => rfl, hok, hboth 0 ▸ hok, fun c hc => by omega⟩
            · rename_i hzero
              obtain ⟨found, -, rfl, rfl, hok, hrest⟩ := search_returned hne hd h
              refine ⟨found, rfl, rfl, fun hz => absurd hz hzero, hok, hboth found ▸ hok,
                fun c hc => ?_⟩
              have hmiss := hrest c (Nat.zero_le _) hc
              exact ⟨hmiss, hboth c ▸ hmiss⟩

/-- A digest that is zero for messages that end in `1`. -/
def zeroForOne (message : Bytes) : Vector UInt8 32 :=
  if message.getLast? = some 0x31 then Vector.replicate 32 0 else Vector.replicate 32 0xFF

/-- The clock advances by five milliseconds a reading; the signal is never aborted. -/
def steady : Host := ⟨fun t => 5 * t, fun _ => false⟩

/-- The second attempt succeeds, in a batch of its own. -/
theorem pow_agrees_second :
    solvePow zeroForOne steady [0x61] 12 6 = .returned (decimal 1) 2 ∧
      PowHash.meetsDifficulty zeroForOne [0x61] (decimal 1) 12 = true := by
  have hreturned : solvePow zeroForOne steady [0x61] 12 6 = .returned (decimal 1) 2 := by
    decide +kernel
  obtain ⟨counter, -, -, -, -, hok, -⟩ := (pow_agrees zeroForOne).2.2 steady [0x61] 12 6
    (decimal 1) 2 (by simp [ascii]) hreturned
  exact ⟨hreturned, hok⟩

end PowSolver

end BurnedChats

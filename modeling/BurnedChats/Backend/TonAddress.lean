import Std.Data.String.ToInt
import Mathlib.Data.Nat.Bitwise
import BurnedChats.Backend.WalletProof
import BurnedChats.Chain
import BurnedChats.Lib.Buffer
import BurnedChats.Lib.Crc
import BurnedChats.Lib.Encodings

/-!
# Two parsers for wallet addresses

`TonAddressBoc` parses the addresses that go to the RPC node and makes their cache
keys, `TonProofSupport` parses the address that a wallet signs in with. Both read a raw
spelling (`workchain:hex`) or a friendly one (36 bytes in url-safe base64: a tag, the
workchain as a byte, the hash, a checksum). Their checksums are computed differently
and are the same (`crc16_eq`, `crc16Xmodem_eq`). Their readings of the workchain byte
are not: `TonProofSupport` takes it as signed, `TonAddressBoc` only where it is -1, so
the spellings of the other negative workchains have two readings and a key of their own
(`addresses_agree`).

What is not spelled out here of the platform is a parameter (`Jdk`): the digits of all
scripts, lower-casing, and CRC-32C.
-/

namespace BurnedChats

open Encoding
open Buffer (Bytes)

structure Jdk where
  /-- `Character.digit(c, radix)`. -/
  digit : Char → Nat → Option Nat
  /-- `String.toLowerCase(Locale.ROOT)`. -/
  toLowerCase : List Char → List Char
  crc32c : Bytes → BitVec 32

namespace Jdk

variable (jdk : Jdk)

/-- One digit or more. -/
def magnitude (radix : Nat) : List Char → Option Nat
  | [] => none
  | l => l.foldlM (fun n c => (jdk.digit c radix).map (n * radix + ·)) 0

/-- A number with an optional sign, as `new BigInteger(s, radix)` reads it. -/
def bigInteger (radix : Nat) : List Char → Option Int
  | '-' :: l => (jdk.magnitude radix l).map fun n => -n
  | '+' :: l => (jdk.magnitude radix l).map fun n => n
  | l => (jdk.magnitude radix l).map fun n => n

/-- `Integer.parseInt`: the same in base ten, within 32 bits. -/
def parseInt (l : List Char) : Option Int :=
  (jdk.bigInteger 10 l).filter fun n => decide (-2 ^ 31 ≤ n ∧ n < 2 ^ 31)

end Jdk

/-- The value of a 32-bit sum. -/
def int32 (x : Int) : Int := x.bmod (2 ^ 32)

def orThrow {α : Type} (e : String) : Option α → Except String α
  | some a => .ok a
  | none => .error e

/-- `substring(0, indexOf(':'))` of a text with a colon. -/
def beforeColon (s : List Char) : List Char := s.takeWhile (· != ':')

/-- `substring(indexOf(':') + 1)`. -/
def afterColon (s : List Char) : List Char := (s.dropWhile (· != ':')).drop 1

namespace TonAddressBoc

def BOC_MAGIC : Nat := 0xb5ee9c72
def BOUNCEABLE_TAG : Nat := 0x11
def NON_BOUNCEABLE_TAG : Nat := 0x51
def TEST_FLAG : Nat := 0x80

structure ParsedAddress where
  workchain : Int
  hash : Bytes
  deriving DecidableEq

/-- The record's constructor. -/
def ParsedAddress.of (workchain : Int) (hash : Bytes) : Except String ParsedAddress :=
  if hash.length ≠ 32 then .error "hash must be 32 bytes" else .ok ⟨workchain, hash⟩

/-! ## Parsing -/

def isBase64UrlChar (c : Char) : Bool :=
  ('A' ≤ c && c ≤ 'Z') || ('a' ≤ c && c ≤ 'z') || ('0' ≤ c && c ≤ '9') || c == '-' || c == '_'

def isFriendly (s : List Char) : Bool := s.length == 48 && s.all isBase64UrlChar

def isRaw (jdk : Jdk) (s : List Char) : Bool :=
  if ¬ ':' ∈ s ∨ beforeColon s = [] then false
  else
    match jdk.parseInt (beforeColon s) with
    | none => false
    | some workchain =>
        let hex := jdk.toLowerCase (afterColon s)
        if hex.length ≠ 64 then false
        else if (jdk.bigInteger 16 hex).isNone then false
        else decide (-128 ≤ workchain ∧ workchain ≤ 127)

def parseRaw (jdk : Jdk) (s : List Char) : Except String ParsedAddress := do
  let wc ← orThrow "NumberFormatException" (jdk.parseInt (beforeColon s))
  let hash ← orThrow "IllegalArgumentException" (parseHex (afterColon s))
  ParsedAddress.of wc hash

/-- One turn of the loop over a byte's mask: the bit enters the register. -/
def crc16Bit (reg : Nat) (bit : Bool) : Nat :=
  let reg := reg * 2 + bit.toNat
  if 0xffff < reg then (reg &&& 0xffff) ^^^ 0x1021 else reg

/-- The mask runs down from the highest bit; two zero bytes follow the data. -/
def crc16 (data : Bytes) : Bytes :=
  let reg := (data ++ [0, 0]).foldl (fun reg (b : UInt8) => (natToBits 8 b.toNat).foldl crc16Bit reg) 0
  [.ofNat (reg / 256), .ofNat (reg % 256)]

/-- `s.replace('-', '+').replace('_', '/')`. -/
def toStandard (c : Char) : Char := if c = '-' then '+' else if c = '_' then '/' else c

def parseFriendly (s : List Char) : Except String ParsedAddress := do
  let data ← orThrow "IllegalArgumentException" (decode standard (s.map toStandard))
  require (data.length = 36) "Invalid friendly address payload length"
  let payload := data.take 34
  require (crc16 payload = data.drop 34) "Invalid friendly address checksum"
  let tag := (payload.getD 0 0).toNat
  let wcByte := (payload.getD 1 0).toNat
  let workchain : Int := if wcByte = 0xff then -1 else wcByte
  let tagNoTest := if tag &&& TEST_FLAG ≠ 0 then tag ^^^ TEST_FLAG else tag
  require (tagNoTest = BOUNCEABLE_TAG ∨ tagNoTest = NON_BOUNCEABLE_TAG) "Unknown address tag"
  ParsedAddress.of workchain (payload.drop 2)

def parse (jdk : Jdk) (source : String) : Except String ParsedAddress :=
  let s := (trim source).toList
  if s = [] then .error "Empty TON address"
  else if isRaw jdk s then parseRaw jdk s
  else if isFriendly s then parseFriendly s
  else .error ("Unknown TON address format: " ++ source)

/-- The text `workchain:hex`. -/
def rawText (workchain : Int) (hash : Bytes) : String :=
  toString workchain ++ ":" ++ String.ofList (formatHex hash)

def normalizeKey (jdk : Jdk) (userAddress : String) : Except String String := do
  let p ← parse jdk userAddress
  .ok (rawText p.workchain p.hash)

/-! ## Writing a bag of cells -/

/-- The bits written so far. -/
abbrev BitWriter := List Bool

namespace BitWriter

def writeBit (b : BitWriter) (bit : Bool) : BitWriter := b ++ [bit]

/-- Every call has between 1 and 63 bits. -/
def writeUInt (b : BitWriter) (value bits : Nat) : BitWriter := b ++ natToBits bits value

def writeInt (b : BitWriter) (value : Int) (bits : Nat) : BitWriter :=
  b.writeUInt (value % 2 ^ bits).toNat bits

def writeBytes (b : BitWriter) (bytes : Bytes) : BitWriter :=
  bytes.foldl (fun b (x : UInt8) => b.writeUInt x.toNat 8) b

def toByteArray (b : BitWriter) : Bytes := packBytes b

/-- A one and zeros up to the next whole byte. -/
def toPaddedCellBytes (b : BitWriter) : Bytes :=
  let pad := (b.length + 7) / 8 * 8 - b.length
  BitWriter.toByteArray ((List.range pad).foldl (fun (b : BitWriter) i => b.writeBit (i == 0)) b)

end BitWriter

def bitsDescriptor (bitLength : Nat) : Nat := (bitLength + 7) / 8 + bitLength / 8

/-- `32 - Integer.numberOfLeadingZeros(v)`, and 1 for zero. -/
def bitsForUint (v : Nat) : Nat := if v = 0 then 1 else Nat.size v

/-- The checksum, lowest byte first. -/
def crcBytes (c : BitVec 32) : Bytes :=
  [.ofNat c.toNat, .ofNat (c.toNat / 2 ^ 8), .ofNat (c.toNat / 2 ^ 16), .ofNat (c.toNat / 2 ^ 24)]

/-- The bits of the address: the tag of a standard address, no anycast, the workchain
and the hash. -/
def addressBits (p : ParsedAddress) : BitWriter :=
  let b : BitWriter := []
  let b := b.writeUInt 2 2
  let b := b.writeBit false
  let b := b.writeInt p.workchain 8
  b.writeBytes p.hash

/-- A bag of one cell that is its root, without the checksum. -/
def bagOfCell (cellBytes : Bytes) : Bytes :=
  let cellsNum := 1
  let sizeBytes := max 1 ((bitsForUint cellsNum + 7) / 8)
  let totalCellSize := cellBytes.length
  let offsetBytes := max 1 ((bitsForUint totalCellSize + 7) / 8)
  let boc : BitWriter := []
  let boc := boc.writeUInt BOC_MAGIC 32
  let boc := boc.writeBit false
  let boc := boc.writeBit true
  let boc := boc.writeBit false
  let boc := boc.writeUInt 0 2
  let boc := boc.writeUInt sizeBytes 3
  let boc := boc.writeUInt offsetBytes 8
  let boc := boc.writeUInt cellsNum (sizeBytes * 8)
  let boc := boc.writeUInt 1 (sizeBytes * 8)
  let boc := boc.writeUInt 0 (sizeBytes * 8)
  let boc := boc.writeUInt totalCellSize (offsetBytes * 8)
  let boc := boc.writeUInt 0 (sizeBytes * 8)
  let boc := boc.writeBytes cellBytes
  boc.toByteArray

def addressCellToBocBase64 (jdk : Jdk) (userAddress : String) : Except String String := do
  let p ← parse jdk userAddress
  let addrBits := addressBits p
  require (addrBits.length = 267) "Unexpected address bit length"
  let cellBytes : Bytes := 0 :: .ofNat (bitsDescriptor 267) :: addrBits.toPaddedCellBytes
  let withoutCrc := bagOfCell cellBytes
  .ok (String.ofList (encode (withoutCrc ++ crcBytes (jdk.crc32c withoutCrc))))

/-! ## Reading a bag of cells -/

def outOfBounds : String := "ArrayIndexOutOfBoundsException"

def byteAt (full : Bytes) (i : Int) : Except String Nat :=
  if i < 0 then .error outOfBounds
  else orThrow outOfBounds (full[i.toNat]?.map UInt8.toNat)

/-- `Arrays.copyOfRange`: what lies beyond the array is zero. -/
def copyOfRange (a : Bytes) (start stop : Int) : Except String Bytes :=
  if stop < start then .error "IllegalArgumentException"
  else if start < 0 ∨ (a.length : Int) < start then .error outOfBounds
  else
    let n := (stop - start).toNat
    let copied := (a.drop start.toNat).take n
    .ok (copied ++ List.replicate (n - copied.length) 0)

/-- `int` arithmetic: a long number wraps around. -/
def readBeUint (full : Bytes) (offset : Int) (nbytes : Nat) : Except String Int :=
  (List.range nbytes).foldlM (fun v i => do
    let b ← byteAt full (offset + i)
    .ok (int32 (v * 256 + b))) 0

structure BitReader where
  data : Bytes
  bitLen : Nat
  pos : Nat

namespace BitReader

def readBit (r : BitReader) : Except String (Bool × BitReader) :=
  if r.bitLen ≤ r.pos then .error "Unexpected end of address bits"
  else do
    let bit ← orThrow outOfBounds (Builder.byteBits r.data)[r.pos]?
    .ok (bit, { r with pos := r.pos + 1 })

/-- At most eight bits in every call, so that the number does not overflow. -/
def readUintFrom (r : BitReader) (v : Nat) : Nat → Except String (Nat × BitReader)
  | 0 => .ok (v, r)
  | bits + 1 => do
      let (bit, r) ← r.readBit
      r.readUintFrom (2 * v + bit.toNat) bits

def readUint (r : BitReader) (bits : Nat) : Except String (Nat × BitReader) := r.readUintFrom 0 bits

/-- The shifts to the left and back extend the sign. -/
def readInt (r : BitReader) (bits : Nat) : Except String (Int × BitReader) := do
  let (v, r) ← r.readUint bits
  .ok ((v : Int).bmod (2 ^ bits), r)

def readBytes (r : BitReader) : Nat → Except String (Bytes × BitReader)
  | 0 => .ok ([], r)
  | n + 1 => do
      let (x, r) ← r.readUint 8
      let (bytes, r) ← r.readBytes n
      .ok (.ofNat x :: bytes, r)

end BitReader

/-- The position of the lowest one bit, counted from one. -/
def lowestOneBit (b : Nat) : Nat := ((List.range 8).find? b.testBit).getD 8 + 1

/-- The padding bit is the last one of the payload. -/
def bitLengthFromPaddedPayload (padded : Bytes) (d2 : Nat) : Except String Nat :=
  if bitsDescriptor 267 = d2 then .ok 267
  else
    match (List.range padded.length).reverse.find? fun i => padded.getD i 0 != 0 with
    | some i => .ok (i * 8 + (8 - lowestOneBit (padded.getD i 0).toNat))
    | none => .error "Empty cell payload"

def decodeRawAddressFromSingleRootBoc (jdk : Jdk) (base64Boc : String) : Except String String := do
  let full ← orThrow "IllegalArgumentException" (decode standard base64Boc.toList)
  require (16 ≤ full.length) "BoC too short"
  require (crcBytes (jdk.crc32c (full.take (full.length - 4))) = full.drop (full.length - 4))
    "Invalid BoC CRC32C"
  let metaByte ← byteAt full 4
  let sizeBytes := metaByte % 8
  require (0 < sizeBytes) "Invalid BoC sizeBytes"
  let offsetBytes ← byteAt full 5
  let p : Int := 6
  let cellsNum ← readBeUint full p sizeBytes
  let p := p + 3 * sizeBytes
  let totalCellSize ← readBeUint full p offsetBytes
  let p := p + offsetBytes + sizeBytes
  require (cellsNum = 1 ∧ 0 < totalCellSize ∧ int32 (p + totalCellSize + 4) ≤ full.length)
    "Invalid BoC layout"
  let cell ← copyOfRange full p (int32 (p + totalCellSize))
  let d2 ← byteAt cell 1
  let padded ← copyOfRange cell 2 cell.length
  let bitLen ← bitLengthFromPaddedPayload padded d2
  let br : BitReader := ⟨padded, bitLen, 0⟩
  let (tag, br) ← br.readUint 2
  require (tag = 2) s!"Unexpected address tag bits: {tag}"
  let (_, br) ← br.readBit
  let (wc, br) ← br.readInt 8
  let (hash, _) ← br.readBytes 32
  .ok (rawText wc hash)

end TonAddressBoc

namespace TonProofSupport

structure ParsedAddress where
  original : String
  workchain : Int
  hashPart : Bytes
  canonicalRaw : String

def crc16XmodemBit (crc : Nat) : Nat :=
  if crc &&& 0x8000 ≠ 0 then ((crc <<< 1) ^^^ 0x1021) &&& 0xffff else (crc <<< 1) &&& 0xffff

def crc16Xmodem (data : Bytes) : Bytes :=
  let crc := data.foldl (fun crc (b : UInt8) =>
    (List.range 8).foldl (fun crc _ => crc16XmodemBit crc) (crc ^^^ (b.toNat <<< 8))) 0
  [.ofNat (crc >>> 8), .ofNat crc]

def parseRawAddress (jdk : Jdk) (trimmed : String) : Except String ParsedAddress := do
  let s := trimmed.toList
  let workchain ← orThrow "Invalid raw TON address workchain" (jdk.parseInt (beforeColon s))
  let hash ← orThrow "Invalid raw TON address hash" (parseHex (afterColon s))
  require (hash.length = 32) "TON address hash must be 32 bytes"
  .ok ⟨trimmed, workchain, hash, TonAddressBoc.rawText workchain hash⟩

/-- The standard alphabet, and where it fails the url-safe one. -/
def decodeBase64Any (value : String) : Except String Bytes :=
  if isBlank value then .error "Base64 value is required"
  else
    let normalized := (trim value).toList
    let m := normalized.length % 4
    let normalized := if 0 < m then normalized ++ List.replicate (4 - m) padding else normalized
    match decode standard normalized with
    | some bytes => .ok bytes
    | none => orThrow "IllegalArgumentException" (decode urlSafe normalized)

def parseFriendlyAddress (trimmed : String) : Except String ParsedAddress := do
  let friendly ← decodeBase64Any trimmed
  require (friendly.length = 36) "Invalid user-friendly TON address length"
  let body := friendly.take 34
  require (friendly.drop 34 = crc16Xmodem body) "Invalid TON address checksum"
  -- A byte of Java is signed.
  let workchain : Int := ((body.getD 1 0).toNat : Int).bmod 256
  let hash := body.drop 2
  .ok ⟨trimmed, workchain, hash, TonAddressBoc.rawText workchain hash⟩

def parseAddress (jdk : Jdk) (address : String) : Except String ParsedAddress :=
  let trimmed := trim address
  if ':' ∈ trimmed.toList then parseRawAddress jdk trimmed else parseFriendlyAddress trimmed

end TonProofSupport

/-! ## The checksums -/

/-- The divisor of both checksums. -/
def polynomial : BitVec 16 := 0x1021#16

/-- The checksum's two bytes, the high one first. -/
def checksumBytes (data : Bytes) : Bytes :=
  let c := (Crc.checksum polynomial (data.map UInt8.toNat)).toNat
  [.ofNat (c / 256), .ofNat (c % 256)]

/-- An even number takes a bit without a carry. -/
theorem double_xor (n : Nat) (b : Bool) : (n * 2) ^^^ b.toNat = n * 2 + b.toNat := by
  cases b with
  | false => exact Nat.xor_zero _
  | true => exact Nat.xor_one_of_even ⟨n, by omega⟩

/-- A step of the register, as a number. -/
theorem shift_toNat (r : BitVec 16) :
    (Crc.shift polynomial r).toNat
      = if 2 ^ 15 ≤ r.toNat then (r.toNat * 2 % 2 ^ 16) ^^^ 0x1021 else r.toNat * 2 := by
  have hr := r.isLt
  have hdouble : (r <<< 1).toNat = r.toNat * 2 % 2 ^ 16 := by
    rw [BitVec.toNat_shiftLeft, Nat.shiftLeft_eq, Nat.pow_one]
  have hmsb : r.msb = decide (2 ^ 15 ≤ r.toNat) := BitVec.msb_eq_decide r
  unfold Crc.shift
  rw [hmsb]
  by_cases h : 2 ^ 15 ≤ r.toNat
  · rw [decide_eq_true h, if_pos rfl, if_pos h, BitVec.toNat_xor, hdouble]
    rfl
  · rw [decide_eq_false h, if_neg Bool.false_ne_true, if_neg h, hdouble]
    omega

theorem crc16Bit_eq (r : BitVec 16) (b : Bool) :
    TonAddressBoc.crc16Bit r.toNat b = (Crc.shift polynomial r ^^^ Crc.bit 16 b).toNat := by
  have hr := r.isLt
  have hb : b.toNat ≤ 1 := Bool.toNat_le b
  have hbit : (Crc.bit 16 b).toNat = b.toNat := by cases b <;> rfl
  have hmask : ∀ n, n &&& 0xffff = n % 2 ^ 16 := fun n => Nat.and_two_pow_sub_one_eq_mod n 16
  rw [BitVec.toNat_xor, hbit, shift_toNat]
  unfold TonAddressBoc.crc16Bit
  dsimp only
  by_cases h : 2 ^ 15 ≤ r.toNat
  · have hover : 0xffff < r.toNat * 2 + b.toNat := by omega
    have heven : r.toNat * 2 % 2 ^ 16 = (r.toNat - 2 ^ 15) * 2 := by omega
    have hsum : (r.toNat * 2 + b.toNat) % 2 ^ 16 = (r.toNat - 2 ^ 15) * 2 + b.toNat := by omega
    rw [if_pos hover, if_pos h, hmask, hsum, heven, ← double_xor, Nat.xor_assoc, Nat.xor_assoc,
      Nat.xor_comm 0x1021]
  · have hunder : ¬ 0xffff < r.toNat * 2 + b.toNat := by omega
    rw [if_neg hunder, if_neg h, double_xor]

theorem crc16Bits_eq (bits : List Bool) (r : BitVec 16) :
    bits.foldl TonAddressBoc.crc16Bit r.toNat = (Crc.divide polynomial r bits).toNat := by
  induction bits generalizing r with
  | nil => rfl
  | cons b bits ih =>
      rw [List.foldl_cons, crc16Bit_eq, ih]
      rfl

/-- The division by hand. -/
theorem crc16_eq (data : Bytes) : TonAddressBoc.crc16 data = checksumBytes data := by
  have hbits : (data ++ [0, 0]).flatMap (fun b : UInt8 => natToBits 8 b.toNat)
      = (data.map UInt8.toNat).flatMap (natToBits 8) ++ List.replicate 16 false := by
    rw [List.flatMap_append, List.flatMap_map]
    rfl
  have hfold : (data ++ [0, 0]).foldl
      (fun reg (b : UInt8) => (natToBits 8 b.toNat).foldl TonAddressBoc.crc16Bit reg) 0
      = (Crc.checksum polynomial (data.map UInt8.toNat)).toNat := by
    rw [← List.foldl_flatMap, hbits]
    exact crc16Bits_eq _ 0#16
  rw [TonAddressBoc.crc16, hfold]
  rfl

theorem crc16XmodemBit_eq (r : BitVec 16) :
    TonProofSupport.crc16XmodemBit r.toNat = (Crc.shift polynomial r).toNat := by
  have hr := r.isLt
  have hmask : ∀ n, n &&& 0xffff = n % 2 ^ 16 := fun n => Nat.and_two_pow_sub_one_eq_mod n 16
  have htop : (r.toNat &&& 0x8000 ≠ 0) ↔ 2 ^ 15 ≤ r.toNat := by
    have hmsb : r.toNat.testBit 15 = decide (2 ^ 15 ≤ r.toNat) :=
      (BitVec.msb_eq_getLsbD_last r).symm.trans (BitVec.msb_eq_decide r)
    have hand : r.toNat &&& 0x8000 = (r.toNat.testBit 15).toNat * 2 ^ 15 := Nat.and_two_pow _ 15
    rw [hand, hmsb]
    simp
  rw [shift_toNat]
  unfold TonProofSupport.crc16XmodemBit
  rw [Nat.shiftLeft_eq, Nat.pow_one, hmask, hmask, Nat.xor_mod_two_pow]
  by_cases h : 2 ^ 15 ≤ r.toNat
  · rw [if_pos (htop.mpr h), if_pos h]
  · rw [if_neg (fun hand => h (htop.mp hand)), if_neg h]
    omega

theorem crc16XmodemBits_eq (n : Nat) (r : BitVec 16) :
    (List.range n).foldl (fun crc _ => TonProofSupport.crc16XmodemBit crc) r.toNat
      = (Crc.shifts polynomial n r).toNat := by
  induction n generalizing r with
  | zero => rfl
  | succ n ih =>
      rw [List.range_succ_eq_map, List.foldl_cons, List.foldl_map, crc16XmodemBit_eq]
      exact ih _

/-- The division by bytes. -/
theorem crc16Xmodem_eq (data : Bytes) : TonProofSupport.crc16Xmodem data = checksumBytes data := by
  have hfold : ∀ r : BitVec 16, data.foldl (fun crc (b : UInt8) =>
        (List.range 8).foldl (fun crc _ => TonProofSupport.crc16XmodemBit crc)
          (crc ^^^ (b.toNat <<< 8))) r.toNat
      = (Crc.bytewise polynomial r (data.map UInt8.toNat)).toNat := by
    induction data with
    | nil => exact fun r => rfl
    | cons x data ih =>
        intro r
        have hx := x.toNat_lt
        have hbyte : r.toNat ^^^ (x.toNat <<< 8)
            = (r ^^^ (BitVec.ofNat 16 x.toNat <<< (16 - 8))).toNat := by
          have hshift : (BitVec.ofNat 16 x.toNat <<< (16 - 8)).toNat = x.toNat <<< 8 := by
            rw [BitVec.toNat_shiftLeft, BitVec.toNat_ofNat, Nat.shiftLeft_eq, Nat.shiftLeft_eq]
            omega
          rw [BitVec.toNat_xor, hshift]
        rw [List.foldl_cons, hbyte, crc16XmodemBits_eq, ih]
        rfl
  have hbytes : ∀ x ∈ data.map UInt8.toNat, x < 2 ^ 8 := by
    intro x hx
    obtain ⟨b, -, rfl⟩ := List.mem_map.mp hx
    exact b.toNat_lt
  have hall : data.foldl (fun crc (b : UInt8) =>
        (List.range 8).foldl (fun crc _ => TonProofSupport.crc16XmodemBit crc)
          (crc ^^^ (b.toNat <<< 8))) 0
      = (Crc.checksum polynomial (data.map UInt8.toNat)).toNat := by
    rw [← Crc.bytewise_eq polynomial (by decide) hbytes]
    exact hfold 0#16
  have hlow : ∀ n, UInt8.ofNat n = UInt8.ofNat (n % 256) := by
    intro n
    rw [← UInt8.toNat_inj, UInt8.toNat_ofNat', UInt8.toNat_ofNat', Nat.mod_mod_of_dvd]
    decide
  simp only [TonProofSupport.crc16Xmodem, hall, checksumBytes, Nat.shiftRight_eq_div_pow]
  rw [hlow (Crc.checksum polynomial (data.map UInt8.toNat)).toNat]

/-! ## Spellings -/

/-- Bounceable and not, each also for test networks only. -/
def tags : List UInt8 := [0x11, 0x51, 0x91, 0xd1]

/-- A byte as Java has it. -/
def signed (b : UInt8) : Int := (b.toNat : Int).bmod 256

/-- The texts that spell an address. -/
inductive Spells (jdk : Jdk) (s : List Char) : Int → Bytes → Prop where
  | raw {wc : Int} {hash : Bytes} (hcolon : ':' ∈ s) (hwc : jdk.parseInt (beforeColon s) = some wc)
      (hrange : -128 ≤ wc ∧ wc ≤ 127) (hhash : parseHex (afterColon s) = some hash)
      (hlen : hash.length = 32) : Spells jdk s wc hash
  | friendly {tag b : UInt8} {hash : Bytes} (hlen : hash.length = 32) (htag : tag ∈ tags)
      (hdecode : decode urlSafe s
        = some (tag :: b :: hash ++ checksumBytes (tag :: b :: hash))) : Spells jdk s (signed b) hash

variable {jdk : Jdk} {source : String} {p : TonAddressBoc.ParsedAddress}

theorem exists_of_bind_eq_ok {α β : Type} {x : Except String α} {f : α → Except String β} {b : β}
    (h : (x >>= f) = .ok b) : ∃ a, x = .ok a ∧ f a = .ok b := by
  cases x with
  | error e => cases h
  | ok a => exact ⟨a, rfl, h⟩

theorem orThrow_eq_ok {α : Type} {e : String} {o : Option α} {a : α} :
    orThrow e o = .ok a ↔ o = some a := by
  cases o with
  | none => simp [orThrow]
  | some b => simp [orThrow]

/-- What is known of a character of the url-safe alphabet. -/
structure UrlChar (c : Char) : Prop where
  value : standard (TonAddressBoc.toStandard c) = urlSafe c
  padding_iff : TonAddressBoc.toStandard c = padding ↔ c = padding
  ne_padding : c ≠ padding
  ne_colon : c ≠ ':'
  visible : 32 < c.toNat
  not_blank : isWhitespace c = false
  common : (standard c).isSome = true → standard c = urlSafe c

theorem urlChar {c : Char} (h : TonAddressBoc.isBase64UrlChar c = true) : UrlChar c := by
  have hall : ∀ n : Fin 128, TonAddressBoc.isBase64UrlChar (Char.ofNat n) = true →
      standard (TonAddressBoc.toStandard (Char.ofNat n)) = urlSafe (Char.ofNat n)
        ∧ (TonAddressBoc.toStandard (Char.ofNat n) = padding ↔ Char.ofNat n = padding)
        ∧ Char.ofNat n ≠ padding ∧ Char.ofNat n ≠ ':' ∧ 32 < (Char.ofNat n).toNat
        ∧ isWhitespace (Char.ofNat n) = false
        ∧ ((standard (Char.ofNat n)).isSome = true →
          standard (Char.ofNat n) = urlSafe (Char.ofNat n)) := by
    decide +kernel
  have hle : ∀ d : Char, c ≤ d → c.toNat ≤ d.toNat := fun d hd => UInt32.le_iff_toNat_le.mp hd
  have hlt : c.toNat < 128 := by
    have hcases := h
    simp only [TonAddressBoc.isBase64UrlChar, Bool.or_eq_true, Bool.and_eq_true, decide_eq_true_eq,
      beq_iff_eq] at hcases
    rcases hcases with (((⟨-, hz⟩ | ⟨-, hz⟩) | ⟨-, hz⟩) | rfl) | rfl
    · exact lt_of_le_of_lt (hle _ hz) (by decide)
    · exact lt_of_le_of_lt (hle _ hz) (by decide)
    · exact lt_of_le_of_lt (hle _ hz) (by decide)
    · decide
    · decide
  have hc := hall ⟨c.toNat, hlt⟩
  simp only [Char.ofNat_toNat] at hc
  obtain ⟨h₁, h₂, h₃, h₄, h₅, h₆, h₇⟩ := hc h
  exact ⟨h₁, h₂, h₃, h₄, h₅, h₆, h₇⟩

theorem isFriendly_spec {s : List Char} (h : TonAddressBoc.isFriendly s = true) :
    s.length = 48 ∧ ∀ c ∈ s, UrlChar c := by
  simp only [TonAddressBoc.isFriendly, Bool.and_eq_true, beq_iff_eq, List.all_eq_true] at h
  exact ⟨h.1, fun c hc => urlChar (h.2 c hc)⟩

/-- The first parser's base64 is the url-safe one. -/
theorem decode_toStandard {s : List Char} (h : ∀ c ∈ s, UrlChar c) :
    decode standard (s.map TonAddressBoc.toStandard) = decode urlSafe s :=
  decode_map fun c hc => ⟨(h c hc).value, (h c hc).padding_iff⟩

/-- What the second parser decodes with the standard alphabet has no character on which
the two differ. -/
theorem decode_standard {s : List Char} (h : ∀ c ∈ s, UrlChar c) {bytes : Bytes}
    (hdecode : decode standard s = some bytes) : decode urlSafe s = some bytes := by
  have hvalue := value_of_decode hdecode
  have hsame : decode standard (s.map id) = decode urlSafe s :=
    decode_map fun c hc =>
      ⟨(h c hc).common ((hvalue c hc).resolve_right (h c hc).ne_padding), Iff.rfl⟩
  rw [← hsame, List.map_id, hdecode]

theorem trim_visible {s : String} (h : ∀ c ∈ s.toList, 32 < c.toNat) : trim s = s := by
  have hdrop : ∀ l : List Char, (∀ c ∈ l, 32 < c.toNat) → l.dropWhile (·.toNat ≤ 32) = l := by
    intro l hl
    cases l with
    | nil => rfl
    | cons c l =>
        have hc := hl c (List.mem_cons_self ..)
        rw [List.dropWhile_cons_of_neg]
        simp only [decide_eq_true_eq]
        omega
  rw [trim, hdrop _ h, hdrop _ fun c hc => h c (List.mem_reverse.mp hc), List.reverse_reverse,
    String.ofList_toList]

theorem decodeBase64Any_eq {s : String} (hlen : s.toList.length = 48)
    (h : ∀ c ∈ s.toList, UrlChar c) :
    TonProofSupport.decodeBase64Any s
      = orThrow "IllegalArgumentException" (decode urlSafe s.toList) := by
  have hblank : isBlank s = false := by
    cases hl : s.toList with
    | nil => rw [hl] at hlen; cases hlen
    | cons c l =>
        have hc := h c (hl ▸ List.mem_cons_self ..)
        simp [isBlank, hl, hc.not_blank]
  have htrim := trim_visible fun c hc => (h c hc).visible
  unfold TonProofSupport.decodeBase64Any
  rw [hblank, if_neg Bool.false_ne_true, htrim]
  dsimp only
  rw [hlen, if_neg (Nat.lt_irrefl 0)]
  cases hd : decode standard s.toList with
  | none => rfl
  | some bytes => rw [decode_standard h hd]; rfl

/-! ## What each parser accepts -/

theorem of_eq_ok {wc : Int} {hash : Bytes} :
    TonAddressBoc.ParsedAddress.of wc hash = .ok p ↔ hash.length = 32 ∧ p = ⟨wc, hash⟩ := by
  unfold TonAddressBoc.ParsedAddress.of
  by_cases h : hash.length = 32
  · simp [h, eq_comm]
  · simp [h]

theorem parseFriendly_ok {s : List Char} (h : ∀ c ∈ s, UrlChar c)
    (hp : TonAddressBoc.parseFriendly s = .ok p) :
    ∃ tag b, tag ∈ tags ∧ p.hash.length = 32
      ∧ p.workchain = (if b = 0xff then -1 else (b.toNat : Int))
      ∧ decode urlSafe s = some (tag :: b :: p.hash ++ checksumBytes (tag :: b :: p.hash)) := by
  simp only [TonAddressBoc.parseFriendly, bind_eq_ok, orThrow_eq_ok, require_eq_ok,
    decode_toStandard h, of_eq_ok, crc16_eq, exists_const] at hp
  obtain ⟨data, hdata, hlen, hcrc, htag, hhash, rfl⟩ := hp
  obtain ⟨tag, b, hash, rest, rfl, hsplit⟩ :
      ∃ tag b hash rest, data = tag :: b :: hash ++ rest ∧ hash.length = 32 := by
    cases data with
    | nil => cases hlen
    | cons tag data =>
        cases data with
        | nil => cases hlen
        | cons b data =>
            refine ⟨tag, b, data.take 32, data.drop 32, ?_, ?_⟩
            · simp
            · simp only [List.length_cons] at hlen
              rw [List.length_take]
              omega
  have htake : (tag :: b :: hash ++ rest).take 34 = tag :: b :: hash :=
    List.take_left' (by simp [hsplit])
  have hdrop : (tag :: b :: hash ++ rest).drop 34 = rest := List.drop_left' (by simp [hsplit])
  rw [htake, hdrop] at hcrc
  rw [htake] at htag ⊢
  have htags : ∀ t : Fin 256, (let n := (UInt8.ofNat t).toNat
      let m := if n &&& TonAddressBoc.TEST_FLAG ≠ 0 then n ^^^ TonAddressBoc.TEST_FLAG else n
      m = TonAddressBoc.BOUNCEABLE_TAG ∨ m = TonAddressBoc.NON_BOUNCEABLE_TAG) →
      UInt8.ofNat t ∈ tags := by
    decide +kernel
  have hmem := htags ⟨tag.toNat, tag.toNat_lt⟩
  simp only [UInt8.ofNat_toNat] at hmem
  have hbyte : (b.toNat = 0xff) ↔ b = 0xff := by
    rw [← UInt8.toNat_inj]
    rfl
  refine ⟨tag, b, hmem htag, hsplit, ?_, ?_⟩
  · show (if b.toNat = 0xff then (-1 : Int) else b.toNat) = _
    simp only [hbyte]
  · rw [hdata]
    show some _ = some (tag :: b :: hash ++ checksumBytes (tag :: b :: hash))
    rw [hcrc]

theorem isRaw_spec {s : List Char} (h : TonAddressBoc.isRaw jdk s = true) :
    ':' ∈ s ∧ ∃ wc, jdk.parseInt (beforeColon s) = some wc ∧ -128 ≤ wc ∧ wc ≤ 127 := by
  unfold TonAddressBoc.isRaw at h
  split at h
  · cases h
  · rename_i hcolon
    obtain ⟨hmem, -⟩ := not_or.mp hcolon
    split at h
    · cases h
    · rename_i wc hwc
      dsimp only at h
      split at h
      · cases h
      · split at h
        · cases h
        · exact ⟨not_not.mp hmem, wc, hwc, of_decide_eq_true h⟩

/-- How the first parser has come to an address. -/
inductive Parsed (jdk : Jdk) (s : List Char) (p : TonAddressBoc.ParsedAddress) : Prop where
  | raw (hcolon : ':' ∈ s) (hwc : jdk.parseInt (beforeColon s) = some p.workchain)
      (hrange : -128 ≤ p.workchain ∧ p.workchain ≤ 127)
      (hhash : parseHex (afterColon s) = some p.hash) (hlen : p.hash.length = 32)
  | friendly (tag b : UInt8) (hchars : ∀ c ∈ s, UrlChar c) (hsize : s.length = 48)
      (htag : tag ∈ tags) (hlen : p.hash.length = 32)
      (hwc : p.workchain = if b = 0xff then -1 else (b.toNat : Int))
      (hdecode : decode urlSafe s
        = some (tag :: b :: p.hash ++ checksumBytes (tag :: b :: p.hash)))

theorem parsed_of_parse (h : TonAddressBoc.parse jdk source = .ok p) :
    Parsed jdk (trim source).toList p := by
  unfold TonAddressBoc.parse at h
  dsimp only at h
  split at h
  · cases h
  · split at h
    · rename_i hraw
      obtain ⟨hcolon, wc, hwc, hrange⟩ := isRaw_spec hraw
      simp only [TonAddressBoc.parseRaw, bind_eq_ok, orThrow_eq_ok, of_eq_ok] at h
      obtain ⟨wc', hwc', hash, hhash, hlen, rfl⟩ := h
      rw [hwc] at hwc'
      cases hwc'
      exact .raw hcolon hwc hrange hhash hlen
    · split at h
      · rename_i hfriendly
        obtain ⟨hsize, hchars⟩ := isFriendly_spec hfriendly
        obtain ⟨tag, b, htag, hlen, hwc, hdecode⟩ := parseFriendly_ok hchars h
        exact .friendly tag b hchars hsize htag hlen hwc hdecode
      · cases h

/-- A friendly spelling whose workchain byte is negative and not -1. -/
def otherNegative (source : String) : Bool :=
  match decode urlSafe (trim source).toList with
  | some (_ :: b :: _) => decide (0x80 ≤ b ∧ b < 0xff)
  | _ => false

theorem otherNegative_raw (h : ':' ∈ (trim source).toList) : otherNegative source = false := by
  unfold otherNegative
  split
  · rename_i hdecode
    rcases value_of_decode hdecode ':' h with hv | hv
    · exact absurd hv (by decide)
    · exact absurd hv (by decide)
  · rfl

/-- The two readings of a workchain byte. -/
theorem workchain_byte (b : UInt8) :
    signed b = (if b = 0xff then -1 else (b.toNat : Int)).bmod 256
      ∧ ((if b = 0xff then -1 else (b.toNat : Int)).bmod 256
            = (if b = 0xff then -1 else (b.toNat : Int))
          ↔ decide (0x80 ≤ b ∧ b < 0xff) = false) := by
  have hall : ∀ n : Fin 256,
      signed (UInt8.ofNat n) = (if UInt8.ofNat n = 0xff then -1
          else ((UInt8.ofNat n).toNat : Int)).bmod 256
        ∧ ((if UInt8.ofNat n = 0xff then -1 else ((UInt8.ofNat n).toNat : Int)).bmod 256
              = (if UInt8.ofNat n = 0xff then -1 else ((UInt8.ofNat n).toNat : Int))
            ↔ decide (0x80 ≤ UInt8.ofNat n ∧ UInt8.ofNat n < 0xff) = false) := by
    decide +kernel
  have hb := hall ⟨b.toNat, b.toNat_lt⟩
  simpa only [UInt8.ofNat_toNat] using hb

/-- The second parser accepts every spelling that the first one has parsed, and reads
the workchain byte as signed. -/
theorem parseAddress_of_parsed (h : Parsed jdk (trim source).toList p) :
    p.hash.length = 32 ∧ Spells jdk (trim source).toList (p.workchain.bmod 256) p.hash
      ∧ TonProofSupport.parseAddress jdk source
        = .ok ⟨trim source, p.workchain.bmod 256, p.hash,
            TonAddressBoc.rawText (p.workchain.bmod 256) p.hash⟩
      ∧ (p.workchain.bmod 256 = p.workchain ↔ otherNegative source = false) := by
  cases h with
  | raw hcolon hwc hrange hhash hlen =>
      have hsame : p.workchain.bmod 256 = p.workchain := by
        rw [Int.bmod_eq_of_le (by omega) (by omega)]
      have hspells : Spells jdk (trim source).toList p.workchain p.hash :=
        .raw hcolon hwc hrange hhash hlen
      refine ⟨hlen, hsame.symm ▸ hspells, ?_, iff_of_true hsame (otherNegative_raw hcolon)⟩
      simp only [TonProofSupport.parseAddress, if_pos hcolon, TonProofSupport.parseRawAddress, hwc,
        hhash, orThrow, ok_bind, require_pos hlen, hsame]
  | friendly tag b hchars hsize htag hlen hwc hdecode =>
      obtain ⟨hsigned, hiff⟩ := workchain_byte b
      have hother : otherNegative source = decide (0x80 ≤ b ∧ b < 0xff) := by
        unfold otherNegative
        rw [hdecode]
        rfl
      rw [← hwc] at hsigned hiff
      refine ⟨hlen, hsigned ▸ .friendly hlen htag hdecode, ?_, hother ▸ hiff⟩
      have hcolon : ¬ ':' ∈ (trim source).toList := fun hmem => (hchars ':' hmem).ne_colon rfl
      have htake : (tag :: b :: p.hash ++ checksumBytes (tag :: b :: p.hash)).take 34
          = tag :: b :: p.hash := List.take_left' (by simp [hlen])
      have hdrop : (tag :: b :: p.hash ++ checksumBytes (tag :: b :: p.hash)).drop 34
          = checksumBytes (tag :: b :: p.hash) := List.drop_left' (by simp [hlen])
      have hsum : (tag :: b :: p.hash ++ checksumBytes (tag :: b :: p.hash)).length = 36 := by
        simp [hlen, checksumBytes]
      rw [← hsigned]
      simp only [TonProofSupport.parseAddress, if_neg hcolon, TonProofSupport.parseFriendlyAddress,
        decodeBase64Any_eq hsize hchars, hdecode, orThrow, ok_bind, require_pos hsum, htake, hdrop,
        crc16Xmodem_eq]
      rfl

/-! ## The address codec -/

namespace TonAddressBoc

theorem writeBytes_eq (b : BitWriter) (bytes : Bytes) :
    b.writeBytes bytes = b ++ Builder.byteBits bytes := by
  unfold BitWriter.writeBytes
  induction bytes generalizing b with
  | nil => simp [Builder.byteBits]
  | cons x bytes ih =>
      rw [List.foldl_cons, ih]
      simp only [BitWriter.writeUInt, Builder.byteBits, List.flatMap_cons, List.append_assoc]

/-- The bits of an address. -/
theorem addressBits_eq (p : ParsedAddress) :
    addressBits p = [true, false, false] ++ natToBits 8 (p.workchain % 256).toNat
      ++ Builder.byteBits p.hash := by
  unfold addressBits
  dsimp only
  rw [writeBytes_eq]
  rfl

theorem addressBits_length (h : p.hash.length = 32) : (addressBits p).length = 267 := by
  rw [addressBits_eq]
  simp [h]

/-- The data of the cell: the bits, a one and four zeros, in 34 bytes. -/
theorem toPaddedCellBytes_spec (h : p.hash.length = 32) :
    Builder.byteBits (addressBits p).toPaddedCellBytes
        = addressBits p ++ [true, false, false, false, false]
      ∧ (addressBits p).toPaddedCellBytes.length = 34 := by
  have hlen := addressBits_length h
  have hpad : (addressBits p).toPaddedCellBytes
      = packBytes (addressBits p ++ [true, false, false, false, false]) := by
    unfold BitWriter.toPaddedCellBytes
    rw [hlen]
    show packBytes (((((addressBits p ++ [true]) ++ [false]) ++ [false]) ++ [false]) ++ [false]) = _
    simp only [List.append_assoc, List.cons_append, List.nil_append]
  rw [hpad]
  exact byteBits_packBytes (by simp [hlen])

/-- Everything before the cell's bytes. -/
def bagHeader : Bytes := [0xb5, 0xee, 0x9c, 0x72, 0x41, 1, 1, 1, 0, 36, 0]

theorem bagOfCell_eq {cellBytes : Bytes} (h : cellBytes.length = 36) :
    bagOfCell cellBytes = bagHeader ++ cellBytes := by
  have hone : max 1 ((bitsForUint 1 + 7) / 8) = 1 := by decide
  have hsize : max 1 ((bitsForUint 36 + 7) / 8) = 1 := by decide
  unfold bagOfCell
  dsimp only
  rw [h, hone, hsize, writeBytes_eq]
  have hhead : ∀ l : List Bool, packBytes (Builder.byteBits bagHeader ++ l) = bagHeader ++ packBytes l :=
    packBytes_append bagHeader
  have hcell : packBytes (Builder.byteBits cellBytes) = cellBytes := by
    have hall := packBytes_append cellBytes []
    rwa [List.append_nil, packBytes_nil, List.append_nil] at hall
  show packBytes (Builder.byteBits bagHeader ++ Builder.byteBits cellBytes) = _
  rw [hhead, hcell]

namespace BitReader

variable {r : BitReader} {l rest : List Bool} {bit : Bool}

/-- What is left to read. -/
def ahead (r : BitReader) : List Bool := ((Builder.byteBits r.data).take r.bitLen).drop r.pos

theorem readBit_ahead (h : r.ahead = bit :: rest) :
    ∃ r', r.readBit = .ok (bit, r') ∧ r'.ahead = rest := by
  have hpos : r.pos < ((Builder.byteBits r.data).take r.bitLen).length := by
    by_contra hge
    rw [ahead, List.drop_of_length_le (Nat.not_lt.mp hge)] at h
    cases h
  have hcons := List.drop_eq_getElem_cons hpos
  rw [ahead, hcons] at h
  obtain ⟨hbit, hrest⟩ := List.cons.inj h
  rw [List.length_take] at hpos
  rw [List.getElem_take] at hbit
  have hat : (Builder.byteBits r.data)[r.pos]? = some bit := by
    rw [List.getElem?_eq_getElem (by omega), hbit]
  refine ⟨{ r with pos := r.pos + 1 }, ?_, hrest⟩
  unfold readBit
  rw [if_neg (by omega), hat]
  rfl

theorem readUint_ahead {n : Nat} (h : r.ahead = l ++ rest) (hn : l.length = n) :
    ∃ r', r.readUint n = .ok (bitsToNat l, r') ∧ r'.ahead = rest := by
  have hall : ∀ (l : List Bool) (r : BitReader) (v : Nat), r.ahead = l ++ rest →
      ∃ r', r.readUintFrom v l.length = .ok (l.foldl (fun a b => 2 * a + b.toNat) v, r')
        ∧ r'.ahead = rest := by
    intro l
    induction l with
    | nil => exact fun r v h => ⟨r, rfl, h⟩
    | cons b l ih =>
        intro r v h
        obtain ⟨r₁, hread, hahead⟩ := readBit_ahead h
        obtain ⟨r₂, hrest, hend⟩ := ih r₁ (2 * v + b.toNat) hahead
        refine ⟨r₂, ?_, hend⟩
        rw [List.length_cons, readUintFrom, hread, ok_bind]
        exact hrest
  exact hn ▸ hall l r 0 h

theorem readBytes_ahead {bytes : Bytes} {n : Nat} (h : r.ahead = Builder.byteBits bytes ++ rest)
    (hn : bytes.length = n) : ∃ r', r.readBytes n = .ok (bytes, r') ∧ r'.ahead = rest := by
  subst hn
  induction bytes generalizing r with
  | nil => exact ⟨r, rfl, h⟩
  | cons x bytes ih =>
      have hx : r.ahead = natToBits 8 x.toNat ++ (Builder.byteBits bytes ++ rest) := by
        rw [h, Builder.byteBits, List.flatMap_cons, List.append_assoc]
        rfl
      obtain ⟨r₁, hread, hahead⟩ := readUint_ahead hx (natToBits_length 8 _)
      obtain ⟨r₂, hrest, hend⟩ := ih hahead
      refine ⟨r₂, ?_, hend⟩
      rw [List.length_cons, readBytes, hread, ok_bind]
      dsimp only
      rw [hrest, ok_bind, bitsToNat_natToBits x.toNat_lt, UInt8.ofNat_toNat]

end BitReader

/-- A number of one byte. -/
theorem readBeUint_one {full : Bytes} {offset : Int} {b : Nat} (h : byteAt full offset = .ok b)
    (hb : b < 256) : readBeUint full offset 1 = .ok (b : Int) := by
  have hone : readBeUint full offset 1 = (do
      let b ← byteAt full (offset + 0)
      .ok (int32 (0 * 256 + b))) := by
    unfold readBeUint
    simp [List.range_succ]
  rw [hone, Int.add_zero, h, ok_bind, Int.zero_mul, Int.zero_add, int32,
    Int.bmod_eq_of_le (by omega) (by omega)]

theorem copyOfRange_eq {a b c : Bytes} {start stop : Int} (hstart : start = a.length)
    (hstop : stop = a.length + b.length) : copyOfRange (a ++ b ++ c) start stop = .ok b := by
  subst hstart hstop
  have hn : ((a.length : Int) + b.length - a.length).toNat = b.length := by omega
  have hcopied : ((a ++ b ++ c).drop a.length).take b.length = b := by
    rw [List.append_assoc, List.drop_left' rfl, List.take_left' rfl]
  unfold copyOfRange
  rw [if_neg (by omega), if_neg (by simp; omega)]
  dsimp only
  rw [hn, Int.toNat_natCast, hcopied, Nat.sub_self, List.replicate_zero, List.append_nil]

/-- A bag of one cell of 36 bytes is taken apart again. -/
theorem bag_read {cellBytes sum : Bytes} (h : cellBytes.length = 36) :
    byteAt (bagHeader ++ cellBytes ++ sum) 4 = .ok 0x41
      ∧ byteAt (bagHeader ++ cellBytes ++ sum) 5 = .ok 1
      ∧ readBeUint (bagHeader ++ cellBytes ++ sum) 6 1 = .ok 1
      ∧ readBeUint (bagHeader ++ cellBytes ++ sum) 9 1 = .ok 36
      ∧ copyOfRange (bagHeader ++ cellBytes ++ sum) 11 47 = .ok cellBytes := by
  refine ⟨rfl, rfl, readBeUint_one rfl (by decide), readBeUint_one rfl (by decide), ?_⟩
  exact copyOfRange_eq rfl (by rw [h]; rfl)

/-- The decoder's reading of the cell's data. -/
theorem read_address (h : p.hash.length = 32) {padded : Bytes}
    (hpadded : Builder.byteBits padded = addressBits p ++ [true, false, false, false, false]) :
    ∃ r₁ r₂ r₃ r₄, (BitReader.mk padded 267 0).readUint 2 = .ok (2, r₁)
      ∧ r₁.readBit = .ok (false, r₂) ∧ r₂.readInt 8 = .ok (p.workchain.bmod 256, r₃)
      ∧ r₃.readBytes 32 = .ok (p.hash, r₄) := by
  have hahead : (BitReader.mk padded 267 0).ahead = [true, false] ++ (false
      :: (natToBits 8 (p.workchain % 256).toNat ++ (Builder.byteBits p.hash ++ []))) := by
    show ((Builder.byteBits padded).take 267).drop 0 = _
    rw [hpadded, List.take_left' (addressBits_length h), addressBits_eq]
    simp
  obtain ⟨r₁, h₁, hahead₁⟩ := BitReader.readUint_ahead hahead rfl
  obtain ⟨r₂, h₂, hahead₂⟩ := BitReader.readBit_ahead hahead₁
  obtain ⟨r₃, h₃, hahead₃⟩ := BitReader.readUint_ahead hahead₂ (natToBits_length 8 _)
  obtain ⟨r₄, h₄, -⟩ := BitReader.readBytes_ahead hahead₃ h
  refine ⟨r₁, r₂, r₃, r₄, h₁, h₂, ?_, h₄⟩
  have hmod : 0 ≤ p.workchain % 256 ∧ p.workchain % 256 < 256 := by omega
  have hlt : (p.workchain % 256).toNat < 2 ^ 8 := by omega
  rw [BitReader.readInt, h₃, ok_bind, bitsToNat_natToBits hlt]
  show Except.ok (((p.workchain % 256).toNat : Int).bmod 256, r₃) = _
  have hsign : (p.workchain % 256).bmod 256 = p.workchain.bmod 256 := Int.emod_bmod p.workchain 256
  rw [Int.toNat_of_nonneg hmod.1, hsign]

/-- The two descriptor bytes and the data. -/
def addressCell (p : ParsedAddress) : Bytes := 0 :: 67 :: (addressBits p).toPaddedCellBytes

theorem addressCellToBocBase64_eq (h : parse jdk source = .ok p) (hlen : p.hash.length = 32) :
    addressCellToBocBase64 jdk source
      = .ok (String.ofList (encode (bagHeader ++ addressCell p
          ++ crcBytes (jdk.crc32c (bagHeader ++ addressCell p))))) := by
  have hcell : (addressCell p).length = 36 := by
    simp [addressCell, (toPaddedCellBytes_spec hlen).2]
  have hbag : bagOfCell (0 :: .ofNat (bitsDescriptor 267) :: (addressBits p).toPaddedCellBytes)
      = bagHeader ++ addressCell p := bagOfCell_eq hcell
  rw [addressCellToBocBase64, h, ok_bind]
  dsimp only
  rw [require_pos (addressBits_length hlen), ok_bind, hbag]

/-- What the decoder makes of the encoded address: its workchain modulo 256, with a
sign. -/
theorem decode_address (h : parse jdk source = .ok p) (hlen : p.hash.length = 32) :
    ∃ boc, addressCellToBocBase64 jdk source = .ok boc
      ∧ decodeRawAddressFromSingleRootBoc jdk boc
        = .ok (rawText (p.workchain.bmod 256) p.hash) := by
  refine ⟨_, addressCellToBocBase64_eq h hlen, ?_⟩
  obtain ⟨hpadded, hpadlen⟩ := toPaddedCellBytes_spec hlen
  unfold addressCell
  generalize (addressBits p).toPaddedCellBytes = padded at hpadded hpadlen
  have hcell : (0 :: 67 :: padded : Bytes).length = 36 := by simp [hpadlen]
  generalize hsum : crcBytes (jdk.crc32c (bagHeader ++ 0 :: 67 :: padded)) = sum
  have hsumlen : sum.length = 4 := hsum ▸ rfl
  obtain ⟨hmeta, hoffset, hcells, htotal, hcopy⟩ := @bag_read _ sum hcell
  obtain ⟨r₁, r₂, r₃, r₄, h₁, h₂, h₃, h₄⟩ := read_address hlen hpadded
  have hfull : (bagHeader ++ 0 :: 67 :: padded ++ sum).length = 51 := by
    simp [bagHeader, hpadlen, hsumlen]
  have htake : (bagHeader ++ 0 :: 67 :: padded ++ sum).take 47 = bagHeader ++ 0 :: 67 :: padded :=
    List.take_left' (by simp [bagHeader, hpadlen])
  have hdrop : (bagHeader ++ 0 :: 67 :: padded ++ sum).drop 47 = sum :=
    List.drop_left' (by simp [bagHeader, hpadlen])
  have hdata : copyOfRange (0 :: 67 :: padded) 2 36 = .ok padded := by
    have hc := @copyOfRange_eq [0, 67] padded [] 2 36 rfl (by rw [hpadlen]; rfl)
    rwa [List.append_nil] at hc
  have hbits : bitLengthFromPaddedPayload padded 67 = .ok 267 := if_pos rfl
  unfold decodeRawAddressFromSingleRootBoc
  rw [String.toList_ofList, decode_encode]
  simp only [orThrow, ok_bind, hfull, htake, hdrop, hsum, hmeta, hoffset, require,
    Nat.reduceSub, Nat.reduceMod, Nat.reduceLeDiff, if_true, Nat.zero_lt_one]
  have hnine : (6 + 3 * ((1 : Nat) : Int)) = 9 := rfl
  have heleven : (9 + ((1 : Nat) : Int) + ((1 : Nat) : Int)) = 11 := rfl
  have hlayout : True ∧ (0 : Int) < 36 ∧ int32 (11 + 36 + 4) ≤ ((51 : Nat) : Int) := by decide
  have hstop : int32 (11 + 36) = 47 := by decide
  have hd2 : byteAt (0 :: 67 :: padded) 1 = .ok 67 := rfl
  have hcellInt : ((0 :: 67 :: padded : Bytes).length : Int) = 36 := by rw [hcell]; rfl
  simp only [hcells, ok_bind, hnine, htotal, heleven, hstop, hcopy, hd2, hcellInt, hdata, hbits, h₁,
    h₂, h₃, h₄, if_true]
  rw [if_pos hlayout]
  rfl

/-! ## Keys -/

theorem digits_no_colon (n : Nat) : ∀ c ∈ n.repr.toList, (c != ':') = true := by
  intro c hc
  rw [Nat.toList_repr] at hc
  have hdigit := Nat.isDigit_of_mem_toDigits (by decide) (by decide) hc
  rw [bne_iff_ne]
  rintro rfl
  exact absurd hdigit (by decide)

theorem toString_no_colon (wc : Int) : ∀ c ∈ (toString wc).toList, (c != ':') = true := by
  cases wc with
  | ofNat n => exact digits_no_colon n
  | negSucc n =>
      intro c hc
      have hneg : (toString (Int.negSucc n)).toList = '-' :: (n + 1).repr.toList := by
        show ("-" ++ (n + 1).repr).toList = _
        rw [String.toList_append]
        rfl
      rw [hneg] at hc
      rcases List.mem_cons.mp hc with rfl | hc
      · rfl
      · exact digits_no_colon _ c hc

/-- The key of an address tells it from every other. -/
theorem rawText_inj {wc wc' : Int} {hash hash' : Bytes} :
    rawText wc hash = rawText wc' hash' ↔ wc = wc' ∧ hash = hash' := by
  refine ⟨fun h => ?_, fun ⟨hwc, hhash⟩ => hwc ▸ hhash ▸ rfl⟩
  have hsplit : ∀ (wc : Int) (hash : Bytes),
      (rawText wc hash).toList = (toString wc).toList ++ ':' :: formatHex hash := by
    intro wc hash
    simp [rawText]
  have hbefore : ∀ (wc : Int) (hash : Bytes),
      (rawText wc hash).toList.takeWhile (· != ':') = (toString wc).toList := by
    intro wc hash
    rw [hsplit, List.takeWhile_append_of_pos (toString_no_colon wc),
      List.takeWhile_cons_of_neg (by decide), List.append_nil]
  have htext : (toString wc).toList = (toString wc').toList := by
    rw [← hbefore wc hash, h, hbefore]
  have hwc : wc = wc' := Int.repr_injective (String.toList_inj.mp htext)
  subst hwc
  have hall : (rawText wc hash).toList = (rawText wc hash').toList := congrArg _ h
  rw [hsplit, hsplit] at hall
  exact ⟨rfl, formatHex_injective (List.cons.inj (List.append_cancel_left hall)).2⟩

end TonAddressBoc

/-! ## Agreement -/

/-- The second parser accepts the text, with the same address and the same key. -/
def SameReading (jdk : Jdk) (source : String) (p : TonAddressBoc.ParsedAddress) : Prop :=
  ∃ r, TonProofSupport.parseAddress jdk source = .ok r ∧ r.workchain = p.workchain
    ∧ r.hashPart = p.hash ∧ TonAddressBoc.normalizeKey jdk source = .ok r.canonicalRaw

/-- The encoded address is decoded to the key. -/
def RoundTrip (jdk : Jdk) (source : String) : Prop :=
  ∃ boc key, TonAddressBoc.addressCellToBocBase64 jdk source = .ok boc
    ∧ TonAddressBoc.normalizeKey jdk source = .ok key
    ∧ TonAddressBoc.decodeRawAddressFromSingleRootBoc jdk boc = .ok key

/-- Two accepted spellings have one key exactly when they spell one address. -/
def KeyOfAddress (jdk : Jdk) (source source' : String) : Prop :=
  ∀ wc hash wc' hash', Spells jdk (trim source).toList wc hash →
    Spells jdk (trim source').toList wc' hash' →
    (TonAddressBoc.normalizeKey jdk source = TonAddressBoc.normalizeKey jdk source'
      ↔ wc = wc' ∧ hash = hash')

theorem normalizeKey_of_parse (h : TonAddressBoc.parse jdk source = .ok p) :
    TonAddressBoc.normalizeKey jdk source = .ok (TonAddressBoc.rawText p.workchain p.hash) := by
  rw [TonAddressBoc.normalizeKey, h, ok_bind]

/-- A text spells at most one address. -/
theorem Spells.unique {s : List Char} {wc wc' : Int} {hash hash' : Bytes}
    (h : Spells jdk s wc hash) (h' : Spells jdk s wc' hash') : wc = wc' ∧ hash = hash' := by
  have hmixed : ∀ {bytes : Bytes}, ':' ∈ s → decode urlSafe s = some bytes → False := by
    intro bytes hcolon hdecode
    rcases value_of_decode hdecode ':' hcolon with hv | hv
    · exact absurd hv (by decide)
    · exact absurd hv (by decide)
  cases h with
  | raw hcolon hwc _ hhash _ =>
      cases h' with
      | raw _ hwc' _ hhash' _ =>
          rw [hwc] at hwc'
          rw [hhash] at hhash'
          exact ⟨Option.some.inj hwc', Option.some.inj hhash'⟩
      | friendly _ _ hdecode => exact (hmixed hcolon hdecode).elim
  | friendly hlen _ hdecode =>
      cases h' with
      | raw hcolon _ _ _ _ => exact (hmixed hcolon hdecode).elim
      | friendly hlen' _ hdecode' =>
          rw [hdecode] at hdecode'
          obtain ⟨-, hrest⟩ := List.cons.inj (Option.some.inj hdecode')
          obtain ⟨rfl, hrest⟩ := List.cons.inj hrest
          exact ⟨rfl, (List.append_inj hrest (hlen.trans hlen'.symm)).1⟩

/-- Each reading agrees with the first parser's unless the workchain is negative and
not -1. -/
theorem reading_iff (h : TonAddressBoc.parse jdk source = .ok p) :
    (SameReading jdk source p ↔ otherNegative source = false)
      ∧ (RoundTrip jdk source ↔ otherNegative source = false) := by
  obtain ⟨hlen, -, hsecond, hiff⟩ := parseAddress_of_parsed (parsed_of_parse h)
  have hkey := normalizeKey_of_parse h
  constructor
  · rw [← hiff]
    constructor
    · rintro ⟨r, hr, hwc, -, -⟩
      rw [hsecond] at hr
      cases hr
      exact hwc
    · intro hsame
      refine ⟨_, hsecond, hsame, rfl, ?_⟩
      rw [hkey, hsame]
  · rw [← hiff]
    obtain ⟨boc, hboc, hdecode⟩ := TonAddressBoc.decode_address h hlen
    constructor
    · rintro ⟨boc', key, hboc', hkey', hdecode'⟩
      rw [hboc] at hboc'
      cases hboc'
      rw [hkey] at hkey'
      cases hkey'
      rw [hdecode] at hdecode'
      exact (TonAddressBoc.rawText_inj.mp (Except.ok.inj hdecode')).1
    · intro hsame
      refine ⟨boc, _, hboc, hkey, ?_⟩
      rw [hdecode, hsame]

theorem keyOfAddress {source' : String} {p' : TonAddressBoc.ParsedAddress}
    (h : TonAddressBoc.parse jdk source = .ok p) (h' : TonAddressBoc.parse jdk source' = .ok p')
    (hneg : otherNegative source = false) (hneg' : otherNegative source' = false) :
    KeyOfAddress jdk source source' := by
  obtain ⟨-, hspells, -, hiff⟩ := parseAddress_of_parsed (parsed_of_parse h)
  obtain ⟨-, hspells', -, hiff'⟩ := parseAddress_of_parsed (parsed_of_parse h')
  rw [hiff.mpr hneg] at hspells
  rw [hiff'.mpr hneg'] at hspells'
  intro wc hash wc' hash' hs hs'
  obtain ⟨rfl, rfl⟩ := hspells.unique hs
  obtain ⟨rfl, rfl⟩ := hspells'.unique hs'
  rw [normalizeKey_of_parse h, normalizeKey_of_parse h', Except.ok.injEq, TonAddressBoc.rawText_inj]

/-- **Two parsers and a codec.** Every text that the first parser accepts spells an
address, and of any two of them: both are read alike by the second parser, come back
from the codec as their keys, and have one key exactly when they spell one address, if
and only if neither is a friendly spelling with a negative workchain other than -1. -/
theorem addresses_agree {jdk : Jdk} {source source' : String}
    {p p' : TonAddressBoc.ParsedAddress} (h : TonAddressBoc.parse jdk source = .ok p)
    (h' : TonAddressBoc.parse jdk source' = .ok p') :
    (∃ wc hash, Spells jdk (trim source).toList wc hash)
      ∧ ((SameReading jdk source p ∧ RoundTrip jdk source)
          ∧ (SameReading jdk source' p' ∧ RoundTrip jdk source')
          ∧ KeyOfAddress jdk source source'
        ↔ otherNegative source = false ∧ otherNegative source' = false) := by
  obtain ⟨-, hspells, -, -⟩ := parseAddress_of_parsed (parsed_of_parse h)
  obtain ⟨hsame, hround⟩ := reading_iff h
  obtain ⟨hsame', hround'⟩ := reading_iff h'
  refine ⟨⟨_, _, hspells⟩, ?_⟩
  constructor
  · rintro ⟨⟨hs, -⟩, ⟨hs', -⟩, -⟩
    exact ⟨hsame.mp hs, hsame'.mp hs'⟩
  · rintro ⟨hneg, hneg'⟩
    exact ⟨⟨hsame.mpr hneg, hround.mpr hneg⟩, ⟨hsame'.mpr hneg', hround'.mpr hneg'⟩,
      keyOfAddress h h' hneg hneg'⟩

/-! ## Two addresses -/

/-- The platform on Latin text. -/
def latin : Jdk where
  digit c radix :=
    (if '0' ≤ c ∧ c ≤ '9' then some (c.toNat - '0'.toNat)
      else if 'a' ≤ c ∧ c ≤ 'z' then some (c.toNat - 'a'.toNat + 10)
      else if 'A' ≤ c ∧ c ≤ 'Z' then some (c.toNat - 'A'.toNat + 10)
      else none).filter fun n => decide (n < radix)
  toLowerCase := List.map Char.toLower
  crc32c bytes := ~~~ bytes.foldl (fun crc (x : UInt8) =>
    (List.range 8).foldl (fun (crc : BitVec 32) _ =>
      if crc.getLsbD 0 then (crc >>> 1) ^^^ 0x82f63b78#32 else crc >>> 1)
      (crc ^^^ BitVec.ofNat 32 x.toNat)) 0xffffffff#32

def wallet : String := "0:030A11181F262D343B424950575E656C737A81888F969DA4ABB2B9C0C7CED5DC"

def walletFriendly : String := "EQADChEYHyYtNDtCSVBXXmVsc3qBiI-WnaSrsrnAx87V3Ls2"

/-- The raw and the bounceable spelling of one address. -/
theorem addresses_agree_wallet :
    RoundTrip latin wallet ∧ RoundTrip latin walletFriendly
      ∧ KeyOfAddress latin wallet walletFriendly := by
  have hwallet : (TonAddressBoc.parse latin wallet).toOption.isSome = true := by decide +kernel
  have hfriendly : (TonAddressBoc.parse latin walletFriendly).toOption.isSome = true := by
    decide +kernel
  have hneg : otherNegative wallet = false ∧ otherNegative walletFriendly = false := by
    decide +kernel
  cases h : TonAddressBoc.parse latin wallet with
  | error e =>
      rw [h] at hwallet
      cases hwallet
  | ok p =>
      cases h' : TonAddressBoc.parse latin walletFriendly with
      | error e =>
          rw [h'] at hfriendly
          cases hfriendly
      | ok p' =>
          obtain ⟨⟨-, hr⟩, ⟨-, hr'⟩, hkey⟩ := (addresses_agree h h').2.mpr hneg
          exact ⟨hr, hr', hkey⟩

/-- The address of workchain -128 in its friendly spelling, and in its raw one. -/
theorem addresses_differ :
    (TonAddressBoc.normalizeKey latin "EYADChEYHyYtNDtCSVBXXmVsc3qBiI-WnaSrsrnAx87V3H00").toOption
        = some "128:030a11181f262d343b424950575e656c737a81888f969da4abb2b9c0c7ced5dc"
      ∧ (TonProofSupport.parseAddress latin
          "EYADChEYHyYtNDtCSVBXXmVsc3qBiI-WnaSrsrnAx87V3H00").toOption.map (·.canonicalRaw)
        = some "-128:030a11181f262d343b424950575e656c737a81888f969da4abb2b9c0c7ced5dc"
      ∧ (do
          let boc ← TonAddressBoc.addressCellToBocBase64 latin
            "EYADChEYHyYtNDtCSVBXXmVsc3qBiI-WnaSrsrnAx87V3H00"
          TonAddressBoc.decodeRawAddressFromSingleRootBoc latin boc).toOption
        = some "-128:030a11181f262d343b424950575e656c737a81888f969da4abb2b9c0c7ced5dc" := by
  decide +kernel

end BurnedChats

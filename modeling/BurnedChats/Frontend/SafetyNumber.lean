import BurnedChats.Backend.Handshake

/-!
# What a safety number says

`ecdh.ts` sorts the two exported public keys, hashes them one after the other and writes
the first sixteen bytes of the hash as eight groups of five digits. Each step can be undone:
the digits give the bytes back (`formatSafetyNumber_inj`), the hash gives the concatenation,
and a concatenation of two keys of one length gives the keys, in their order
(`sortedPair_inj`).
-/

namespace BurnedChats

open Handshake

namespace SafetyNumber

def FINGERPRINT_HASH_BYTES : Nat := 16
def VISUAL_FINGERPRINT_BYTE_OFFSET : Nat := 16
def VISUAL_FINGERPRINT_SLOTS : Nat := 6

def FINGERPRINT_EMOJI : List String :=
  ["🐶", "🐱", "🦊", "🐼", "🦁", "🐸", "🐵", "🐧", "🐙", "🦉",
    "🍎", "🍌", "🍉", "🍕", "🌸", "🌙", "⭐", "⚽", "🚗", "🚀"]

def formatVisualFingerprint (hashBytes : List UInt8) : List String :=
  (List.range VISUAL_FINGERPRINT_SLOTS).map fun i =>
    FINGERPRINT_EMOJI.getD
      ((hashBytes.getD (VISUAL_FINGERPRINT_BYTE_OFFSET + i) 0).toNat % FINGERPRINT_EMOJI.length) ""

def generateFingerprint (crypto : Crypto) (localPublicKey peerPublicKey : String) : String :=
  formatSafetyNumber (crypto.hashSortedPublicKeys localPublicKey peerPublicKey)

structure Fingerprints where
  fingerprint : String
  visualFingerprint : List String
deriving DecidableEq

def generateFingerprints (crypto : Crypto) (localPublicKey peerPublicKey : String) :
    Fingerprints :=
  let hashBytes := crypto.hashSortedPublicKeys localPublicKey peerPublicKey
  ⟨formatSafetyNumber hashBytes, formatVisualFingerprint hashBytes⟩

/-! ## Digits -/

/-- A group of the safety number, as characters. -/
def groupChars (n : Nat) : List Char :=
  List.replicate (5 - (Nat.toDigits 10 n).length) '0' ++ Nat.toDigits 10 n

theorem ofDigitChars_groupChars (n : Nat) : Nat.ofDigitChars 10 (groupChars n) 0 = n := by
  rw [groupChars, Nat.ofDigitChars_append, Nat.ofDigitChars_replicate_zero, Nat.mul_zero,
    Nat.ofDigitChars_ten_toDigits]

theorem groupChars_inj {m n : Nat} (h : groupChars m = groupChars n) : m = n := by
  rw [← ofDigitChars_groupChars m, h, ofDigitChars_groupChars]

theorem space_notMem_groupChars (n : Nat) : ' ' ∉ groupChars n := by
  intro h
  rcases List.mem_append.mp h with h | h
  · exact absurd (List.eq_of_mem_replicate h) (by decide)
  · have hdigit := Nat.isDigit_of_mem_toDigits (by decide) (by decide) h
    exact absurd hdigit (by decide)

/-- The sixteen bits of a group. -/
def groupValue (hash : List UInt8) (i : Nat) : Nat :=
  (hash.getD (2 * i) 0).toNat * 256 + (hash.getD (2 * i + 1) 0).toNat

theorem toList_pushn_zero (k : Nat) : ("".pushn '0' k).toList = List.replicate k '0' := by
  induction k with
  | zero => rfl
  | succ k ih =>
      rw [String.pushn_eq_repeat_push] at ih ⊢
      rw [Nat.repeat, String.toList_push, ih, List.replicate_succ']

/-- A group as the text the code joins. -/
def groupText (n : Nat) : String := "".pushn '0' (5 - (toString n).length) ++ toString n

theorem formatSafetyNumber_eq (hash : List UInt8) : formatSafetyNumber hash
    = String.intercalate " " ((List.range 8).map fun i => groupText (groupValue hash i)) := rfl

theorem toList_groupText (n : Nat) : (groupText n).toList = groupChars n := by
  simp only [groupText, String.toList_append, toList_pushn_zero, Nat.toString_eq_repr,
    Nat.toList_repr, groupChars, ← String.length_toList]

theorem toList_formatSafetyNumber (hash : List UInt8) :
    (formatSafetyNumber hash).toList
      = [' '].intercalate ((List.range 8).map fun i => groupChars (groupValue hash i)) := by
  have hmap : ((List.range 8).map fun i => groupText (groupValue hash i)).map String.toList
      = (List.range 8).map fun i => groupChars (groupValue hash i) := by
    rw [List.map_map]
    exact List.map_congr_left fun i _ => toList_groupText _
  rw [formatSafetyNumber_eq, String.toList_intercalate, hmap]
  rfl

/-- The groups of a safety number are those of its hash. -/
theorem groupValue_of_eq {hash hash' : List UInt8}
    (h : formatSafetyNumber hash = formatSafetyNumber hash') {i : Nat} (hi : i < 8) :
    groupValue hash i = groupValue hash' i := by
  have hsplit : ∀ hash : List UInt8, ((formatSafetyNumber hash).toList.splitOn ' ')
      = (List.range 8).map fun i => groupChars (groupValue hash i) := fun hash => by
    rw [toList_formatSafetyNumber, List.splitOn_intercalate]
    · intro l hl
      obtain ⟨i, -, rfl⟩ := List.mem_map.mp hl
      exact space_notMem_groupChars _
    · simp
  have hgroups := (hsplit hash).symm.trans ((congrArg (·.toList.splitOn ' ') h).trans (hsplit hash'))
  exact groupChars_inj (List.map_inj_left.mp hgroups i (List.mem_range.mpr hi))

/-- A safety number shows the first sixteen bytes of a hash. -/
theorem formatSafetyNumber_inj {hash hash' : List UInt8} (hlen : 16 ≤ hash.length)
    (hlen' : 16 ≤ hash'.length) :
    formatSafetyNumber hash = formatSafetyNumber hash' ↔ hash.take 16 = hash'.take 16 := by
  constructor
  · intro h
    refine List.ext_getElem (by simp; omega) fun j hj hj' => ?_
    have hj16 : j < 16 := by
      rw [List.length_take] at hj
      omega
    have hgroup := groupValue_of_eq h (show j / 2 < 8 by omega)
    have hhi := (hash.getD (2 * (j / 2)) 0).toNat_lt
    have hhi' := (hash'.getD (2 * (j / 2)) 0).toNat_lt
    have hlo := (hash.getD (2 * (j / 2) + 1) 0).toNat_lt
    have hlo' := (hash'.getD (2 * (j / 2) + 1) 0).toNat_lt
    unfold groupValue at hgroup
    have hbyte : hash.getD j 0 = hash'.getD j 0 := by
      rcases Nat.mod_two_eq_zero_or_one j with hpar | hpar
      · have hi : j = 2 * (j / 2) := by omega
        rw [hi]
        exact UInt8.toNat_inj.mp (by omega)
      · have hi : j = 2 * (j / 2) + 1 := by omega
        rw [hi]
        exact UInt8.toNat_inj.mp (by omega)
    rw [List.getD_eq_getElem?_getD, List.getD_eq_getElem?_getD,
      List.getElem?_eq_getElem (by omega), List.getElem?_eq_getElem (by omega)] at hbyte
    rw [List.getElem_take, List.getElem_take]
    exact hbyte
  · intro h
    have hbyte : ∀ j < 16, hash.getD j 0 = hash'.getD j 0 := fun j hj => by
      have htake := congrArg (fun l => List.getD l j 0) h
      simp only [List.getD_eq_getElem?_getD, List.getElem?_take, if_pos hj] at htake ⊢
      exact htake
    have hgroups : ((List.range 8).map fun i => groupText (groupValue hash i))
        = (List.range 8).map fun i => groupText (groupValue hash' i) := by
      refine List.map_congr_left fun i hi => ?_
      have hi := List.mem_range.mp hi
      rw [groupValue, groupValue, hbyte (2 * i) (by omega), hbyte (2 * i + 1) (by omega)]
    rw [formatSafetyNumber_eq, formatSafetyNumber_eq, hgroups]

/-! ## Keys -/

/-- The material that is hashed, of two exported keys. -/
def sortedPair (a b : List UInt8) : List UInt8 :=
  if compareByteArrays a b ≤ 0 then a ++ b else b ++ a

theorem sortedPair_comm (a b : List UInt8) : sortedPair a b = sortedPair b a := by
  have hswap := compareByteArrays_swap a b
  unfold sortedPair
  rcases Int.lt_trichotomy (compareByteArrays a b) 0 with h | h | h
  · rw [if_pos (by omega), if_neg (by omega)]
  · rw [eq_of_compareByteArrays h]
  · rw [if_neg (by omega), if_pos (by omega)]

/-- Of two keys of one length the material gives both, up to their order. -/
theorem sortedPair_inj {a b a' b' : List UInt8} {n : Nat} (ha : a.length = n) (hb : b.length = n)
    (ha' : a'.length = n) (hb' : b'.length = n) :
    sortedPair a b = sortedPair a' b' ↔ (a = a' ∧ b = b') ∨ (a = b' ∧ b = a') := by
  constructor
  · intro h
    unfold sortedPair at h
    split at h <;> split at h
    · exact .inl (List.append_inj h (ha.trans ha'.symm))
    · exact .inr (List.append_inj h (ha.trans hb'.symm))
    · have hparts := List.append_inj h (hb.trans ha'.symm)
      exact .inr ⟨hparts.2, hparts.1⟩
    · have hparts := List.append_inj h (hb.trans hb'.symm)
      exact .inl ⟨hparts.2, hparts.1⟩
  · rintro (⟨rfl, rfl⟩ | ⟨rfl, rfl⟩)
    · rfl
    · exact sortedPair_comm a b

theorem hashSortedPublicKeys_eq (crypto : Crypto) (x y : String) :
    crypto.hashSortedPublicKeys x y
      = crypto.sha256 (sortedPair (crypto.exportKey x) (crypto.exportKey y)) := rfl

/-- The same two keys, in either order. -/
def SameKeys (crypto : Crypto) (x y x' y' : String) : Prop :=
  (crypto.exportKey x = crypto.exportKey x' ∧ crypto.exportKey y = crypto.exportKey y') ∨
    (crypto.exportKey x = crypto.exportKey y' ∧ crypto.exportKey y = crypto.exportKey x')

/-- The hash names exactly the unordered pair of keys, and a safety number exactly the first
128 bits of a hash: two parties with one number have the same two keys, or two materials
whose hashes agree in 128 bits. -/
theorem safetyNumber_exact (crypto : Crypto) (hsha : Function.Injective crypto.sha256)
    (hlen : ∀ m, 16 ≤ (crypto.sha256 m).length) :
    (∀ x y, crypto.hashSortedPublicKeys x y = crypto.hashSortedPublicKeys y x ∧
      generateFingerprints crypto x y = generateFingerprints crypto y x ∧
      (generateFingerprints crypto x y).fingerprint = generateFingerprint crypto x y) ∧
    (∀ n x y x' y', (∀ z ∈ [x, y, x', y'], (crypto.exportKey z).length = n) →
      (crypto.hashSortedPublicKeys x y = crypto.hashSortedPublicKeys x' y'
        ↔ SameKeys crypto x y x' y')) ∧
    (∀ hash hash' : List UInt8, 16 ≤ hash.length → 16 ≤ hash'.length →
      (formatSafetyNumber hash = formatSafetyNumber hash' ↔ hash.take 16 = hash'.take 16)) ∧
    ∀ n x y x' y', (∀ z ∈ [x, y, x', y'], (crypto.exportKey z).length = n) →
      generateFingerprint crypto x y = generateFingerprint crypto x' y' →
      SameKeys crypto x y x' y' ∨ ∃ m m', m ≠ m' ∧
        crypto.sha256 m = crypto.hashSortedPublicKeys x y ∧
        crypto.sha256 m' = crypto.hashSortedPublicKeys x' y' ∧
        (crypto.sha256 m).take 16 = (crypto.sha256 m').take 16 := by
  have hkeys : ∀ n x y x' y', (∀ z ∈ [x, y, x', y'], (crypto.exportKey z).length = n) →
      (sortedPair (crypto.exportKey x) (crypto.exportKey y)
        = sortedPair (crypto.exportKey x') (crypto.exportKey y') ↔ SameKeys crypto x y x' y') :=
    fun n x y x' y' h => sortedPair_inj (h x (by simp)) (h y (by simp)) (h x' (by simp))
      (h y' (by simp))
  refine ⟨fun x y => ?_, fun n x y x' y' h => ?_, fun hash hash' => formatSafetyNumber_inj,
    fun n x y x' y' h heq => ?_⟩
  · have hcomm := crypto.hashSortedPublicKeys_comm x y
    refine ⟨hcomm, ?_, rfl⟩
    rw [generateFingerprints, generateFingerprints, hcomm]
  · rw [hashSortedPublicKeys_eq, hashSortedPublicKeys_eq, hsha.eq_iff]
    exact hkeys n x y x' y' h
  · have htake := (formatSafetyNumber_inj (hlen _) (hlen _)).mp heq
    by_cases hm : sortedPair (crypto.exportKey x) (crypto.exportKey y)
        = sortedPair (crypto.exportKey x') (crypto.exportKey y')
    · exact .inl ((hkeys n x y x' y' h).mp hm)
    · exact .inr ⟨_, _, hm, rfl, rfl, htake⟩

/-- One byte a key, and a hash that is the message in front of zeros. -/
def oneByte : Crypto where
  computeSharedSecret _ _ := []
  computeSharedSecret_comm _ _ := rfl
  deriveAESKey _ := ""
  exportKey x := [UInt8.ofNat x.length]
  sha256 m := m ++ List.replicate 16 0

/-- A key in the middle changes the hash. -/
theorem safetyNumber_exact_oneByte :
    generateFingerprints oneByte "alice" "bob" = generateFingerprints oneByte "bob" "alice" ∧
      oneByte.hashSortedPublicKeys "alice" "bob"
        ≠ oneByte.hashSortedPublicKeys "alice" "mallory" := by
  obtain ⟨hcomm, hpair, -⟩ := safetyNumber_exact oneByte
    (fun a b h => List.append_cancel_right h)
    (fun m => by simp [oneByte])
  refine ⟨(hcomm "alice" "bob").2.1, fun h => ?_⟩
  rcases (hpair 1 "alice" "bob" "alice" "mallory" (fun _ _ => rfl)).mp h with ⟨-, hk⟩ | ⟨hk, -⟩
  · exact absurd hk (by decide)
  · exact absurd hk (by decide)

end SafetyNumber

end BurnedChats

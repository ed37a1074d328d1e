import Mathlib.Data.Set.Insert
import Mathlib.Tactic.Cases
import BurnedChats.Lib.Buffer

/-!
# Encrypted files

Files are encrypted on the client, in one piece up to 5 MB and in chunks of
64 KB above. Both formats share their first byte; the chunked one follows with
the number of chunks, and the reader cuts the rest by it: every chunk but the
last has the ciphertext of a full chunk, the last has what remains.

`Blob` is the format as data, with what makes a blob readable in its fields.
The two directions of the code are connected to it: the writer produces the
bytes of a blob (`encryptFileInThread_eq`) as long as the number of chunks fits
its four bytes, and the reader returns exactly on the bytes of a blob all of
whose parts decrypt (`decryptFileInThread_iff`). The round trip and what an
assembled blob can decrypt to are read off these.
-/

namespace BurnedChats

open Buffer

namespace FileEncryption

/-! ## The code -/

def IV_LENGTH_BYTES : Nat := 12
def TAG_LENGTH_BITS : Nat := 128
def GCM_TAG_BYTES : Nat := TAG_LENGTH_BITS / 8
def CHUNK_SIZE : Nat := 64 * 1024
def CHUNKED_THRESHOLD : Nat := 5 * 1024 * 1024
def FORMAT_SINGLE : UInt8 := 0x00
def FORMAT_CHUNKED : UInt8 := 0x01

/-- AES-GCM as the browser offers it: key, IV and text. -/
structure AesGcm (Key : Type) where
  encrypt : Key → Bytes → Bytes → Bytes
  decrypt : Key → Bytes → Bytes → Option Bytes

/-- What `getRandomValues` fills an IV with. -/
abbrev Iv := { iv : Bytes // iv.length = IV_LENGTH_BYTES }

/-- Whether the signal is aborted when it is asked for the n-th time. -/
abbrev AbortSignal := Nat → Bool

inductive FileError
  | empty
  | unknownFormat (format : UInt8)
  | singleTooShort (minSize got : Nat)
  | zeroChunks
  | missingIv (chunk : Nat)
  | incompleteCiphertext (chunk : Nat)
  | aborted
  | rangeError
  | operationError
  deriving DecidableEq, Repr

def hex (b : UInt8) : String :=
  let digits := Nat.toDigits 16 b.toNat
  String.ofList (List.replicate (2 - digits.length) '0' ++ digits)

def FileError.message : FileError → String
  | .empty => "Invalid encrypted data: empty"
  | .unknownFormat format => "Unknown file encryption format: 0x" ++ hex format
  | .singleTooShort minSize got =>
      s!"Invalid single-shot encrypted data: expected at least {minSize} bytes, got {got}"
  | .zeroChunks => "Invalid chunked data: zero chunks"
  | .missingIv i => s!"Truncated chunked data at chunk {i}: missing IV"
  | .incompleteCiphertext i => s!"Truncated chunked data at chunk {i}: incomplete ciphertext"
  | .aborted => "Crypto operation aborted"
  | .rangeError => "RangeError"
  | .operationError => "OperationError"

structure EncryptedBlob where
  data : Bytes
  isChunked : Bool

def throwIfAborted (signal : Option AbortSignal) (check : Nat) : Except FileError Unit :=
  if signal.any (· check) then .error .aborted else .ok ()

/-- `Uint8Array.set`. -/
def set (result source : Bytes) (offset : Nat) : Except FileError Bytes :=
  match setAt result source offset with
  | some result => .ok result
  | none => .error .rangeError

/-- An IV and what was encrypted under it. -/
structure Chunk where
  iv : Iv
  data : Bytes

section Encrypt

variable {Key : Type} (gcm : AesGcm Key) (random : Nat → Iv)

def encryptSingle (plaintext : Bytes) (key : Key) (signal : Option AbortSignal) :
    Except FileError EncryptedBlob := do
  throwIfAborted signal 0
  let iv := random 0
  let ciphertext := gcm.encrypt key iv plaintext
  let result := List.replicate (1 + IV_LENGTH_BYTES + ciphertext.length) 0
  let result ← set result [FORMAT_SINGLE] 0
  let result ← set result iv 1
  let result ← set result ciphertext (1 + IV_LENGTH_BYTES)
  return ⟨result, false⟩

def chunkCountOf (plaintext : Bytes) : Nat := (plaintext.length + (CHUNK_SIZE - 1)) / CHUNK_SIZE

/-- One turn of the loop that encrypts the chunks. -/
def encryptChunk (plaintext : Bytes) (key : Key) (signal : Option AbortSignal)
    (acc : List Chunk × Nat) (i : Nat) : Except FileError (List Chunk × Nat) := do
  throwIfAborted signal i
  let start := i * CHUNK_SIZE
  let stop := min (start + CHUNK_SIZE) plaintext.length
  let chunk := plaintext.extract start stop
  let iv := random i
  let encrypted := gcm.encrypt key iv chunk
  return (acc.1 ++ [⟨iv, encrypted⟩], acc.2 + (IV_LENGTH_BYTES + encrypted.length))

/-- One turn of the loop that writes the chunks. -/
def writeChunk (acc : Bytes × Nat) (chunk : Chunk) : Except FileError (Bytes × Nat) := do
  let result ← set acc.1 chunk.iv acc.2
  let offset := acc.2 + IV_LENGTH_BYTES
  let result ← set result chunk.data offset
  return (result, offset + chunk.data.length)

def encryptChunked (plaintext : Bytes) (key : Key) (signal : Option AbortSignal) :
    Except FileError EncryptedBlob := do
  let chunkCount := chunkCountOf plaintext
  let (encryptedChunks, totalPayloadSize) ←
    (List.range chunkCount).foldlM (encryptChunk gcm random plaintext key signal) ([], 0)
  let result := List.replicate (1 + 4 + totalPayloadSize) 0
  let result ← set result [FORMAT_CHUNKED] 0
  let result ← set result (bigEndian chunkCount) 1
  let (result, _) ← encryptedChunks.foldlM writeChunk (result, 5)
  return ⟨result, true⟩

def encryptFileInThread (plaintext : Bytes) (key : Key) (signal : Option AbortSignal) :
    Except FileError EncryptedBlob :=
  if plaintext.length ≤ CHUNKED_THRESHOLD then encryptSingle gcm random plaintext key signal
  else encryptChunked gcm random plaintext key signal

end Encrypt

section Decrypt

open Reading

variable {Key : Type} (gcm : AesGcm Key)

/-- `crypto.subtle.decrypt`. -/
def subtleDecrypt (key : Key) (iv ciphertext : Bytes) : Except FileError Bytes :=
  match gcm.decrypt key iv ciphertext with
  | some plaintext => .ok plaintext
  | none => .error .operationError

def decryptSingle (bytes : Bytes) (key : Key) (signal : Option AbortSignal) :
    Reading FileError Bytes := do
  lift (throwIfAborted signal 0)
  let minSize := 1 + IV_LENGTH_BYTES + GCM_TAG_BYTES
  if bytes.length < minSize then raise (.singleTooShort minSize bytes.length) else do
  let iv ← slice bytes 1 (1 + IV_LENGTH_BYTES)
  let ciphertext ← slice bytes (1 + IV_LENGTH_BYTES) bytes.length
  lift (subtleDecrypt gcm key iv ciphertext)

/-- The loop over the chunks, with those that remain, the offset and the parts
decrypted so far. -/
def decryptChunks (bytes : Bytes) (key : Key) (signal : Option AbortSignal) (chunkCount : Nat) :
    Nat → Nat → List Bytes → Reading FileError (List Bytes)
  | 0, _, decryptedParts => pure decryptedParts
  | remaining + 1, offset, decryptedParts => do
    let i := chunkCount - (remaining + 1)
    lift (throwIfAborted signal i)
    if bytes.length < offset + IV_LENGTH_BYTES then raise (.missingIv i) else do
    let iv ← slice bytes offset (offset + IV_LENGTH_BYTES)
    let offset := offset + IV_LENGTH_BYTES
    let encChunkSize :=
      if i < chunkCount - 1 then CHUNK_SIZE + GCM_TAG_BYTES else bytes.length - offset
    if bytes.length < offset + encChunkSize then raise (.incompleteCiphertext i) else do
    let encryptedChunk ← slice bytes offset (offset + encChunkSize)
    let decrypted ← lift (subtleDecrypt gcm key iv encryptedChunk)
    decryptChunks bytes key signal chunkCount remaining (offset + encChunkSize)
      (decryptedParts ++ [decrypted])

def decryptChunked (bytes : Bytes) (key : Key) (signal : Option AbortSignal) :
    Reading FileError Bytes := do
  let chunkCount ← getUint32 .rangeError bytes 1
  if chunkCount = 0 then raise .zeroChunks else do
  let decryptedParts ← decryptChunks gcm bytes key signal chunkCount chunkCount 5 []
  return decryptedParts.flatten

def decryptFileInThread (encryptedData : Bytes) (key : Key) (signal : Option AbortSignal) :
    Reading FileError Bytes :=
  if h : encryptedData.length < 1 then raise .empty else do
  let format ← byteAt encryptedData ⟨0, Nat.not_lt.mp h⟩
  if format = FORMAT_SINGLE then decryptSingle gcm encryptedData key signal
  else if format = FORMAT_CHUNKED then decryptChunked gcm encryptedData key signal
  else raise (.unknownFormat format)

end Decrypt

/-! ## Blobs -/

def Chunk.bytes (chunk : Chunk) : Bytes := chunk.iv ++ chunk.data

/-- There are chunks, and all but the last have the ciphertext of a full chunk. -/
def Sized : List Chunk → Prop
  | [] => False
  | [_] => True
  | chunk :: chunks => chunk.data.length = CHUNK_SIZE + GCM_TAG_BYTES ∧ Sized chunks

/-- A readable blob. -/
inductive Blob
  | single (chunk : Chunk) (tagged : GCM_TAG_BYTES ≤ chunk.data.length)
  | chunked (chunks : List Chunk) (sized : Sized chunks) (fits : chunks.length < 2 ^ 32)

namespace Blob

def bytes : Blob → Bytes
  | .single chunk _ => FORMAT_SINGLE :: chunk.bytes
  | .chunked chunks _ _ =>
      FORMAT_CHUNKED :: (bigEndian chunks.length ++ chunks.flatMap Chunk.bytes)

def chunks : Blob → List Chunk
  | .single chunk _ => [chunk]
  | .chunked chunks _ _ => chunks

end Blob

/-- What the chunks decrypt to, if all of them do. -/
def openAll {Key : Type} (gcm : AesGcm Key) (key : Key) (chunks : List Chunk) :
    Option (List Bytes) :=
  chunks.mapM fun chunk => gcm.decrypt key chunk.iv chunk.data

/-! ## What the reader accepts -/

section Read

open Reading

variable {Key : Type} {gcm : AesGcm Key} {key : Key} {bytes : Bytes}

theorem length_bytes (chunk : Chunk) :
    chunk.bytes.length = IV_LENGTH_BYTES + chunk.data.length := by
  rw [Chunk.bytes, List.length_append, chunk.iv.2]

theorem extract_drop (start n : Nat) :
    bytes.extract start (start + n) = (bytes.drop start).take n := by
  rw [List.extract_eq_take_drop, Nat.add_sub_cancel_left]

theorem subtleDecrypt_eq_ok {iv ciphertext plain : Bytes} :
    subtleDecrypt gcm key iv ciphertext = .ok plain
      ↔ gcm.decrypt key iv ciphertext = some plain := by
  rw [subtleDecrypt]
  cases gcm.decrypt key iv ciphertext <;> simp

/-- One turn of the reader's loop cuts a chunk off what remains. -/
theorem decryptChunks_succ {chunkCount n offset : Nat} {acc r : List Bytes}
    (hn : n < chunkCount) : (decryptChunks gcm bytes key none chunkCount (n + 1) offset acc).result
        = .ok r ↔
      ∃ (chunk : Chunk) (rest plain : Bytes), bytes.drop offset = chunk.bytes ++ rest
        ∧ (if 0 < n then chunk.data.length = CHUNK_SIZE + GCM_TAG_BYTES else rest = [])
        ∧ gcm.decrypt key chunk.iv chunk.data = some plain
        ∧ (decryptChunks gcm bytes key none chunkCount n
            (offset + IV_LENGTH_BYTES + chunk.data.length) (acc ++ [plain])).result = .ok r := by
  have hlast : chunkCount - (n + 1) < chunkCount - 1 ↔ 0 < n := by omega
  simp only [decryptChunks, throwIfAborted, Option.any_none, Bool.false_eq_true, if_false,
    result_bind, result_lift, result_ite, result_raise, result_slice, Except.bind, hlast]
  generalize hsize : (if 0 < n then CHUNK_SIZE + GCM_TAG_BYTES
    else bytes.length - (offset + IV_LENGTH_BYTES)) = size
  rw [extract_drop, extract_drop, ← List.drop_drop]
  have hlen : (bytes.drop offset).length = bytes.length - offset := List.length_drop
  constructor
  · intro h
    split at h
    · cases h
    · next hiv =>
        split at h
        · cases h
        · next hdata =>
            have hiv' : ((bytes.drop offset).take IV_LENGTH_BYTES).length = IV_LENGTH_BYTES := by
              rw [List.length_take]
              omega
            have hdata' : (((bytes.drop offset).drop IV_LENGTH_BYTES).take size).length = size := by
              rw [List.length_take, List.length_drop]
              omega
            cases hopen : subtleDecrypt gcm key ((bytes.drop offset).take IV_LENGTH_BYTES)
                (((bytes.drop offset).drop IV_LENGTH_BYTES).take size) with
            | error e =>
                rw [hopen] at h
                cases h
            | ok plain =>
                rw [hopen] at h
                refine ⟨⟨⟨_, hiv'⟩, ((bytes.drop offset).drop IV_LENGTH_BYTES).take size⟩,
                  ((bytes.drop offset).drop IV_LENGTH_BYTES).drop size, plain, ?_, ?_,
                  subtleDecrypt_eq_ok.mp hopen, ?_⟩
                · rw [Chunk.bytes, List.append_assoc, List.take_append_drop, List.take_append_drop]
                · split
                  · next hpos => rw [hdata', ← hsize, if_pos hpos]
                  · next hpos =>
                      rw [if_neg hpos] at hsize
                      rw [List.drop_eq_nil_iff, List.length_drop]
                      omega
                · rw [hdata']
                  exact h
  · rintro ⟨chunk, rest, plain, hbytes, hrest, hopen, h⟩
    have hdata : size = chunk.data.length := by
      rw [hbytes, List.length_append, length_bytes] at hlen
      have hiv : 0 < IV_LENGTH_BYTES := by decide
      split at hrest
      · next hpos => rw [← hsize, if_pos hpos, hrest]
      · next hpos =>
          rw [hrest, List.length_nil] at hlen
          rw [← hsize, if_neg hpos]
          omega
    have hlen' := hlen
    rw [hbytes, List.length_append, length_bytes] at hlen'
    have hiv : 0 < IV_LENGTH_BYTES := by decide
    rw [if_neg (by omega), if_neg (by omega), hbytes, Chunk.bytes, List.append_assoc,
      List.take_left' chunk.iv.2, List.drop_left' chunk.iv.2, List.take_left' hdata.symm,
      subtleDecrypt_eq_ok.mpr hopen, hdata]
    exact h

theorem openAll_cons {chunk : Chunk} {chunks : List Chunk} {parts : List Bytes} :
    openAll gcm key (chunk :: chunks) = some parts ↔
      ∃ plain rest, gcm.decrypt key chunk.iv chunk.data = some plain
        ∧ openAll gcm key chunks = some rest ∧ parts = plain :: rest := by
  simp [openAll, List.mapM_cons, Option.bind_eq_some_iff, eq_comm (a := parts)]

/-- The reader's loop returns exactly where what remains is cut into chunks
that all decrypt. -/
theorem decryptChunks_iff {chunkCount n offset : Nat} {acc r : List Bytes} (hn : n < chunkCount) :
    (decryptChunks gcm bytes key none chunkCount (n + 1) offset acc).result = .ok r ↔
      ∃ chunks parts, Sized chunks ∧ chunks.length = n + 1
        ∧ bytes.drop offset = chunks.flatMap Chunk.bytes
        ∧ openAll gcm key chunks = some parts ∧ r = acc ++ parts := by
  induction n generalizing offset acc with
  | zero =>
      rw [decryptChunks_succ hn]
      constructor
      · rintro ⟨chunk, rest, plain, hbytes, hrest, hopen, h⟩
        obtain rfl : rest = [] := hrest
        refine ⟨[chunk], [plain], trivial, rfl, by simpa using hbytes, ?_, (Except.ok.inj h).symm⟩
        exact openAll_cons.mpr ⟨plain, [], hopen, rfl, rfl⟩
      · rintro ⟨chunks, parts, -, hlen, hbytes, hopen, rfl⟩
        obtain ⟨chunk, rfl⟩ := List.length_eq_one_iff.mp hlen
        obtain ⟨plain, rest, hplain, hrest, rfl⟩ := openAll_cons.mp hopen
        obtain rfl : [] = rest := by simpa [openAll] using hrest
        exact ⟨chunk, [], plain, by simpa using hbytes, rfl, hplain, rfl⟩
  | succ n ih =>
      rw [decryptChunks_succ hn]
      constructor
      · rintro ⟨chunk, rest, plain, hbytes, hfull, hopen, h⟩
        obtain ⟨chunks, parts, hsized, hlen, hrest, hparts, rfl⟩ := (ih (by omega)).mp h
        have hdrop : bytes.drop (offset + IV_LENGTH_BYTES + chunk.data.length) = rest := by
          rw [Nat.add_assoc, ← List.drop_drop, hbytes, List.drop_left' (length_bytes chunk)]
        refine ⟨chunk :: chunks, plain :: parts, ?_, by simp [hlen], ?_,
          openAll_cons.mpr ⟨plain, parts, hopen, hparts, rfl⟩, by simp⟩
        · cases chunks with
          | nil => cases hsized
          | cons next chunks => exact ⟨by simpa using hfull, hsized⟩
        · rw [hbytes, ← hdrop, hrest, List.flatMap_cons]
      · rintro ⟨chunks, parts, hsized, hlen, hbytes, hopen, rfl⟩
        match chunks, hlen with
        | chunk :: next :: chunks, hlen =>
            obtain ⟨plain, rest, hplain, hrest, rfl⟩ := openAll_cons.mp hopen
            refine ⟨chunk, (next :: chunks).flatMap Chunk.bytes, plain,
              hbytes.trans List.flatMap_cons, by simpa using hsized.1, hplain, ?_⟩
            refine (ih (by omega)).mpr ⟨next :: chunks, rest, hsized.2, by simpa using hlen, ?_,
              hrest, by simp⟩
            rw [Nat.add_assoc, ← List.drop_drop, hbytes, List.flatMap_cons,
              List.drop_left' (length_bytes chunk)]

theorem decryptSingle_iff {tail r : Bytes} (hbytes : bytes = FORMAT_SINGLE :: tail) :
    (decryptSingle gcm bytes key none).result = .ok r ↔
      ∃ chunk : Chunk, GCM_TAG_BYTES ≤ chunk.data.length ∧ chunk.bytes = tail
        ∧ gcm.decrypt key chunk.iv chunk.data = some r := by
  have hlen : bytes.length = 1 + tail.length := by rw [hbytes, List.length_cons, Nat.add_comm]
  have hdrop : bytes.drop 1 = tail := by rw [hbytes, List.drop_one, List.tail_cons]
  simp only [decryptSingle, throwIfAborted, Option.any_none, Bool.false_eq_true, if_false,
    result_bind, result_lift, result_ite, result_raise, result_slice, Except.bind]
  split
  · next hshort =>
      refine ⟨fun h => (by cases h), ?_⟩
      rintro ⟨chunk, htag, rfl, -⟩
      rw [length_bytes] at hlen
      omega
  · next hlong =>
      have hiv : (tail.take IV_LENGTH_BYTES).length = IV_LENGTH_BYTES := by
        rw [List.length_take]
        omega
      have hdata : bytes.extract (1 + IV_LENGTH_BYTES) bytes.length = tail.drop IV_LENGTH_BYTES := by
        rw [List.extract_eq_take_drop, ← List.drop_drop, hdrop, List.take_of_length_le]
        rw [List.length_drop]
        omega
      rw [subtleDecrypt_eq_ok, extract_drop, hdrop, hdata]
      constructor
      · intro h
        refine ⟨⟨⟨_, hiv⟩, tail.drop IV_LENGTH_BYTES⟩, ?_, List.take_append_drop .., h⟩
        rw [List.length_drop]
        omega
      · rintro ⟨chunk, -, rfl, h⟩
        rw [Chunk.bytes, List.take_left' chunk.iv.2, List.drop_left' chunk.iv.2]
        exact h

theorem decryptChunked_iff {tail r : Bytes} (hbytes : bytes = FORMAT_CHUNKED :: tail) :
    (decryptChunked gcm bytes key none).result = .ok r ↔
      ∃ chunks parts, Sized chunks ∧ chunks.length < 2 ^ 32
        ∧ tail = bigEndian chunks.length ++ chunks.flatMap Chunk.bytes
        ∧ openAll gcm key chunks = some parts ∧ r = parts.flatten := by
  have hlen : bytes.length = 1 + tail.length := by rw [hbytes, List.length_cons, Nat.add_comm]
  have hdrop : bytes.drop 1 = tail := by rw [hbytes, List.drop_one, List.tail_cons]
  simp only [decryptChunked, result_bind, result_getUint32, result_ite, result_raise,
    result_pure, extract_drop, hdrop]
  split
  · next hcount =>
      have htake : (tail.take 4).length = 4 := by
        rw [List.length_take]
        omega
      simp only [Except.bind]
      split
      · next hzero =>
          refine ⟨fun h => (by cases h), ?_⟩
          rintro ⟨chunks, parts, hsized, hfits, rfl, -⟩
          rw [List.take_left' (length_bigEndian _), ofBigEndian_bigEndian,
            Nat.mod_eq_of_lt hfits, List.length_eq_zero_iff] at hzero
          subst hzero
          cases hsized
      · next hpos =>
          obtain ⟨n, hn⟩ := Nat.exists_eq_succ_of_ne_zero hpos
          rw [hn]
          have hdrop' : bytes.drop 5 = tail.drop 4 := by rw [← hdrop, List.drop_drop]
          constructor
          · intro h
            cases hloop : (decryptChunks gcm bytes key none n.succ n.succ 5 []).result with
            | error e =>
                rw [hloop] at h
                cases h
            | ok parts =>
                rw [hloop] at h
                obtain ⟨chunks, parts, hsized, hcount', hrest, hopen, rfl⟩ :=
                  (decryptChunks_iff (Nat.lt_succ_self n)).mp hloop
                refine ⟨chunks, parts, hsized, ?_, ?_, hopen, (Except.ok.inj h).symm⟩
                · rw [hcount', ← Nat.succ_eq_add_one, ← hn]
                  exact ofBigEndian_lt htake
                · rw [hcount', ← Nat.succ_eq_add_one, ← hn, bigEndian_ofBigEndian htake, ← hrest,
                    hdrop', List.take_append_drop]
          · rintro ⟨chunks, parts, hsized, hfits, rfl, hopen, rfl⟩
            rw [List.take_left' (length_bigEndian _), ofBigEndian_bigEndian,
              Nat.mod_eq_of_lt hfits] at hn
            rw [(decryptChunks_iff (Nat.lt_succ_self n)).mpr ⟨chunks, parts, hsized, hn,
              hdrop'.trans (List.drop_left' (length_bigEndian _)), hopen, rfl⟩]
            rfl
  · next hcount =>
      refine ⟨fun h => (by cases h), ?_⟩
      rintro ⟨chunks, parts, -, -, rfl, -⟩
      rw [List.length_append, length_bigEndian] at hlen
      omega

/-- The reader returns exactly on the bytes of a blob whose chunks all decrypt. -/
theorem decryptFileInThread_iff {r : Bytes} :
    (decryptFileInThread gcm bytes key none).result = .ok r ↔
      ∃ blob : Blob, blob.bytes = bytes
        ∧ ∃ parts, openAll gcm key blob.chunks = some parts ∧ r = parts.flatten := by
  cases bytes with
  | nil =>
      refine ⟨fun h => (by cases h), ?_⟩
      rintro ⟨blob, hblob, -⟩
      cases blob <;> cases hblob
  | cons format tail =>
      have hpos : ¬ (format :: tail).length < 1 := by simp
      simp only [decryptFileInThread, hpos, dif_neg, not_false_eq_true, result_bind, result_byteAt,
        Except.bind, List.get_eq_getElem, List.getElem_cons_zero, result_ite, result_raise]
      split
      · next hformat =>
          rw [decryptSingle_iff (congrArg (· :: tail) hformat)]
          constructor
          · rintro ⟨chunk, htag, rfl, h⟩
            refine ⟨.single chunk htag, by rw [hformat]; rfl, [r], ?_, by simp⟩
            exact openAll_cons.mpr ⟨r, [], h, rfl, rfl⟩
          · rintro ⟨blob, hblob, parts, hopen, rfl⟩
            cases blob with
            | single chunk htag =>
                obtain ⟨plain, rest, h, hrest, rfl⟩ := openAll_cons.mp hopen
                obtain rfl : [] = rest := by simpa [openAll] using hrest
                exact ⟨chunk, htag, (List.cons.inj hblob).2, by simpa using h⟩
            | chunked chunks hsized hfits =>
                exact absurd ((List.cons.inj hblob).1.trans hformat) (by decide)
      · next hsingle =>
          split
          · next hformat =>
              rw [decryptChunked_iff (congrArg (· :: tail) hformat)]
              constructor
              · rintro ⟨chunks, parts, hsized, hfits, rfl, hopen, rfl⟩
                exact ⟨.chunked chunks hsized hfits, by rw [hformat]; rfl, parts, hopen, rfl⟩
              · rintro ⟨blob, hblob, parts, hopen, rfl⟩
                cases blob with
                | single chunk htag => exact absurd (List.cons.inj hblob).1.symm hsingle
                | chunked chunks hsized hfits =>
                    exact ⟨chunks, parts, hsized, hfits, (List.cons.inj hblob).2.symm, hopen, rfl⟩
          · next hchunked =>
              refine ⟨fun h => (by cases h), ?_⟩
              rintro ⟨blob, hblob, -⟩
              cases blob with
              | single chunk htag => exact absurd (List.cons.inj hblob).1.symm hsingle
              | chunked chunks hsized hfits => exact absurd (List.cons.inj hblob).1.symm hchunked

end Read

/-! ## What the writer produces -/

section Write

variable {Key : Type} (gcm : AesGcm Key) (random : Nat → Iv) (key : Key) (plaintext : Bytes)

/-- The i-th chunk of a plaintext. -/
def chunkAt (i : Nat) : Bytes := (plaintext.drop (i * CHUNK_SIZE)).take CHUNK_SIZE

/-- What the writer encrypts, each under its IV. -/
def encryptions : List (Iv × Bytes) :=
  if plaintext.length ≤ CHUNKED_THRESHOLD then [(random 0, plaintext)]
  else (List.range (chunkCountOf plaintext)).map fun i => (random i, chunkAt plaintext i)

def encrypted (e : Iv × Bytes) : Chunk := ⟨e.1, gcm.encrypt key e.1 e.2⟩

theorem flatten_chunkAt (n : Nat) :
    ((List.range n).map (chunkAt plaintext)).flatten = plaintext.take (n * CHUNK_SIZE) := by
  induction n with
  | zero => simp
  | succ n ih =>
      rw [List.range_succ, List.map_append, List.flatten_append, ih, Nat.succ_mul, List.take_add]
      simp [chunkAt]

theorem le_chunkCount : plaintext.length ≤ chunkCountOf plaintext * CHUNK_SIZE := by
  simp only [chunkCountOf, CHUNK_SIZE]
  omega

/-- What is encrypted makes up the plaintext. -/
theorem flatten_encryptions :
    ((encryptions random plaintext).map Prod.snd).flatten = plaintext := by
  unfold encryptions
  split
  · simp
  · rw [List.map_map]
    exact (flatten_chunkAt ..).trans (List.take_of_length_le (le_chunkCount plaintext))

variable {gcm random key plaintext}

theorem extract_chunkAt (i : Nat) : plaintext.extract (i * CHUNK_SIZE)
    (min (i * CHUNK_SIZE + CHUNK_SIZE) plaintext.length) = chunkAt plaintext i := by
  rw [List.extract_eq_take_drop, chunkAt]
  rcases Nat.le_total (i * CHUNK_SIZE + CHUNK_SIZE) plaintext.length with h | h
  · rw [Nat.min_eq_left h, Nat.add_sub_cancel_left]
  · rw [Nat.min_eq_right h, List.take_of_length_le (by simp),
      List.take_of_length_le (by rw [List.length_drop]; omega)]

theorem foldlM_encryptChunk (n : Nat) :
    (List.range n).foldlM (encryptChunk gcm random plaintext key none) ([], 0)
      = .ok ((List.range n).map fun i => encrypted gcm key (random i, chunkAt plaintext i),
          (((List.range n).map fun i => encrypted gcm key (random i, chunkAt plaintext i)).flatMap
            Chunk.bytes).length) := by
  induction n with
  | zero => rfl
  | succ n ih =>
      rw [List.range_succ, List.foldlM_append, ih]
      simp [encryptChunk, throwIfAborted, extract_chunkAt, encrypted, Chunk.bytes, Except.bind, bind,
        pure, Except.pure, (random n).2]

theorem set_append (done source : Bytes) (n : Nat) :
    set (done ++ List.replicate (source.length + n) 0) source done.length
      = .ok (done ++ source ++ List.replicate n 0) := by
  rw [set, List.replicate_add, setAt_append]

theorem foldlM_writeChunk (chunks : List Chunk) (done : Bytes) :
    chunks.foldlM writeChunk
        (done ++ List.replicate (chunks.flatMap Chunk.bytes).length 0, done.length)
      = .ok (done ++ chunks.flatMap Chunk.bytes,
          (done ++ chunks.flatMap Chunk.bytes).length) := by
  induction chunks generalizing done with
  | nil => simp [pure, Except.pure]
  | cons chunk chunks ih =>
      have hiv := set_append done chunk.iv
        (chunk.data.length + (chunks.flatMap Chunk.bytes).length)
      have hdata := set_append (done ++ chunk.iv) chunk.data (chunks.flatMap Chunk.bytes).length
      have hrest := ih (done ++ chunk.iv ++ chunk.data)
      rw [List.length_append, List.length_append, chunk.iv.2] at hrest
      rw [List.length_append, chunk.iv.2] at hdata
      rw [chunk.iv.2] at hiv
      have hturn : writeChunk (done ++ List.replicate ((chunk :: chunks).flatMap
          Chunk.bytes).length 0, done.length) chunk
          = .ok (done ++ chunk.iv.1 ++ chunk.data
              ++ List.replicate (chunks.flatMap Chunk.bytes).length 0,
            done.length + IV_LENGTH_BYTES + chunk.data.length) := by
        rw [List.flatMap_cons, List.length_append, length_bytes, Nat.add_assoc]
        simp only [writeChunk, bind, Except.bind, hiv, hdata, pure, Except.pure]
      rw [List.foldlM_cons, hturn]
      simp only [bind, Except.bind, hrest]
      simp only [List.flatMap_cons, Chunk.bytes, List.append_assoc]

theorem encryptSingle_eq : encryptSingle gcm random plaintext key none
    = .ok ⟨FORMAT_SINGLE :: (encrypted gcm key (random 0, plaintext)).bytes, false⟩ := by
  have hformat := set_append [] [FORMAT_SINGLE]
    (IV_LENGTH_BYTES + (gcm.encrypt key (random 0) plaintext).length)
  have hiv := set_append [FORMAT_SINGLE] (random 0) (gcm.encrypt key (random 0) plaintext).length
  have hdata := set_append (FORMAT_SINGLE :: (random 0).1) (gcm.encrypt key (random 0) plaintext) 0
  rw [(random 0).2] at hiv
  rw [List.length_cons, (random 0).2, Nat.add_comm IV_LENGTH_BYTES] at hdata
  rw [List.length_singleton, ← Nat.add_assoc] at hformat
  simp only [List.nil_append, List.length_nil, List.singleton_append, List.length_singleton,
    List.replicate_zero, List.append_nil, Nat.add_zero] at hformat hiv hdata
  simp only [encryptSingle, throwIfAborted, Option.any_none, Bool.false_eq_true, if_false, bind,
    Except.bind, pure, Except.pure, hformat, hiv, hdata, encrypted, Chunk.bytes]
  rfl

theorem encryptChunked_eq : encryptChunked gcm random plaintext key none
    = .ok ⟨FORMAT_CHUNKED :: (bigEndian (chunkCountOf plaintext)
        ++ ((List.range (chunkCountOf plaintext)).map fun i =>
          encrypted gcm key (random i, chunkAt plaintext i)).flatMap Chunk.bytes), true⟩ := by
  simp only [encryptChunked, foldlM_encryptChunk, bind, Except.bind, pure, Except.pure]
  generalize (List.range (chunkCountOf plaintext)).map (fun i =>
    encrypted gcm key (random i, chunkAt plaintext i)) = chunks
  have hformat := set_append [] [FORMAT_CHUNKED] (4 + (chunks.flatMap Chunk.bytes).length)
  have hcount := set_append [FORMAT_CHUNKED] (bigEndian (chunkCountOf plaintext))
    (chunks.flatMap Chunk.bytes).length
  have hchunks := foldlM_writeChunk chunks (FORMAT_CHUNKED :: bigEndian (chunkCountOf plaintext))
  rw [List.length_singleton, ← Nat.add_assoc] at hformat
  simp only [List.nil_append, List.length_nil, List.singleton_append, length_bigEndian,
    List.length_cons] at hformat hcount hchunks
  simp only [hformat, hcount, hchunks]
  simp

theorem length_chunkAt {i : Nat} (h : i + 1 < chunkCountOf plaintext) :
    (chunkAt plaintext i).length = CHUNK_SIZE := by
  have hsize : 0 < CHUNK_SIZE := by decide
  have hle : (i + 1) * CHUNK_SIZE ≤ plaintext.length := by
    simp only [chunkCountOf, CHUNK_SIZE] at h ⊢
    omega
  rw [Nat.succ_mul] at hle
  rw [chunkAt, List.length_take, List.length_drop]
  omega

theorem sized_append {full : List Chunk} {last : Chunk}
    (h : ∀ chunk ∈ full, chunk.data.length = CHUNK_SIZE + GCM_TAG_BYTES) :
    Sized (full ++ [last]) := by
  induction full with
  | nil => trivial
  | cons chunk full ih =>
      have hrest := ih fun c hc => h c (List.mem_cons_of_mem _ hc)
      cases full with
      | nil => exact ⟨h chunk List.mem_cons_self, hrest⟩
      | cons next full => exact ⟨h chunk List.mem_cons_self, hrest⟩

/-- The tag is appended to the ciphertext, which is as long as the text. -/
def AesGcm.Tagged (gcm : AesGcm Key) : Prop :=
  ∀ key iv text, (gcm.encrypt key iv text).length = text.length + GCM_TAG_BYTES

theorem sized_encrypted (htag : gcm.Tagged) (hlong : CHUNKED_THRESHOLD < plaintext.length) :
    Sized ((List.range (chunkCountOf plaintext)).map fun i =>
      encrypted gcm key (random i, chunkAt plaintext i)) := by
  obtain ⟨n, hn⟩ : ∃ n, chunkCountOf plaintext = n + 1 := by
    refine Nat.exists_eq_succ_of_ne_zero ?_
    simp only [chunkCountOf, CHUNKED_THRESHOLD, CHUNK_SIZE] at hlong ⊢
    omega
  rw [hn, List.range_succ, List.map_append, List.map_singleton]
  refine sized_append fun chunk hchunk => ?_
  obtain ⟨i, hi, rfl⟩ := List.mem_map.mp hchunk
  rw [List.mem_range] at hi
  rw [encrypted, htag, length_chunkAt (by omega)]

/-- The writer produces a blob of what it encrypts, as long as the number of
chunks fits its four bytes. -/
theorem encryptFileInThread_eq (htag : gcm.Tagged) (hfits : chunkCountOf plaintext < 2 ^ 32) :
    ∃ (blob : Blob) (isChunked : Bool),
      encryptFileInThread gcm random plaintext key none = .ok ⟨blob.bytes, isChunked⟩
        ∧ blob.chunks = (encryptions random plaintext).map (encrypted gcm key) := by
  unfold encryptFileInThread encryptions
  split
  · refine ⟨.single (encrypted gcm key (random 0, plaintext)) ?_, false, encryptSingle_eq, rfl⟩
    rw [encrypted, htag]
    exact Nat.le_add_left ..
  · next hlong =>
      refine ⟨.chunked ((List.range (chunkCountOf plaintext)).map fun i =>
          encrypted gcm key (random i, chunkAt plaintext i))
        (sized_encrypted htag (Nat.not_le.mp hlong)) (by simpa using hfits), true, ?_,
        by rw [Blob.chunks, List.map_map]; rfl⟩
      rw [encryptChunked_eq, Blob.bytes, List.length_map, List.length_range]

end Write

/-! ## Round trip -/

section RoundTrip

open Reading

variable {Key : Type} {gcm : AesGcm Key} {key : Key} {random : Nat → Iv} {plaintext bytes : Bytes}
  {signal : Option AbortSignal}

/-- Decryption undoes encryption. -/
def AesGcm.Undoes (gcm : AesGcm Key) : Prop :=
  ∀ key iv text, gcm.decrypt key iv (gcm.encrypt key iv text) = some text

theorem openAll_encrypted {l : List (Iv × Bytes)}
    (h : ∀ e ∈ l, gcm.decrypt key e.1 (gcm.encrypt key e.1 e.2) = some e.2) :
    openAll gcm key (l.map (encrypted gcm key)) = some (l.map Prod.snd) := by
  induction l with
  | nil => rfl
  | cons e l ih =>
      exact openAll_cons.mpr ⟨e.2, l.map Prod.snd, h e List.mem_cons_self,
        ih fun e he => h e (List.mem_cons_of_mem _ he), rfl⟩

theorem decryptFileInThread_zero {count : Nat} {payload : Bytes} (hzero : count % 2 ^ 32 = 0) :
    (decryptFileInThread gcm (FORMAT_CHUNKED :: (bigEndian count ++ payload)) key none).result
      = .error .zeroChunks := by
  have hpos : ¬ (FORMAT_CHUNKED :: (bigEndian count ++ payload)).length < 1 := by simp
  have hcount : 1 + 4 ≤ (FORMAT_CHUNKED :: (bigEndian count ++ payload)).length := by simp
  have hsingle : FORMAT_CHUNKED ≠ FORMAT_SINGLE := by decide
  simp only [decryptFileInThread, hpos, dif_neg, not_false_eq_true, result_bind, result_byteAt,
    Except.bind, List.get_eq_getElem, List.getElem_cons_zero, if_neg hsingle, if_true,
    decryptChunked, result_getUint32, if_pos hcount, extract_drop, List.drop_one,
    List.tail_cons, List.take_left' (length_bigEndian count), ofBigEndian_bigEndian, hzero,
    result_raise]

/-- With too many chunks for four bytes the number of chunks is written as zero. -/
theorem decryptFileInThread_overflow {blob : EncryptedBlob}
    (hcount : chunkCountOf plaintext = 2 ^ 32)
    (h : encryptFileInThread gcm random plaintext key none = .ok blob) :
    (decryptFileInThread gcm blob.data key none).result = .error .zeroChunks := by
  have hlong : ¬ plaintext.length ≤ CHUNKED_THRESHOLD := by
    simp only [chunkCountOf, CHUNK_SIZE, CHUNKED_THRESHOLD] at hcount ⊢
    omega
  rw [encryptFileInThread, if_neg hlong, encryptChunked_eq] at h
  obtain rfl := Except.ok.inj h
  exact decryptFileInThread_zero (by rw [hcount, Nat.mod_self])

/-- One turn of the reader's loop reads on, and the last one to the end. -/
theorem decryptChunks_turn {chunkCount n offset : Nat} {acc : List Bytes}
    {Q : List Bytes → Nat → Prop} (hn : n < chunkCount) (ho : offset ≤ bytes.length)
    (h : ∀ next plain, next ≤ bytes.length → (n = 0 → next = bytes.length) →
      Scans bytes.length next (decryptChunks gcm bytes key signal chunkCount n next
        (acc ++ [plain])) Q) :
    Scans bytes.length offset (decryptChunks gcm bytes key signal chunkCount (n + 1) offset acc)
      Q := by
  have hlast : chunkCount - (n + 1) < chunkCount - 1 ↔ 0 < n := by omega
  simp only [decryptChunks, hlast]
  generalize hsize : (if 0 < n then CHUNK_SIZE + GCM_TAG_BYTES
    else bytes.length - (offset + IV_LENGTH_BYTES)) = size
  refine scans_bind (scans_lift ho fun _ _ => ?_)
  refine scans_check ho fun hiv => ?_
  refine scans_bind (scans_slice (Nat.le_add_right ..) (Nat.not_lt.mp hiv) ?_)
  refine scans_check (Nat.not_lt.mp hiv) fun hdata => ?_
  refine scans_bind (scans_slice (Nat.le_add_right ..) (Nat.not_lt.mp hdata) ?_)
  refine scans_bind (scans_lift (Nat.not_lt.mp hdata) fun plain _ => ?_)
  refine h _ plain (Nat.not_lt.mp hdata) fun hzero => ?_
  rw [if_neg (by omega)] at hsize
  omega

theorem decryptChunks_scans {chunkCount n offset : Nat} {acc : List Bytes}
    (hn : n < chunkCount) (ho : offset ≤ bytes.length) :
    Scans bytes.length offset (decryptChunks gcm bytes key signal chunkCount (n + 1) offset acc)
      fun _ b => b = bytes.length := by
  induction n generalizing offset acc with
  | zero => exact decryptChunks_turn hn ho fun next plain hle hend => scans_pure hle (hend rfl)
  | succ n ih =>
      exact decryptChunks_turn hn ho fun next plain hle _ => ih (Nat.lt_of_succ_lt hn) hle

/-- The reader reads the blob from its first byte on without gaps, and to its
end when it returns. -/
theorem decryptFileInThread_scans :
    Scans bytes.length 0 (decryptFileInThread gcm bytes key signal)
      fun _ b => b = bytes.length := by
  unfold decryptFileInThread
  split
  · exact scans_raise (Nat.zero_le _)
  · next hpos =>
      have hone : 1 ≤ bytes.length := Nat.not_lt.mp hpos
      refine scans_bind (@scans_byteAt _ _ bytes ⟨0, hone⟩ _ hone ?_)
      split
      · refine scans_bind (scans_lift hone fun _ _ => scans_check hone fun hmin => ?_)
        refine scans_bind (scans_slice (Nat.le_add_right ..) (by omega) ?_)
        refine scans_bind (scans_slice (by omega) (Nat.le_refl _) ?_)
        exact scans_lift (Nat.le_refl _) fun _ _ => rfl
      · split
        · refine scans_bind (scans_getUint32 hone fun count hle => scans_check hle fun hcount => ?_)
          obtain ⟨n, rfl⟩ := Nat.exists_eq_succ_of_ne_zero hcount
          refine scans_bind ?_
          refine (decryptChunks_scans (Nat.lt_succ_self n) hle).mono fun _ b hb => ?_
          exact scans_pure (Nat.le_of_eq hb) hb
        · exact scans_raise hone
/-- Decryption returns what was encrypted, up to `2 ^ 32 - 1` chunks; on every
byte string it reads within the buffer, and all of it when it returns. -/
theorem file_round_trip (hundo : gcm.Undoes) (htag : gcm.Tagged) :
    (∀ key random plaintext, plaintext.length ≤ (2 ^ 32 - 1) * CHUNK_SIZE →
      ∃ blob, encryptFileInThread gcm random plaintext key none = .ok blob
        ∧ (decryptFileInThread gcm blob.data key none).result = .ok plaintext)
    ∧ ∀ bytes key signal,
      ((∃ plaintext, (decryptFileInThread gcm bytes key signal).result = .ok plaintext)
        ∨ ∃ error, (decryptFileInThread gcm bytes key signal).result = .error error)
      ∧ (∀ span ∈ (decryptFileInThread gcm bytes key signal).reads,
          span.start ≤ span.stop ∧ span.stop ≤ bytes.length)
      ∧ ∀ plaintext, (decryptFileInThread gcm bytes key signal).result = .ok plaintext →
        Tiles 0 bytes.length (decryptFileInThread gcm bytes key signal).reads := by
  refine ⟨fun key random plaintext hlen => ?_, fun bytes key signal => ?_⟩
  · have hfits : chunkCountOf plaintext < 2 ^ 32 := by
      simp only [chunkCountOf, CHUNK_SIZE] at hlen ⊢
      omega
    obtain ⟨blob, isChunked, heq, hchunks⟩ := encryptFileInThread_eq htag hfits
    refine ⟨_, heq, decryptFileInThread_iff.mpr ⟨blob, rfl, _, ?_,
      (flatten_encryptions random plaintext).symm⟩⟩
    rw [hchunks]
    exact openAll_encrypted fun e _ => hundo key e.1 e.2
  · obtain ⟨b, hb, htiles, hend⟩ := @decryptFileInThread_scans Key gcm key bytes signal
    refine ⟨?_, fun span hspan => ?_, fun plaintext h => hend plaintext h ▸ htiles⟩
    · cases (decryptFileInThread gcm bytes key signal).result with
      | ok plaintext => exact .inl ⟨plaintext, rfl⟩
      | error e => exact .inr ⟨e, rfl⟩
    · obtain ⟨-, hle, hstop⟩ := htiles.within hspan
      exact ⟨hle, Nat.le_trans hstop hb⟩

/-- A cipher that appends a tag of zeros. -/
def tagging : AesGcm Unit where
  encrypt _ _ text := text ++ List.replicate GCM_TAG_BYTES 0
  decrypt _ _ ciphertext := some (ciphertext.take (ciphertext.length - GCM_TAG_BYTES))

theorem tagging_undoes : tagging.Undoes := fun _ _ text => by simp [tagging]

theorem tagging_tagged : tagging.Tagged := fun _ _ text => by simp [tagging]

def zeroIv : Iv := ⟨List.replicate IV_LENGTH_BYTES 0, rfl⟩

theorem file_round_trip_small : ∃ blob,
    encryptFileInThread tagging (fun _ => zeroIv) [1, 2, 3] () none = .ok blob
      ∧ (decryptFileInThread tagging blob.data () none).result = .ok [1, 2, 3] :=
  (file_round_trip tagging_undoes tagging_tagged).1 () _ [1, 2, 3]
    (by simp only [List.length_cons, List.length_nil, CHUNK_SIZE]; omega)

theorem too_long {plaintext : Bytes} (hlen : plaintext.length = 281474976710655)
    (h : ∃ blob, encryptFileInThread tagging (fun _ => zeroIv) plaintext () none = .ok blob
      ∧ (decryptFileInThread tagging blob.data () none).result = .ok plaintext) : False := by
  obtain ⟨blob, hblob, hback⟩ := h
  have hcount : chunkCountOf plaintext = 2 ^ 32 := by
    simp only [chunkCountOf, CHUNK_SIZE]
    omega
  rw [decryptFileInThread_overflow hcount hblob] at hback
  cases hback

/-- In the last 64 KB below `2 ^ 48` the chunks are too many for their count. -/
theorem round_trip_overflows : ¬ ∀ gcm : AesGcm Unit, gcm.Undoes → gcm.Tagged →
    ∀ key random plaintext, plaintext.length < 2 ^ 32 * CHUNK_SIZE →
      ∃ blob, encryptFileInThread gcm random plaintext key none = .ok blob
        ∧ (decryptFileInThread gcm blob.data key none).result = .ok plaintext := by
  intro h
  have hlen := @List.length_replicate UInt8 281474976710655 0
  refine too_long hlen (h tagging tagging_undoes tagging_tagged () _ _ ?_)
  rw [hlen, CHUNK_SIZE]
  omega

end RoundTrip

/-! ## What an assembled blob decrypts to -/

section Assembled

variable {Key : Type}

/-- A file that was encrypted, and its IVs. -/
structure File where
  plaintext : Bytes
  random : Nat → Iv

def File.encryptions (file : File) : List (Iv × Bytes) :=
  FileEncryption.encryptions file.random file.plaintext

/-- AES-GCM as an ideal cipher: under the key exactly what was encrypted for
the files is decrypted. -/
structure AesGcm.Ideal (gcm : AesGcm Key) (key : Key) (files : Set File) : Prop where
  opens : ∀ file ∈ files, ∀ e ∈ file.encryptions,
    gcm.decrypt key e.1 (gcm.encrypt key e.1 e.2) = some e.2
  produced : ∀ (iv : Iv) ciphertext text, gcm.decrypt key iv ciphertext = some text →
    (∃ file ∈ files, (iv, text) ∈ file.encryptions) ∧ ciphertext = gcm.encrypt key iv text

/-- If the blob is put together from chunks that were encrypted for the files,
what was encrypted to them makes up one of the files. -/
def Whole (gcm : AesGcm Key) (key : Key) (files : Set File) (bytes : Bytes) : Prop :=
  ∀ (blob : Blob) (es : List (Iv × Bytes)), blob.bytes = bytes →
    (∀ e ∈ es, ∃ file ∈ files, e ∈ file.encryptions) →
    blob.chunks = es.map (encrypted gcm key) →
      ∃ file ∈ files, (es.map Prod.snd).flatten = file.plaintext

variable {gcm : AesGcm Key} {key : Key} {files : Set File}

/-- Chunks that all decrypt were encrypted for the files. -/
theorem encrypted_of_openAll (h : gcm.Ideal key files) {chunks : List Chunk} {parts : List Bytes}
    (hopen : openAll gcm key chunks = some parts) :
    ∃ es : List (Iv × Bytes), (∀ e ∈ es, ∃ file ∈ files, e ∈ file.encryptions)
      ∧ chunks = es.map (encrypted gcm key) ∧ parts = es.map Prod.snd := by
  induction chunks generalizing parts with
  | nil =>
      obtain rfl : [] = parts := by simpa [openAll] using hopen
      exact ⟨[], by simp⟩
  | cons chunk chunks ih =>
      obtain ⟨plain, rest, hplain, hrest, rfl⟩ := openAll_cons.mp hopen
      obtain ⟨es, hfiles, rfl, rfl⟩ := ih hrest
      obtain ⟨hfile, hdata⟩ := h.produced chunk.iv chunk.data plain hplain
      refine ⟨(chunk.iv, plain) :: es, ?_, ?_, rfl⟩
      · intro e he
        rcases List.mem_cons.mp he with rfl | he
        · exact hfile
        · exact hfiles e he
      · rw [List.map_cons, encrypted, ← hdata]

/-- The cipher that appends zeros, ideal for one file. -/
def idealFor (file : File) : AesGcm Unit where
  encrypt := tagging.encrypt
  decrypt _ iv ciphertext :=
    (file.encryptions.find? fun e => e.1 = iv ∧ tagging.encrypt () e.1 e.2 = ciphertext).map
      Prod.snd

theorem idealFor_ideal (file : File) : (idealFor file).Ideal () {file} := by
  refine ⟨?_, fun iv ciphertext text h => ?_⟩
  · intro f hf e he
    rw [Set.mem_singleton_iff.mp hf] at he
    have hfind : (file.encryptions.find? fun e' => (e'.1 : Bytes) = e.1
        ∧ tagging.encrypt () e'.1 e'.2 = tagging.encrypt () e.1 e.2).isSome :=
      List.find?_isSome.mpr ⟨e, he, by simp⟩
    obtain ⟨e', he'⟩ := Option.isSome_iff_exists.mp hfind
    have hsame : e'.2 = e.2 := by
      have hboth := List.find?_some he'
      exact List.append_cancel_right (of_decide_eq_true hboth).2
    exact (congrArg (Option.map Prod.snd) he').trans (congrArg some hsame)
  · obtain ⟨e, he, rfl⟩ := Option.map_eq_some_iff.mp h
    have hboth := List.find?_some he
    obtain ⟨hiv, rfl⟩ := of_decide_eq_true hboth
    obtain rfl : e.1 = iv := Subtype.ext hiv
    exact ⟨⟨file, rfl, List.mem_of_find?_eq_some he⟩, rfl⟩

def smallFile : File := ⟨[1, 2, 3], fun _ => zeroIv⟩

/-- The first chunk of a chunked file, counted as the only one, is decrypted. -/
theorem truncated {file : File} (hlong : CHUNKED_THRESHOLD < file.plaintext.length) :
    (decryptFileInThread (idealFor file) (FORMAT_CHUNKED :: (bigEndian 1
        ++ (encrypted tagging () (file.random 0, chunkAt file.plaintext 0)).bytes)) () none).result
      = .ok (chunkAt file.plaintext 0) := by
  have hcount : 0 < chunkCountOf file.plaintext := by
    simp only [chunkCountOf, CHUNKED_THRESHOLD, CHUNK_SIZE] at hlong ⊢
    omega
  have hmem : (file.random 0, chunkAt file.plaintext 0) ∈ file.encryptions := by
    rw [File.encryptions, encryptions, if_neg (Nat.not_le.mpr hlong)]
    exact List.mem_map.mpr ⟨0, List.mem_range.mpr hcount, rfl⟩
  refine decryptFileInThread_iff.mpr
    ⟨.chunked [encrypted tagging () (file.random 0, chunkAt file.plaintext 0)] trivial
      (by simp), by simp [Blob.bytes], [chunkAt file.plaintext 0], ?_, by simp⟩
  exact openAll_cons.mpr ⟨_, [], (idealFor_ideal file).opens file rfl _ hmem, rfl, rfl⟩

/-- No file is its own first chunk. -/
theorem not_chunkAt {file : File} (hlong : CHUNKED_THRESHOLD < file.plaintext.length)
    (h : ∃ f ∈ ({file} : Set File), chunkAt file.plaintext 0 = f.plaintext) : False := by
  obtain ⟨f, hf, hwhole⟩ := h
  rw [Set.mem_singleton_iff.mp hf] at hwhole
  have hshort : (chunkAt file.plaintext 0).length ≤ CHUNK_SIZE := List.length_take_le ..
  rw [hwhole] at hshort
  simp only [CHUNKED_THRESHOLD, CHUNK_SIZE] at hlong hshort
  omega

end Assembled

end FileEncryption

end BurnedChats

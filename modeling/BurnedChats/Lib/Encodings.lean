import BurnedChats.Lib.Builder

/-!
# Bytes as bits and as text

Bytes from bits, hexadecimal and base64. A base64 alphabet is given by the values of
its characters, so decoders with several alphabets are one definition. The last group
of a text may be short, or complete with padding characters; padding anywhere else, or
of the wrong length, is an error.
-/

namespace Encoding

open Builder (byteBits)

/-! ## Bits -/

/-- Groups of eight bits, the last filled up with zeros. -/
def packBytes (l : List Bool) : List UInt8 :=
  if l.isEmpty then []
  else .ofNat (bitsToNat (l.take 8 ++ List.replicate (8 - l.length) false)) :: packBytes (l.drop 8)
termination_by l.length
decreasing_by
  rename_i h
  have hpos : 0 < l.length := by
    cases l with
    | nil => exact absurd rfl h
    | cons b l => exact Nat.succ_pos _
  rw [List.length_drop]
  omega

theorem packBytes_nil : packBytes [] = [] := by
  rw [packBytes]
  rfl

theorem packBytes_byte (x : UInt8) (l : List Bool) :
    packBytes (natToBits 8 x.toNat ++ l) = x :: packBytes l := by
  have hne : (natToBits 8 x.toNat ++ l).isEmpty = false := rfl
  have hlen := natToBits_length 8 x.toNat
  rw [packBytes, hne, if_neg Bool.false_ne_true, List.take_left' hlen, List.drop_left' hlen,
    List.length_append, hlen, Nat.sub_eq_zero_of_le (Nat.le_add_right ..), List.replicate_zero,
    List.append_nil, bitsToNat_natToBits x.toNat_lt, UInt8.ofNat_toNat]

theorem packBytes_append (bytes : List UInt8) (l : List Bool) :
    packBytes (byteBits bytes ++ l) = bytes ++ packBytes l := by
  induction bytes with
  | nil => rfl
  | cons x bytes ih =>
      have hx : byteBits (x :: bytes) = natToBits 8 x.toNat ++ byteBits bytes := rfl
      rw [hx, List.append_assoc, packBytes_byte, ih, List.cons_append]

/-- Whole bytes lose nothing. -/
theorem byteBits_packBytes {n : Nat} : ∀ {l : List Bool}, l.length = 8 * n →
    byteBits (packBytes l) = l ∧ (packBytes l).length = n := by
  induction n with
  | zero =>
      intro l h
      obtain rfl := List.eq_nil_of_length_eq_zero h
      rw [packBytes_nil]
      exact ⟨rfl, rfl⟩
  | succ n ih =>
      intro l h
      have hne : l.isEmpty = false := by
        cases l with
        | nil => simp at h
        | cons b l => rfl
      have htake : (l.take 8).length = 8 := by
        rw [List.length_take]
        omega
      obtain ⟨hbits, hlen⟩ := ih (l := l.drop 8) (by rw [List.length_drop]; omega)
      have hlt := bitsToNat_lt (l.take 8)
      rw [htake] at hlt
      have hbyte : natToBits 8 (UInt8.ofNat (bitsToNat (l.take 8))).toNat = l.take 8 := by
        have hnat : (UInt8.ofNat (bitsToNat (l.take 8))).toNat = bitsToNat (l.take 8) := by
          rw [UInt8.toNat_ofNat']
          exact Nat.mod_eq_of_lt hlt
        have hback := natToBits_bitsToNat (l.take 8)
        rw [htake] at hback
        rw [hnat, hback]
      have hfill : 8 - l.length = 0 := by omega
      rw [packBytes, hne, if_neg Bool.false_ne_true, hfill, List.replicate_zero, List.append_nil]
      refine ⟨?_, by rw [List.length_cons, hlen]⟩
      rw [byteBits, List.flatMap_cons, hbyte]
      exact (congrArg _ hbits).trans (List.take_append_drop 8 l)

/-! ## Hexadecimal -/

/-- The digit characters, lower case. -/
def hexDigits : List Char := "0123456789abcdef".toList

def hexDigit (n : Nat) : Char := hexDigits.getD n '0'

/-- The value of a digit in either case. -/
def hexValue (c : Char) : Option Nat :=
  if '0' ≤ c ∧ c ≤ '9' then some (c.toNat - '0'.toNat)
  else if 'a' ≤ c ∧ c ≤ 'f' then some (c.toNat - 'a'.toNat + 10)
  else if 'A' ≤ c ∧ c ≤ 'F' then some (c.toNat - 'A'.toNat + 10)
  else none

def formatHex (bytes : List UInt8) : List Char :=
  bytes.flatMap fun x => [hexDigit (x.toNat / 16), hexDigit (x.toNat % 16)]

/-- Two digits a byte; none for any other text. -/
def parseHex : List Char → Option (List UInt8)
  | [] => some []
  | [_] => none
  | a :: b :: rest => do
      let x ← hexValue a
      let y ← hexValue b
      let bytes ← parseHex rest
      some (.ofNat (16 * x + y) :: bytes)

theorem hexValue_hexDigit {n : Nat} (h : n < 16) : hexValue (hexDigit n) = some n := by
  have hall : ∀ i : Fin 16, hexValue (hexDigit i) = some i.val := by decide
  exact hall ⟨n, h⟩

theorem parseHex_formatHex (bytes : List UInt8) : parseHex (formatHex bytes) = some bytes := by
  induction bytes with
  | nil => rfl
  | cons x bytes ih =>
      have hx := x.toNat_lt
      have hdigits : formatHex (x :: bytes)
          = hexDigit (x.toNat / 16) :: hexDigit (x.toNat % 16) :: formatHex bytes := rfl
      have hhigh : x.toNat / 16 < 16 := by omega
      have hlow : x.toNat % 16 < 16 := by omega
      have hbyte : 16 * (x.toNat / 16) + x.toNat % 16 = x.toNat := by omega
      rw [hdigits, parseHex, hexValue_hexDigit hhigh, hexValue_hexDigit hlow, ih]
      simp only [Option.bind_eq_bind, Option.bind_some, hbyte, UInt8.ofNat_toNat]

theorem formatHex_injective {a b : List UInt8} (h : formatHex a = formatHex b) : a = b := by
  have ha := parseHex_formatHex a
  rw [h, parseHex_formatHex] at ha
  exact (Option.some.inj ha).symm

/-! ## Base64 -/

def padding : Char := '='

/-- The values of the letters and digits, and of the two characters that alphabets
choose. -/
def base64Value (c62 c63 : Char) (c : Char) : Option Nat :=
  if 'A' ≤ c ∧ c ≤ 'Z' then some (c.toNat - 'A'.toNat)
  else if 'a' ≤ c ∧ c ≤ 'z' then some (c.toNat - 'a'.toNat + 26)
  else if '0' ≤ c ∧ c ≤ '9' then some (c.toNat - '0'.toNat + 52)
  else if c = c62 then some 62
  else if c = c63 then some 63
  else none

def standard : Char → Option Nat := base64Value '+' '/'

def urlSafe : Char → Option Nat := base64Value '-' '_'

/-- The three bytes of four values; a short group gives the first of them. -/
def group (a b c d : Nat) : List UInt8 :=
  [.ofNat (a * 4 + b / 16), .ofNat (b % 16 * 16 + c / 4), .ofNat (c % 4 * 64 + d)]

def decode (value : Char → Option Nat) : List Char → Option (List UInt8)
  | [] => some []
  | [_] => none
  | [a, b] => do
      let x ← value a
      let y ← value b
      some ((group x y 0 0).take 1)
  | [a, b, c] => do
      let x ← value a
      let y ← value b
      let z ← value c
      some ((group x y z 0).take 2)
  | a :: b :: c :: d :: rest => do
      let x ← value a
      let y ← value b
      if c = padding then
        if d = padding ∧ rest = [] then some ((group x y 0 0).take 1) else none
      else do
        let z ← value c
        if d = padding then
          if rest = [] then some ((group x y z 0).take 2) else none
        else do
          let u ← value d
          let bytes ← decode value rest
          some (group x y z u ++ bytes)

def base64Chars : List Char :=
  "ABCDEFGHIJKLMNOPQRSTUVWXYZabcdefghijklmnopqrstuvwxyz0123456789+/".toList

def base64Char (n : Nat) : Char := base64Chars.getD n 'A'

/-- The standard alphabet, with padding. -/
def encode : List UInt8 → List Char
  | [] => []
  | [x] => [base64Char (x.toNat / 4), base64Char (x.toNat % 4 * 16), padding, padding]
  | [x, y] => [base64Char (x.toNat / 4), base64Char (x.toNat % 4 * 16 + y.toNat / 16),
      base64Char (y.toNat % 16 * 4), padding]
  | x :: y :: z :: rest =>
      base64Char (x.toNat / 4) :: base64Char (x.toNat % 4 * 16 + y.toNat / 16)
        :: base64Char (y.toNat % 16 * 4 + z.toNat / 64) :: base64Char (z.toNat % 64) :: encode rest

theorem standard_base64Char {n : Nat} (h : n < 64) :
    standard (base64Char n) = some n ∧ base64Char n ≠ padding := by
  have hall : ∀ i : Fin 64, standard (base64Char i) = some i.val ∧ base64Char i ≠ padding := by
    decide +kernel
  exact hall ⟨n, h⟩

/-- Four values of a group of three bytes give the bytes back. -/
theorem group_split (x y z : UInt8) :
    group (x.toNat / 4) (x.toNat % 4 * 16 + y.toNat / 16) (y.toNat % 16 * 4 + z.toNat / 64)
      (z.toNat % 64) = [x, y, z] := by
  have hx := x.toNat_lt
  have hy := y.toNat_lt
  have hz := z.toNat_lt
  simp only [group, List.cons.injEq, and_true, ← UInt8.toNat_inj, UInt8.toNat_ofNat']
  omega

theorem decode_encode (bytes : List UInt8) : decode standard (encode bytes) = some bytes := by
  induction bytes using encode.induct with
  | case1 => rfl
  | case2 x =>
      have hx := x.toNat_lt
      obtain ⟨h₁, -⟩ := standard_base64Char (n := x.toNat / 4) (by omega)
      obtain ⟨h₂, -⟩ := standard_base64Char (n := x.toNat % 4 * 16) (by omega)
      have hgroup := group_split x 0 0
      simp only [UInt8.toNat_zero, Nat.zero_div, Nat.add_zero] at hgroup
      simp [encode, decode, h₁, h₂, hgroup]
  | case3 x y =>
      have hx := x.toNat_lt
      have hy := y.toNat_lt
      obtain ⟨h₁, -⟩ := standard_base64Char (n := x.toNat / 4) (by omega)
      obtain ⟨h₂, -⟩ := standard_base64Char (n := x.toNat % 4 * 16 + y.toNat / 16) (by omega)
      obtain ⟨h₃, hp⟩ := standard_base64Char (n := y.toNat % 16 * 4) (by omega)
      have hgroup := group_split x y 0
      simp only [UInt8.toNat_zero, Nat.zero_div, Nat.add_zero] at hgroup
      simp [encode, decode, h₁, h₂, h₃, hp, hgroup]
  | case4 x y z rest ih =>
      have hx := x.toNat_lt
      have hy := y.toNat_lt
      have hz := z.toNat_lt
      obtain ⟨h₁, -⟩ := standard_base64Char (n := x.toNat / 4) (by omega)
      obtain ⟨h₂, -⟩ := standard_base64Char (n := x.toNat % 4 * 16 + y.toNat / 16) (by omega)
      obtain ⟨h₃, hp₃⟩ := standard_base64Char (n := y.toNat % 16 * 4 + z.toNat / 64) (by omega)
      obtain ⟨h₄, hp₄⟩ := standard_base64Char (n := z.toNat % 64) (by omega)
      simp [encode, decode, h₁, h₂, h₃, h₄, hp₃, hp₄, ih, group_split]

/-! ## One text, two decoders -/

variable {f : Char → Char} {v v' : Char → Option Nat}

/-- Translating the characters is the same as translating the alphabet. -/
theorem decode_map {l : List Char} (h : ∀ c ∈ l, v (f c) = v' c ∧ (f c = padding ↔ c = padding)) :
    decode v (l.map f) = decode v' l := by
  induction l using decode.induct with
  | case1 => rfl
  | case2 => rfl
  | case3 a b =>
      obtain ⟨ha, -⟩ := h a (by simp)
      obtain ⟨hb, -⟩ := h b (by simp)
      simp only [List.map_cons, List.map_nil, decode, ha, hb]
  | case4 a b c =>
      obtain ⟨ha, -⟩ := h a (by simp)
      obtain ⟨hb, -⟩ := h b (by simp)
      obtain ⟨hc, -⟩ := h c (by simp)
      simp only [List.map_cons, List.map_nil, decode, ha, hb, hc]
  | case5 a b c d rest ih =>
      obtain ⟨ha, -⟩ := h a (by simp)
      obtain ⟨hb, -⟩ := h b (by simp)
      obtain ⟨hc, hc'⟩ := h c (by simp)
      obtain ⟨hd, hd'⟩ := h d (by simp)
      have hrest := ih fun x hx => h x (by simp [hx])
      simp only [List.map_cons, decode, ha, hb, hc, hd, hc', hd', hrest, List.map_eq_nil_iff]

/-- What is decoded has only characters of the alphabet and padding. -/
theorem value_of_decode {l : List Char} {bytes : List UInt8} (h : decode v l = some bytes) :
    ∀ c ∈ l, (v c).isSome = true ∨ c = padding := by
  induction l using decode.induct generalizing bytes with
  | case1 => exact fun c hc => absurd hc List.not_mem_nil
  | case2 => cases h
  | case3 a b =>
      simp only [decode, Option.bind_eq_bind, Option.bind_eq_some_iff] at h
      obtain ⟨x, hx, y, hy, -⟩ := h
      simp [hx, hy]
  | case4 a b c =>
      simp only [decode, Option.bind_eq_bind, Option.bind_eq_some_iff] at h
      obtain ⟨x, hx, y, hy, z, hz, -⟩ := h
      simp [hx, hy, hz]
  | case5 a b c d rest ih =>
      simp only [decode, Option.bind_eq_bind, Option.bind_eq_some_iff] at h
      obtain ⟨x, hx, y, hy, h⟩ := h
      split at h
      · rename_i hc
        split at h
        · rename_i hd
          simp [hx, hy, hc, hd.1, hd.2]
        · cases h
      · simp only [Option.bind_eq_some_iff] at h
        obtain ⟨z, hz, h⟩ := h
        split at h
        · rename_i hd
          split at h
          · rename_i hrest
            simp [hx, hy, hz, hd, hrest]
          · cases h
        · simp only [Option.bind_eq_some_iff] at h
          obtain ⟨u, hu, bytes', hbytes, -⟩ := h
          have hall := ih hbytes
          simp only [List.mem_cons, forall_eq_or_imp]
          exact ⟨.inl (by simp [hx]), .inl (by simp [hy]), .inl (by simp [hz]),
            .inl (by simp [hu]), hall⟩

end Encoding

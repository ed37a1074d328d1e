import Mathlib.Data.List.DropRight

/-!
# Strings of the browser

`String.prototype.trim` and `parseInt` as the language defines them. Trimming twice is
trimming once, and a decimal reader stops at the letter of a hexadecimal prefix.
-/

namespace JsString

/-- White space and line terminators. -/
def isSpace (c : Char) : Bool :=
  [0x9, 0xA, 0xB, 0xC, 0xD, 0x20, 0xA0, 0x1680, 0x2028, 0x2029, 0x202F, 0x205F, 0x3000,
    0xFEFF].contains c.toNat || (0x2000 ≤ c.toNat && c.toNat ≤ 0x200A)

def trimChars (l : List Char) : List Char := (l.dropWhile isSpace).rdropWhile isSpace

def jsTrim (s : String) : String := String.ofList (trimChars s.toList)

@[simp] theorem toList_jsTrim (s : String) : (jsTrim s).toList = trimChars s.toList :=
  String.toList_ofList

/-- What does not begin with a space keeps its beginning. -/
theorem dropWhile_rdropWhile {p : Char → Bool} {l : List Char} (h : l.dropWhile p = l) :
    (l.rdropWhile p).dropWhile p = l.rdropWhile p := by
  cases hl : l.rdropWhile p with
  | nil => rfl
  | cons c t =>
      obtain ⟨r, hr⟩ : l.rdropWhile p <+: l := List.rdropWhile_prefix p l
      rw [hl, List.cons_append] at hr
      rw [← hr] at h
      have hc : ¬ p c = true := List.dropWhile_eq_self_iff.mp h (Nat.succ_pos _)
      rw [List.dropWhile_cons_of_neg hc]

theorem trimChars_trimChars (l : List Char) : trimChars (trimChars l) = trimChars l := by
  have hdrop : (l.dropWhile isSpace).dropWhile isSpace = l.dropWhile isSpace :=
    List.dropWhile_idempotent isSpace l
  rw [trimChars, trimChars, dropWhile_rdropWhile hdrop]
  exact List.rdropWhile_idempotent isSpace _

@[simp] theorem jsTrim_jsTrim (s : String) : jsTrim (jsTrim s) = jsTrim s := by
  rw [jsTrim, toList_jsTrim, trimChars_trimChars]
  rfl

theorem trimChars_eq_nil {l : List Char} : trimChars l = [] ↔ ∀ c ∈ l, isSpace c = true := by
  rw [trimChars, List.rdropWhile_eq_nil_iff]
  constructor
  · intro h
    have hnil : l.dropWhile isSpace = [] := by
      cases hl : l.dropWhile isSpace with
      | nil => rfl
      | cons c t =>
          have hc := List.dropWhile_get_zero_not isSpace l (by rw [hl]; exact Nat.succ_pos _)
          simp only [hl, List.get_eq_getElem, List.getElem_cons_zero] at hc
          exact absurd (h c (by rw [hl]; exact List.mem_cons_self ..)) hc
    exact List.dropWhile_eq_nil_iff.mp hnil
  · exact fun h c hc => h c ((List.dropWhile_suffix isSpace).subset hc)

/-- Nothing is left of a string of spaces, and of no other. -/
theorem jsTrim_eq_empty {s : String} : jsTrim s = "" ↔ ∀ c ∈ s.toList, isSpace c = true := by
  rw [← trimChars_eq_nil, ← toList_jsTrim]
  constructor
  · intro h
    rw [h]
    rfl
  · exact fun h => String.toList_eq_nil_iff.mp h

theorem ne_empty_of_jsTrim {s : String} (h : jsTrim s ≠ "") : s ≠ "" := by
  rintro rfl
  exact h rfl

/-- A string that contains more than spaces does so with others around it. -/
theorem jsTrim_append_ne {s t : String} (h : jsTrim t ≠ "") : jsTrim (s ++ t) ≠ "" := by
  rw [Ne, jsTrim_eq_empty] at h ⊢
  intro hall
  refine h fun c hc => hall c ?_
  rw [String.toList_append]
  exact List.mem_append_right _ hc

/-! ## Numerals -/

/-- The value of a digit or letter, below the radix. -/
def digitValue (radix : Nat) (c : Char) : Option Nat :=
  (if '0' ≤ c ∧ c ≤ '9' then some (c.toNat - 48)
    else if 'a' ≤ c ∧ c ≤ 'z' then some (c.toNat - 87)
    else if 'A' ≤ c ∧ c ≤ 'Z' then some (c.toNat - 55)
    else none).filter fun v => v < radix

def splitSign : List Char → Int × List Char
  | '-' :: l => (-1, l)
  | '+' :: l => (1, l)
  | l => (1, l)

/-- `0x` or `0X`. -/
def hexPrefix : List Char → Bool
  | '0' :: 'x' :: _ => true
  | '0' :: 'X' :: _ => true
  | _ => false

/-- The digits that are read: up to the first character that is none. -/
def leadingDigits (radix : Nat) : List Char → List Nat
  | [] => []
  | c :: l =>
      match digitValue radix c with
      | some d => d :: leadingDigits radix l
      | none => []

/-- `none` is not-a-number. -/
def parseInt (s : String) (radix : Nat) : Option Int :=
  let (sign, l) := splitSign (s.toList.dropWhile isSpace)
  let l := if radix = 16 ∧ hexPrefix l = true then l.drop 2 else l
  match leadingDigits radix l with
  | [] => none
  | d :: ds => some (sign * ((d :: ds).foldl (fun n d => radix * n + d) 0 : Nat))

/-- A decimal reader takes nothing but the zero of a hexadecimal numeral. -/
theorem parseInt_hexPrefix {s : String} (h : hexPrefix s.toList = true) :
    parseInt s 10 = some 0 := by
  obtain ⟨x, l, hl, hx⟩ : ∃ x l, s.toList = '0' :: x :: l ∧ digitValue 10 x = none := by
    cases hs : s.toList with
    | nil => rw [hs] at h; cases h
    | cons c l =>
        rw [hs] at h
        unfold hexPrefix at h
        split at h
        · rename_i t heq
          obtain ⟨rfl, rfl⟩ := List.cons.inj heq
          exact ⟨'x', t, rfl, rfl⟩
        · rename_i t heq
          obtain ⟨rfl, rfl⟩ := List.cons.inj heq
          exact ⟨'X', t, rfl, rfl⟩
        · cases h
  have hdrop : ('0' :: x :: l).dropWhile isSpace = '0' :: x :: l := rfl
  have hsign : splitSign ('0' :: x :: l) = (1, '0' :: x :: l) := rfl
  have hdigits : leadingDigits 10 ('0' :: x :: l) = [0] := by
    simp only [leadingDigits, hx]
    rfl
  rw [parseInt, hl, hdrop, hsign]
  simp only [Nat.reduceEqDiff, false_and, if_false, hdigits]
  rfl

/-- A hexadecimal numeral has no sign. -/
theorem parseInt_hex_nonneg {s : String} {n : Int} (h : hexPrefix s.toList = true)
    (hn : parseInt s 16 = some n) : 0 ≤ n := by
  obtain ⟨l, hl⟩ : ∃ l, s.toList = '0' :: l := by
    cases hs : s.toList with
    | nil => rw [hs] at h; cases h
    | cons c l =>
        rw [hs] at h
        unfold hexPrefix at h
        split at h
        · rename_i heq
          exact ⟨l, by rw [(List.cons.inj heq).1]⟩
        · rename_i heq
          exact ⟨l, by rw [(List.cons.inj heq).1]⟩
        · cases h
  have hdrop : ('0' :: l).dropWhile isSpace = '0' :: l := rfl
  have hsign : splitSign ('0' :: l) = (1, '0' :: l) := rfl
  rw [parseInt, hl, hdrop, hsign] at hn
  dsimp only at hn
  split at hn
  · cases hn
  · obtain rfl := Option.some.inj hn
    omega

end JsString

import BurnedChats.Lib.Cell

/-!
# Self-delimiting codecs

A codec writes a value as bits and reads it back in front of any suffix, so
codecs compose field after field. Whatever has a codec has a number
(`Codec.toNat`), and the value can be computed back from it
(`Codec.ofNat_toNat`): numbers are a model of collision-free hashing.
-/

structure Codec (α : Type) where
  enc : α → List Bool
  dec : List Bool → Option (α × List Bool)
  law : ∀ a r, dec (enc a ++ r) = some (a, r)

namespace Codec

variable {α β : Type}

def pair (x : Codec α) (y : Codec β) : Codec (α × β) where
  enc p := x.enc p.1 ++ y.enc p.2
  dec l := (x.dec l).bind fun (a, l) => (y.dec l).map fun (b, l) => ((a, b), l)
  law p r := by simp [x.law, y.law]

/-- Transport along a function with a left inverse. -/
def map (x : Codec α) (f : β → α) (g : α → β) (h : ∀ b, g (f b) = b) : Codec β where
  enc b := x.enc (f b)
  dec l := (x.dec l).map fun (a, l) => (g a, l)
  law b r := by simp [x.law, h]

def bool : Codec Bool where
  enc b := [b]
  dec
    | [] => none
    | b :: l => some (b, l)
  law _ _ := rfl

/-! ## Bit lists and numbers -/

def encBits : List Bool → List Bool
  | [] => [false]
  | b :: l => true :: b :: encBits l

def decBits : List Bool → Option (List Bool × List Bool)
  | true :: b :: l => (decBits l).map fun (bs, l) => (b :: bs, l)
  | false :: l => some ([], l)
  | _ => none

theorem decBits_encBits (l r : List Bool) : decBits (encBits l ++ r) = some (l, r) := by
  induction l with
  | nil => simp [encBits, decBits]
  | cons b l ih => simp [encBits, decBits, ih]

def bits : Codec (List Bool) := ⟨encBits, decBits, decBits_encBits⟩

def nat : Codec Nat :=
  bits.map (fun n => natToBits (n.log2 + 1) n) bitsToNat fun _ => bitsToNat_natToBits Nat.lt_log2_self

def int : Codec Int :=
  (bool.pair nat).map (fun x => (decide (0 ≤ x), x.natAbs))
    (fun p => if p.1 then (p.2 : Int) else -p.2) fun x => by
      by_cases h : 0 ≤ x
      · simp only [h, decide_true, if_true]
        omega
      · simp only [h, decide_false, Bool.false_eq_true, if_false]
        omega

/-! ## Cells -/

mutual

def encCell : Cell → List Bool
  | .mk bits refs => encBits bits ++ encCells refs

def encCells : List Cell → List Bool
  | [] => [false]
  | c :: cs => true :: (encCell c ++ encCells cs)

end

mutual

/-- The first argument bounds the nesting; the length of the input is enough. -/
def decCell : Nat → List Bool → Option (Cell × List Bool)
  | 0, _ => none
  | n + 1, l => (decBits l).bind fun (bits, l) =>
      (decCells n l).map fun (refs, l) => (.mk bits refs, l)

def decCells : Nat → List Bool → Option (List Cell × List Bool)
  | n + 1, true :: l => (decCell n l).bind fun (c, l) =>
      (decCells n l).map fun (cs, l) => (c :: cs, l)
  | _ + 1, false :: l => some ([], l)
  | _, _ => none

end

theorem encBits_pos (l : List Bool) : 1 ≤ (encBits l).length := by
  cases l <;> simp [encBits]

mutual

theorem decCell_encCell : ∀ (c : Cell) (n : Nat) (r : List Bool), (encCell c).length ≤ n →
    decCell n (encCell c ++ r) = some (c, r)
  | .mk bits refs, n, r, h => by
      have hpos := encBits_pos bits
      simp only [encCell, List.length_append] at h
      obtain ⟨n, rfl⟩ : ∃ k, n = k + 1 := ⟨n - 1, by omega⟩
      simp only [encCell, decCell, List.append_assoc, decBits_encBits, Option.bind_some,
        decCells_encCells refs n r (by omega), Option.map_some]

theorem decCells_encCells : ∀ (cs : List Cell) (n : Nat) (r : List Bool),
    (encCells cs).length ≤ n → decCells n (encCells cs ++ r) = some (cs, r)
  | [], n, r, h => by
      simp only [encCells, List.length_singleton] at h
      obtain ⟨n, rfl⟩ : ∃ k, n = k + 1 := ⟨n - 1, by omega⟩
      simp [encCells, decCells]
  | c :: cs, n, r, h => by
      simp only [encCells, List.length_cons, List.length_append] at h
      obtain ⟨n, rfl⟩ : ∃ k, n = k + 1 := ⟨n - 1, by omega⟩
      simp only [encCells, List.cons_append, decCells, List.append_assoc,
        decCell_encCell c n _ (by omega), Option.bind_some,
        decCells_encCells cs n r (by omega), Option.map_some]

end

def cell : Codec Cell where
  enc := encCell
  dec l := decCell l.length l
  law c r := decCell_encCell c _ r (by simp)

def address : Codec Address :=
  (bool.pair nat).map (fun a => (decide (a.workchain = .basechain), a.hash))
    (fun p => ⟨if p.1 then .basechain else .masterchain, p.2⟩) fun ⟨wc, h⟩ => by
      cases wc <;> rfl

/-! ## Numbering -/

def toNat (x : Codec α) (a : α) : Nat := bitsToNat (true :: x.enc a)

def ofNat (x : Codec α) (n : Nat) : Option α :=
  match natToBits (n.log2 + 1) n with
  | [] => none
  | _ :: l => (x.dec l).map Prod.fst

theorem log2_bitsToNat (l : List Bool) : (bitsToNat (true :: l)).log2 = l.length := by
  have h := bitsToNat_lt l
  have hcons : bitsToNat (true :: l) = 2 ^ l.length + bitsToNat l := by
    rw [bitsToNat_cons]
    simp
  have hpos : bitsToNat (true :: l) ≠ 0 := by
    have := Nat.two_pow_pos l.length
    omega
  rw [Nat.log2_eq_iff hpos, hcons, Nat.pow_succ]
  omega

theorem ofNat_toNat (x : Codec α) (a : α) : x.ofNat (x.toNat a) = some a := by
  have h := natToBits_bitsToNat (true :: x.enc a)
  have hlaw := x.law a []
  rw [List.append_nil] at hlaw
  rw [ofNat, toNat, log2_bitsToNat]
  rw [List.length_cons] at h
  rw [h]
  simp [hlaw]

end Codec

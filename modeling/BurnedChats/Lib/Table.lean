import Mathlib.Data.List.AList
import Mathlib.Algebra.BigOperators.Group.List.Basic
import Mathlib.Algebra.Order.BigOperators.Group.List
import Mathlib.Algebra.Order.Ring.Nat
import Mathlib.Algebra.Order.Ring.Int

/-!
# Finite tables

A table is an association list without repeated keys (`AList` at a constant
family). Contract storage maps are tables; what the developments over them
need beyond lookup is *totals*: the sum of a quantity over all entries, and
how an insertion or an erasure moves it.

The one fact everything else follows from is `sum_split`: a total is the
contribution of one key (zero when the key is absent) plus the total of the
table without it. Insertion and erasure are both phrased against it.
-/

/-- Finite maps from `K` to `V`, at most one entry per key. -/
abbrev Table (K V : Type) := AList (fun _ : K => V)

namespace Table

variable {K V M : Type} [DecidableEq K]

/-- The sum of `f` over all entries. -/
def sum [AddMonoid M] (f : K → V → M) (t : Table K V) : M :=
  (t.entries.map fun e => f e.1 e.2).sum

/-- What key `k` contributes to `sum f`: nothing when it is absent. -/
def at? [Zero M] (f : K → V → M) (k : K) (t : Table K V) : M :=
  match t.lookup k with
  | some v => f k v
  | none => 0

omit [DecidableEq K] in
@[simp] theorem sum_empty [AddMonoid M] (f : K → V → M) : sum f (∅ : Table K V) = 0 := rfl

theorem at?_some [Zero M] {f : K → V → M} {k : K} {v : V} {t : Table K V}
    (h : t.lookup k = some v) : at? f k t = f k v := by
  rw [at?, h]

theorem at?_none [Zero M] {f : K → V → M} {k : K} {t : Table K V}
    (h : t.lookup k = none) : at? f k t = 0 := by
  rw [at?, h]

theorem mem_entries_iff {t : Table K V} {k : K} {v : V} :
    (⟨k, v⟩ : Sigma fun _ : K => V) ∈ t.entries ↔ t.lookup k = some v := by
  rw [← AList.mem_lookup_iff, Option.mem_def]

/-- An entry and the table without it. -/
theorem entries_perm {t : Table K V} {k : K} {v : V} (h : t.lookup k = some v) :
    t.entries.Perm (⟨k, v⟩ :: (t.erase k).entries) := by
  have hmem : k ∈ t.entries.keys := List.dlookup_isSome.mp (by
    rw [show List.dlookup k t.entries = some v from h]; rfl)
  obtain ⟨b, l₁, l₂, -, hl, hker⟩ := List.exists_of_kerase hmem
  have hb : b = v := by
    have hin : (⟨k, b⟩ : Sigma fun _ : K => V) ∈ t.entries := by rw [hl]; simp
    have := mem_entries_iff.mp hin
    rw [h] at this
    exact (Option.some.inj this).symm
  subst hb
  rw [show (t.erase k).entries = l₁ ++ l₂ from hker, hl]
  exact List.perm_middle

theorem erase_of_lookup_none {t : Table K V} {k : K} (h : t.lookup k = none) : t.erase k = t := by
  have hk : k ∉ t.entries.keys := List.dlookup_eq_none.mp h
  exact AList.ext (List.kerase_of_notMem_keys hk)

/-- Splitting one key off a total. -/
theorem sum_split [AddCommMonoid M] (f : K → V → M) (k : K) (t : Table K V) :
    sum f t = at? f k t + sum f (t.erase k) := by
  cases h : t.lookup k with
  | none => rw [at?_none h, zero_add, erase_of_lookup_none h]
  | some v =>
      rw [at?_some h, sum, ((entries_perm h).map _).sum_eq, List.map_cons, List.sum_cons, sum]

theorem sum_insert [AddCommMonoid M] (f : K → V → M) (k : K) (v : V) (t : Table K V) :
    sum f (t.insert k v) = f k v + sum f (t.erase k) := by
  rw [sum, AList.entries_insert, List.map_cons, List.sum_cons, sum]
  rfl

/-- An insertion trades the old contribution of the key for the new one. -/
theorem sum_insert_add [AddCommMonoid M] (f : K → V → M) (k : K) (v : V) (t : Table K V) :
    sum f (t.insert k v) + at? f k t = sum f t + f k v := by
  rw [sum_insert, sum_split f k t]
  ac_rfl

theorem sum_insert_new [AddCommMonoid M] {f : K → V → M} {k : K} {v : V} {t : Table K V}
    (h : t.lookup k = none) : sum f (t.insert k v) = f k v + sum f t := by
  rw [sum_insert, sum_split f k t, at?_none h, zero_add]

theorem sum_congr [AddMonoid M] {f g : K → V → M} {t : Table K V}
    (h : ∀ k v, t.lookup k = some v → f k v = g k v) : sum f t = sum g t := by
  unfold sum
  congr 1
  exact List.map_congr_left fun e he => h e.1 e.2 (mem_entries_iff.mp he)

theorem sum_le_sum {f g : K → V → Nat} {t : Table K V}
    (h : ∀ k v, t.lookup k = some v → f k v ≤ g k v) : sum f t ≤ sum g t :=
  List.sum_le_sum fun e he => h e.1 e.2 (mem_entries_iff.mp he)

omit [DecidableEq K] in
theorem sum_add [AddCommMonoid M] (f g : K → V → M) (t : Table K V) :
    sum (fun k v => f k v + g k v) t = sum f t + sum g t := by
  unfold sum
  rw [← List.sum_map_add]

omit [DecidableEq K] in
@[simp] theorem sum_zero [AddMonoid M] (t : Table K V) : sum (fun _ _ => (0 : M)) t = 0 := by
  simp [sum]

omit [DecidableEq K] in
theorem sum_natCast (f : K → V → Nat) (t : Table K V) :
    sum (fun k v => (f k v : Int)) t = (sum f t : Nat) := by
  unfold sum
  induction t.entries with
  | nil => rfl
  | cons e l ih => simp only [List.map_cons, List.sum_cons, ih, Nat.cast_add]

theorem sum_nonneg {f : K → V → Int} {t : Table K V}
    (h : ∀ k v, t.lookup k = some v → 0 ≤ f k v) : 0 ≤ sum f t := by
  refine List.sum_nonneg fun x hx => ?_
  obtain ⟨e, he, rfl⟩ := List.mem_map.mp hx
  exact h e.1 e.2 (mem_entries_iff.mp he)

/-- One entry never exceeds a total of naturals. -/
theorem le_sum {f : K → V → Nat} {k : K} {v : V} {t : Table K V}
    (h : t.lookup k = some v) : f k v ≤ sum f t := by
  rw [sum_split f k t, at?_some h]
  exact Nat.le_add_right _ _

/-- Different keys contribute to a total separately. -/
theorem sum_at?_le {f : K → V → Nat} {ks : List K} (h : ks.Nodup) :
    ∀ t : Table K V, (ks.map fun k => at? f k t).sum ≤ sum f t := by
  induction ks with
  | nil => exact fun t => Nat.zero_le _
  | cons k ks ih =>
      intro t
      obtain ⟨hk, hks⟩ := List.nodup_cons.mp h
      have hrest : (ks.map fun k' => at? f k' t) = ks.map fun k' => at? f k' (t.erase k) := by
        refine List.map_congr_left fun k' hk' => ?_
        have hne : k' ≠ k := fun he => hk (he ▸ hk')
        rw [at?, at?, AList.lookup_erase_ne hne]
      rw [List.map_cons, List.sum_cons, hrest, sum_split f k t]
      exact Nat.add_le_add_left (ih hks _) _

theorem lookup_insert_of {t : Table K V} {k k' : K} {v : V} :
    (t.insert k v).lookup k' = if k' = k then some v else t.lookup k' := by
  by_cases h : k' = k
  · subst h; simp
  · simp [h]

theorem lookup_erase_of {t : Table K V} {k k' : K} :
    (t.erase k).lookup k' = if k' = k then none else t.lookup k' := by
  by_cases h : k' = k
  · subst h; simp
  · simp [h]

theorem lookup_union (t u : Table K V) (k : K) :
    (t ∪ u).lookup k = (t.lookup k).or (u.lookup k) := by
  by_cases h : k ∈ t
  · obtain ⟨v, hv⟩ := Option.isSome_iff_exists.mp (AList.lookup_isSome.mpr h)
    rw [AList.lookup_union_left h, hv, Option.some_or]
  · rw [AList.lookup_union_right h, AList.lookup_eq_none.mpr h, Option.none_or]

theorem entries_ne_nil {t : Table K V} {k : K} {v : V} (h : t.lookup k = some v) :
    t.entries ≠ [] :=
  List.ne_nil_of_mem (mem_entries_iff.mpr h)

/-! ## Values -/

/-- The values of all entries. -/
def values (t : Table K V) : List V := t.entries.map (·.2)

theorem mem_values {t : Table K V} {v : V} : v ∈ values t ↔ ∃ k, t.lookup k = some v := by
  constructor
  · intro h
    obtain ⟨e, he, rfl⟩ := List.mem_map.mp h
    exact ⟨e.1, mem_entries_iff.mp he⟩
  · rintro ⟨k, h⟩
    exact List.mem_map.mpr ⟨⟨k, v⟩, mem_entries_iff.mpr h, rfl⟩

theorem values_insert (t : Table K V) (k : K) (v : V) :
    values (t.insert k v) = v :: values (t.erase k) := by
  rw [values, AList.entries_insert, List.map_cons]
  rfl

theorem values_perm {t : Table K V} {k : K} {v : V} (h : t.lookup k = some v) :
    (values t).Perm (v :: values (t.erase k)) :=
  (entries_perm h).map _

/-! ## Dense tables -/

/-- The keys are the numbers below `n`. -/
def Dense (t : Table Nat V) (n : Nat) : Prop := ∀ i, (t.lookup i).isSome = true ↔ i < n

theorem dense_empty : Dense (∅ : Table Nat V) 0 := by
  intro i
  simp

theorem Dense.lookup_none {t : Table Nat V} {n : Nat} (h : Dense t n) : t.lookup n = none := by
  cases hn : t.lookup n with
  | none => rfl
  | some v => exact absurd ((h n).mp (by rw [hn]; rfl)) (Nat.lt_irrefl n)

/-- Appending a value. -/
theorem Dense.push {t : Table Nat V} {n : Nat} (h : Dense t n) (v : V) :
    Dense (t.insert n v) (n + 1) := by
  intro i
  rw [lookup_insert_of]
  split
  · simp_all
  · rw [h i]
    omega

theorem Dense.values_push {t : Table Nat V} {n : Nat} (h : Dense t n) (v : V) :
    values (t.insert n v) = v :: values t := by
  rw [values_insert, erase_of_lookup_none h.lookup_none]

/-- Removing the last value. -/
theorem Dense.pop {t : Table Nat V} {n : Nat} (h : Dense t (n + 1)) : Dense (t.erase n) n := by
  intro i
  rw [lookup_erase_of]
  split
  · simp_all
  · rw [h i]
    omega

/-- Overwriting an entry keeps the keys. -/
theorem Dense.overwrite {t : Table Nat V} {n i : Nat} (h : Dense t n) (hi : i < n) (v : V) :
    Dense (t.insert i v) n := by
  intro j
  rw [lookup_insert_of]
  split
  · simp_all
  · exact h j

/-- A total of a dense table, key by key. -/
theorem Dense.sum_eq [AddCommMonoid M] (f : Nat → V → M) {n : Nat} :
    ∀ {t : Table Nat V}, Dense t n → sum f t = ((List.range n).map fun i => at? f i t).sum := by
  induction n with
  | zero =>
      intro t h
      have hempty : t.entries = [] := by
        refine List.eq_nil_iff_forall_not_mem.mpr fun e he => ?_
        have hlook : t.lookup e.1 = some e.2 := mem_entries_iff.mp he
        exact absurd ((h e.1).mp (by rw [hlook]; rfl)) (Nat.not_lt_zero _)
      simp [sum, hempty]
  | succ n ih =>
      intro t h
      have hrest : ((List.range n).map fun i => at? f i (t.erase n))
          = (List.range n).map fun i => at? f i t := by
        refine List.map_congr_left fun i hi => ?_
        rw [at?, at?, lookup_erase_of, if_neg (Nat.ne_of_lt (List.mem_range.mp hi))]
      rw [sum_split f n t, ih h.pop, hrest, List.range_succ, List.map_append, List.sum_append,
        List.map_singleton, List.sum_singleton, add_comm]

/-- Moving the last value into the place of another one removes exactly that one. -/
theorem values_swapRemove {t : Table Nat V} {i n : Nat} {v last : V} (hi : t.lookup i = some v)
    (hn : t.lookup n = some last) (hne : i ≠ n) :
    (values t).Perm (v :: values ((t.insert i last).erase n)) := by
  have hlast : (t.insert i last).lookup n = some last := by
    rw [lookup_insert_of, if_neg (Ne.symm hne), hn]
  have hperm := values_perm hlast
  rw [values_insert] at hperm
  exact (values_perm hi).trans (hperm.cons_inv.cons v)

end Table

import Mathlib.Logic.Function.Basic

/-!
# Values and a reverse index

Every owner has a value, or `blank` for none, and an index leads from a value back
to its owner. Value and index are written by separate steps: between two of them
an owner may be on the way to lose its value (`clearing`), whose entry is gone
already. `Indexed` is what can be kept through such steps, and there is one rule
for each: a value is written, an entry claimed or released, and both switched at
once.
-/

section Indexed

variable {κ α : Type}

/-- A value leads back to its owner, unless that one is being cleared; it leads to
no other, and is not that of two. -/
structure Indexed (blank : κ) (value : α → κ) (index : κ → Option α) (clearing : α → Prop) :
    Prop where
  mapped : ∀ u, value u ≠ blank → index (value u) = some u ∨ clearing u
  sole : ∀ u v, value v ≠ blank → index (value v) = some u → v = u
  one : ∀ u v, value u ≠ blank → value v = value u → v = u

variable {blank : κ} {value : α → κ} {index : κ → Option α} {clearing clearing' : α → Prop}
  {u : α} {w : κ}

theorem Indexed.mono (h : Indexed blank value index clearing)
    (hc : ∀ v, value v ≠ blank → clearing v → clearing' v) :
    Indexed blank value index clearing' where
  mapped v hv := (h.mapped v hv).imp_right (hc v hv)
  sole := h.sole
  one := h.one

variable [DecidableEq κ] [DecidableEq α]

omit [DecidableEq κ] in
/-- An owner gets no value, or keeps its own, or gets one that leads to it. -/
theorem Indexed.write (h : Indexed blank value index clearing)
    (hw : w = blank ∨ w = value u ∨ index w = some u) :
    Indexed blank (Function.update value u w) index clearing := by
  by_cases hsame : w = value u
  · rwa [hsame, Function.update_eq_self]
  replace hw : w ≠ blank → index w = some u := fun hne =>
    (hw.resolve_left hne).resolve_left hsame
  refine ⟨fun v hv => ?_, fun u' v hv ha => ?_, fun u' v hu' hv => ?_⟩
  · by_cases hvu : v = u
    · subst hvu
      rw [Function.update_self] at hv ⊢
      exact .inl (hw hv)
    · rw [Function.update_of_ne hvu] at hv ⊢
      exact h.mapped v hv
  · by_cases hvu : v = u
    · subst hvu
      rw [Function.update_self] at hv ha
      exact Option.some.inj ((hw hv).symm.trans ha)
    · rw [Function.update_of_ne hvu] at hv ha
      exact h.sole u' v hv ha
  · by_cases hvu : v = u
    · by_cases hu : u' = u
      · rw [hvu, hu]
      · subst hvu
        rw [Function.update_self, Function.update_of_ne hu] at hv
        rw [Function.update_of_ne hu] at hu'
        have hmap : index (value u') = some v := hv ▸ hw (hv ▸ hu')
        exact (h.sole v u' hu' hmap).symm
    · rw [Function.update_of_ne hvu] at hv
      by_cases hu : u' = u
      · subst hu
        rw [Function.update_self] at hv hu'
        exact h.sole u' v (hv ▸ hu') (hv ▸ hw hu')
      · rw [Function.update_of_ne hu] at hv hu'
        exact h.one u' v hu' hv

omit [DecidableEq α] in
/-- The entry of a value that no other owner has. -/
theorem Indexed.claim (h : Indexed blank value index clearing) (hw : ∀ v, v ≠ u → value v ≠ w) :
    Indexed blank value (Function.update index w (some u)) clearing := by
  have hcases : ∀ v, value v = w → v = u := fun v hv => by_contra fun hne => hw v hne hv
  refine ⟨fun v hv => ?_, fun u' v hv ha => ?_, h.one⟩
  · by_cases hvw : value v = w
    · rw [hvw, Function.update_self, hcases v hvw]
      exact .inl rfl
    · rw [Function.update_of_ne hvw]
      exact h.mapped v hv
  · by_cases hvw : value v = w
    · rw [hvw, Function.update_self] at ha
      rw [hcases v hvw]
      exact Option.some.inj ha
    · rw [Function.update_of_ne hvw] at ha
      exact h.sole u' v hv ha

omit [DecidableEq α] in
/-- An entry that leads to no other owner goes, for one that is being cleared. -/
theorem Indexed.release (h : Indexed blank value index clearing) (hu : clearing u)
    (hw : ∀ v, index w = some v → v = u) :
    Indexed blank value (Function.update index w none) clearing := by
  refine ⟨fun v hv => ?_, fun u' v hv ha => ?_, h.one⟩
  · by_cases hvw : value v = w
    · rcases h.mapped v hv with ha | hc
      · rw [hw v (hvw ▸ ha)]
        exact .inr hu
      · exact .inr hc
    · rw [Function.update_of_ne hvw]
      exact h.mapped v hv
  · by_cases hvw : value v = w
    · rw [hvw, Function.update_self] at ha
      cases ha
    · rw [Function.update_of_ne hvw] at ha
      exact h.sole u' v hv ha

/-- An owner changes to a value that no other has. -/
theorem Indexed.switch (h : Indexed blank value index clearing) (hu : value u ≠ blank)
    (hw : ∀ v, v ≠ u → value v ≠ w) :
    Indexed blank (Function.update value u w)
      (Function.update (Function.update index (value u) none) w (some u)) clearing := by
  have hold : ∀ v, v ≠ u → value v ≠ blank →
      Function.update (Function.update index (value u) none) w (some u) (value v)
        = index (value v) := fun v hne hv => by
    rw [Function.update_of_ne (hw v hne), Function.update_of_ne]
    exact fun he => hne (h.one u v hu he)
  refine ⟨fun v hv => ?_, fun u' v hv ha => ?_, fun u' v hu' hv => ?_⟩
  · by_cases hvu : v = u
    · subst hvu
      rw [Function.update_self, Function.update_self]
      exact .inl rfl
    · rw [Function.update_of_ne hvu] at hv ⊢
      rw [hold v hvu hv]
      exact h.mapped v hv
  · by_cases hvu : v = u
    · subst hvu
      rw [Function.update_self, Function.update_self] at ha
      exact Option.some.inj ha
    · rw [Function.update_of_ne hvu] at hv ha
      rw [hold v hvu hv] at ha
      exact h.sole u' v hv ha
  · by_cases hvu : v = u
    · by_cases hu'' : u' = u
      · rw [hvu, hu'']
      · subst hvu
        rw [Function.update_self, Function.update_of_ne hu''] at hv
        exact absurd hv.symm (hw u' hu'')
    · rw [Function.update_of_ne hvu] at hv
      by_cases hu'' : u' = u
      · subst hu''
        rw [Function.update_self] at hv
        exact absurd hv (hw v hvu)
      · rw [Function.update_of_ne hu''] at hv hu'
        exact h.one u' v hu' hv

end Indexed

import Mathlib.Algebra.Ring.Nat
import Mathlib.Data.List.Basic

/-!
# Interleaved requests over a shared store

A server holds one store and any number of requests in progress. A request is
a value of the type `P`: where it stands and what it remembers. `step` is its
next command: the effect on the store and what the request becomes, `none` once
it has finished. Commands of different requests interleave freely, new requests
arrive at any time, and the surroundings (a clock, clients, other services)
move the store by `env`. Finished requests stay in the pool, so that what they
answered can be counted.

`Preserves` is the proof rule: one obligation for an arriving request, one for
a command, one for a move of the surroundings; `Run.invariant` then covers all
interleavings. `countP_turn` says what one command does to the number of
requests at a given place.
-/

namespace Interleave

/-- `opens` tells the places where an arriving request may start. -/
structure Server (S P E : Type) where
  opens : P → Bool
  step : P → S → Option (S × P)
  env : E → S → Option S

structure Conf (S P : Type) where
  store : S
  pool : List P

inductive Action (P E : Type) where
  | start (p : P)
  | turn (i : Nat)
  | env (e : E)

variable {S P E : Type}

namespace Server

variable (V : Server S P E)

def next (c : Conf S P) : Action P E → Option (Conf S P)
  | .start p => if V.opens p then some { c with pool := c.pool ++ [p] } else none
  | .turn i =>
      match c.pool[i]? with
      | none => none
      | some p => (V.step p c.store).map fun r => ⟨r.1, c.pool.set i r.2⟩
  | .env e => (V.env e c.store).map fun s => { c with store := s }

/-- Runs all of whose steps meet `G` in the configuration they start from. -/
inductive Run (G : Conf S P → Action P E → Prop) : Conf S P → Conf S P → Prop where
  | refl (c) : Run G c c
  | tail {c c' c'' a} : Run G c c' → G c' a → V.next c' a = some c'' → Run G c c''

/-- All runs. -/
abbrev Reach : Conf S P → Conf S P → Prop := V.Run fun _ _ => True

/-- Executing a list of actions, each of which must be `allowed`. -/
def execWhile (allowed : Conf S P → Action P E → Bool) (c : Conf S P) :
    List (Action P E) → Option (Conf S P)
  | [] => some c
  | a :: as => if allowed c a then (V.next c a).bind fun c' => execWhile allowed c' as else none

def exec (c : Conf S P) (as : List (Action P E)) : Option (Conf S P) :=
  V.execWhile (fun _ _ => true) c as

variable {V} {G : Conf S P → Action P E → Prop}

theorem Run.trans {c c' c'' : Conf S P} (h : V.Run G c c') (h' : V.Run G c' c'') :
    V.Run G c c'' := by
  induction h' with
  | refl => exact h
  | tail _ hg hs ih => exact ih.tail hg hs

theorem Run.mono {G' : Conf S P → Action P E → Prop} {c c' : Conf S P}
    (hG : ∀ c a, G c a → G' c a) (h : V.Run G c c') : V.Run G' c c' := by
  induction h with
  | refl => exact .refl _
  | tail _ hg hs ih => exact ih.tail (hG _ _ hg) hs

theorem run_of_execWhile {allowed : Conf S P → Action P E → Bool} {as : List (Action P E)}
    (hG : ∀ c a, allowed c a = true → G c a) :
    ∀ {c c' : Conf S P}, V.execWhile allowed c as = some c' → V.Run G c c' := by
  induction as with
  | nil =>
      intro c c' h
      obtain rfl := Option.some.inj h
      exact .refl _
  | cons a as ih =>
      intro c c' h
      simp only [execWhile] at h
      split at h
      · rename_i ha
        obtain ⟨c₁, hs, hr⟩ := Option.bind_eq_some_iff.mp h
        exact ((Run.refl c).tail (hG c a ha) hs).trans (ih hr)
      · cases h

variable (V) in
/-- A run that is found by evaluation, without its last configuration written out. -/
theorem exists_run_of_execWhile (allowed : Conf S P → Action P E → Bool) (c : Conf S P)
    (as : List (Action P E)) (Q : Conf S P → Bool) (hG : ∀ c a, allowed c a = true → G c a)
    (h : (V.execWhile allowed c as).any Q = true) : ∃ c', V.Run G c c' ∧ Q c' = true := by
  cases he : V.execWhile allowed c as with
  | none => simp [he] at h
  | some c' => exact ⟨c', run_of_execWhile hG he, by simpa [he] using h⟩

variable (V) in
theorem exists_reach_of_exec (c : Conf S P) (as : List (Action P E)) (Q : Conf S P → Bool)
    (h : (V.exec c as).any Q = true) : ∃ c', V.Reach c c' ∧ Q c' = true :=
  V.exists_run_of_execWhile _ c as Q (fun _ _ _ => trivial) h

theorem reach_of_exec {as : List (Action P E)} {c c' : Conf S P} (h : V.exec c as = some c') :
    V.Reach c c' :=
  run_of_execWhile (fun _ _ _ => trivial) h

/-- What a step can do, in full. -/
theorem next_cases {c c' : Conf S P} {a : Action P E} (h : V.next c a = some c') :
    (∃ p, a = .start p ∧ V.opens p = true ∧ c' = { c with pool := c.pool ++ [p] })
      ∨ (∃ i p s' p', a = .turn i ∧ c.pool[i]? = some p ∧ V.step p c.store = some (s', p')
        ∧ c' = ⟨s', c.pool.set i p'⟩)
      ∨ (∃ e s', a = .env e ∧ V.env e c.store = some s' ∧ c' = { c with store := s' }) := by
  cases a with
  | start p =>
      simp only [next] at h
      split at h
      · rename_i hp
        exact .inl ⟨p, rfl, hp, (Option.some.inj h).symm⟩
      · cases h
  | turn i =>
      simp only [next] at h
      cases hp : c.pool[i]? with
      | none => simp [hp] at h
      | some p =>
          simp only [hp] at h
          obtain ⟨⟨s', p'⟩, hs, rfl⟩ := Option.map_eq_some_iff.mp h
          exact .inr (.inl ⟨i, p, s', p', rfl, hp, hs, rfl⟩)
  | env e =>
      obtain ⟨s', hs, rfl⟩ := Option.map_eq_some_iff.mp h
      exact .inr (.inr ⟨e, s', rfl, hs, rfl⟩)

variable (V G) in
/-- An invariant, kind of step by kind of step. -/
structure Preserves (I : Conf S P → Prop) : Prop where
  start : ∀ c p, I c → G c (.start p) → V.opens p = true →
    I { c with pool := c.pool ++ [p] }
  turn : ∀ c i p s' p', I c → G c (.turn i) → c.pool[i]? = some p →
    V.step p c.store = some (s', p') → I ⟨s', c.pool.set i p'⟩
  env : ∀ c e s', I c → G c (.env e) → V.env e c.store = some s' → I { c with store := s' }

theorem Preserves.next {I : Conf S P → Prop} (hI : V.Preserves G I) {c c' : Conf S P}
    {a : Action P E} (hc : I c) (hg : G c a) (h : V.next c a = some c') : I c' := by
  rcases next_cases h with ⟨p, rfl, hp, rfl⟩ | ⟨i, p, s', p', rfl, hp, hs, rfl⟩ |
    ⟨e, s', rfl, hs, rfl⟩
  · exact hI.start c p hc hg hp
  · exact hI.turn c i p s' p' hc hg hp hs
  · exact hI.env c e s' hc hg hs

/-- A preserved property that holds at the start holds throughout every run. -/
theorem Run.invariant {I : Conf S P → Prop} (hI : V.Preserves G I) {c c' : Conf S P}
    (h : V.Run G c c') (hc : I c) : I c' := by
  induction h with
  | refl => exact hc
  | tail _ hg hs ih => exact hI.next ih hg hs

/-! ### Logs -/

variable {L : Type}

variable (V) in
/-- The same server, whose store also carries a log of the commands executed. -/
def recording (R : P → S → L → L) : Server (S × L) P E where
  opens := V.opens
  step p s := (V.step p s.1).map fun r => ((r.1, R p s.1 s.2), r.2)
  env e s := (V.env e s.1).map fun s' => (s', s.2)

theorem recording_step {R : P → S → L → L} {p p' : P} {s s' : S × L}
    (h : (V.recording R).step p s = some (s', p')) :
    V.step p s.1 = some (s'.1, p') ∧ s'.2 = R p s.1 s.2 := by
  obtain ⟨⟨t, q⟩, ht, heq⟩ := Option.map_eq_some_iff.mp h
  obtain ⟨rfl, rfl⟩ := Prod.mk.inj heq
  exact ⟨ht, rfl⟩

theorem recording_env {R : P → S → L → L} {e : E} {s s' : S × L}
    (h : (V.recording R).env e s = some s') : V.env e s.1 = some s'.1 ∧ s'.2 = s.2 := by
  obtain ⟨t, ht, rfl⟩ := Option.map_eq_some_iff.mp h
  exact ⟨ht, rfl⟩

variable (V) in
/-- The same, with the moves of the surroundings in the log too. -/
def tracking (R : P → S → L → L) (F : E → S → L → L) : Server (S × L) P E where
  opens := V.opens
  step := (V.recording R).step
  env e s := (V.env e s.1).map fun s' => (s', F e s.1 s.2)

theorem tracking_env {R : P → S → L → L} {F : E → S → L → L} {e : E} {s s' : S × L}
    (h : (V.tracking R F).env e s = some s') : V.env e s.1 = some s'.1 ∧ s'.2 = F e s.1 s.2 := by
  obtain ⟨t, ht, rfl⟩ := Option.map_eq_some_iff.mp h
  exact ⟨ht, rfl⟩

end Server

/-! ## Counting requests -/

section Pool

variable {l : List P} {i : Nat} {p p' : P}

/-- One command moves one request. -/
theorem countP_turn (f : P → Bool) (h : l[i]? = some p) (p' : P) :
    (l.set i p').countP f + (f p).toNat = l.countP f + (f p').toNat := by
  obtain ⟨hi, rfl⟩ := List.getElem?_eq_some_iff.mp h
  have hle : f l[i] = true → 0 < l.countP f :=
    fun hf => List.countP_pos_iff.mpr ⟨l[i], List.getElem_mem hi, hf⟩
  rw [List.countP_set hi]
  generalize l.countP f = n at hle
  cases h₁ : f l[i] with
  | false => cases f p' <;> simp
  | true =>
      have := hle h₁
      cases f p' <;> simp <;> omega

/-- A weighted count. -/
theorem sum_turn (f : P → Nat) (h : l[i]? = some p) (p' : P) :
    ((l.set i p').map f).sum + f p = (l.map f).sum + f p' := by
  induction l generalizing i with
  | nil => cases h
  | cons q l ih =>
      cases i with
      | zero =>
          obtain rfl := Option.some.inj h
          simp only [List.set_cons_zero, List.map_cons, List.sum_cons]
          omega
      | succ i =>
          have hrest := ih h
          simp only [List.set_cons_succ, List.map_cons, List.sum_cons]
          omega

theorem countP_turn_le {f : P → Bool} (h : l[i]? = some p) (hf : f p' = true → f p = true) :
    (l.set i p').countP f ≤ l.countP f := by
  have hc := countP_turn f h p'
  cases h' : f p' with
  | false =>
      rw [h'] at hc
      simp only [Bool.toNat_false] at hc
      omega
  | true =>
      rw [h', hf h'] at hc
      omega

theorem countP_turn_eq (f : P → Bool) (h : l[i]? = some p) (p' : P) (hf : f p' = f p) :
    (l.set i p').countP f = l.countP f := by
  have hc := countP_turn f h p'
  rw [hf] at hc
  omega

@[simp] theorem countP_start (f : P → Bool) (l : List P) (p : P) :
    (l ++ [p]).countP f = l.countP f + (f p).toNat := by
  cases h : f p <;> simp [h]

theorem countP_pos_of (f : P → Bool) (h : l[i]? = some p) (hf : f p = true) :
    0 < l.countP f :=
  List.countP_pos_iff.mpr ⟨p, List.mem_of_getElem? h, hf⟩

theorem countP_mono_of {f g : P → Bool} (h : ∀ q, f q = true → g q = true) (l : List P) :
    l.countP f ≤ l.countP g :=
  List.countP_mono_left fun q _ => h q

theorem countP_le_add {f g h : P → Bool} (hf : ∀ q, f q = true → g q = true ∨ h q = true)
    (l : List P) : l.countP f ≤ l.countP g + l.countP h := by
  induction l with
  | nil => exact Nat.le_refl _
  | cons q l ih =>
      simp only [List.countP_cons]
      by_cases hq : f q = true
      · rcases hf q hq with hg | hh
        · simp only [hq, hg, if_true]
          omega
        · simp only [hq, hh, if_true]
          omega
      · rw [if_neg hq]
        omega

/-- What the requests hold together, when one of them moves. -/
theorem flatMap_turn {α : Type} (f : P → List α) (h : l[i]? = some p) (p' : P) :
    ((l.set i p').flatMap f ++ f p).Perm (l.flatMap f ++ f p') := by
  induction l generalizing i with
  | nil => cases h
  | cons q l ih =>
      cases i with
      | zero =>
          obtain rfl := Option.some.inj h
          simp only [List.set_cons_zero, List.flatMap_cons, List.append_assoc]
          exact (List.perm_append_comm_assoc ..).trans
            ((List.perm_append_comm.append_left _).trans (List.perm_append_comm_assoc ..))
      | succ i =>
          simp only [List.set_cons_succ, List.flatMap_cons, List.append_assoc]
          exact (ih (by simpa using h)).append_left _

/-! ### One holder -/

/-- At most one request holds anything. -/
def Alone {α : Type} (f : P → List α) (l : List P) : Prop :=
  ∀ (i j : Nat) (p q : P), l[i]? = some p → l[j]? = some q → f p ≠ [] → f q ≠ [] → i = j

section Alone

variable {α : Type} {f : P → List α}

theorem flatMap_others (h : l[i]? = some p)
    (ho : ∀ (j : Nat) (q : P), j ≠ i → l[j]? = some q → f q = [])
    (p' : P) : (l.set i p').flatMap f = f p' := by
  induction l generalizing i with
  | nil => cases h
  | cons q l ih =>
      cases i with
      | zero =>
          have hl : l.flatMap f = [] := List.flatMap_eq_nil_iff.mpr fun x hx => by
            obtain ⟨j, hj⟩ := List.mem_iff_getElem?.mp hx
            exact ho (j + 1) x (Nat.succ_ne_zero j) (by simpa using hj)
          rw [List.set_cons_zero, List.flatMap_cons, hl, List.append_nil]
      | succ i =>
          have hq : f q = [] := ho 0 q (Nat.succ_ne_zero i).symm rfl
          rw [List.set_cons_succ, List.flatMap_cons, hq, List.nil_append]
          exact ih (by simpa using h) fun j x hj hx => ho (j + 1) x (by omega) (by simpa using hx)

theorem flatMap_turn_nil (h : l[i]? = some p) (hp : f p = []) (hp' : f p' = []) :
    (l.set i p').flatMap f = l.flatMap f := by
  induction l generalizing i with
  | nil => rfl
  | cons q l ih =>
      cases i with
      | zero =>
          obtain rfl := Option.some.inj h
          rw [List.set_cons_zero, List.flatMap_cons, List.flatMap_cons, hp, hp']
      | succ i =>
          rw [List.set_cons_succ, List.flatMap_cons, List.flatMap_cons, ih (by simpa using h)]

theorem Alone.others (ha : Alone f l) (h : l[i]? = some p) (hp : f p ≠ [] ∨ l.flatMap f = []) :
    ∀ (j : Nat) (q : P), j ≠ i → l[j]? = some q → f q = [] := by
  intro j q hj hq
  by_contra hne
  rcases hp with hp | hp
  · exact hj (ha j i q p hq h hne hp)
  · exact hne (List.flatMap_eq_nil_iff.mp hp q (List.mem_of_getElem? hq))

/-- What is held, if one of the requests is the holder. -/
theorem Alone.flatMap_eq (ha : Alone f l) (h : l[i]? = some p) (hp : f p ≠ []) :
    l.flatMap f = f p := by
  obtain ⟨hi, rfl⟩ := List.getElem?_eq_some_iff.mp h
  have hset := flatMap_others h (ha.others h (.inl hp)) l[i]
  rwa [List.set_getElem_self] at hset

theorem Alone.start (ha : Alone f l) (hp : f p = []) : Alone f (l ++ [p]) := by
  have hold : ∀ (i : Nat) (q : P), (l ++ [p])[i]? = some q → f q ≠ [] → l[i]? = some q := by
    intro i q hq hne
    by_cases hi : i < l.length
    · rwa [List.getElem?_append_left hi] at hq
    · rw [List.getElem?_append_right (Nat.not_lt.mp hi)] at hq
      obtain rfl := List.mem_singleton.mp (List.mem_of_getElem? hq)
      exact absurd hp hne
  intro i j q q' hq hq' hne hne'
  exact ha i j q q' (hold i q hq hne) (hold j q' hq' hne') hne hne'

/-- Only the holder, or a request where there is none, may hold something next. -/
theorem Alone.turn (ha : Alone f l) (h : l[i]? = some p)
    (hp : f p' ≠ [] → f p ≠ [] ∨ l.flatMap f = []) : Alone f (l.set i p') := by
  have hold : ∀ (j : Nat) (q : P), (l.set i p')[j]? = some q → j ≠ i → l[j]? = some q := by
    intro j q hq hj
    rwa [List.getElem?_set_ne (Ne.symm hj)] at hq
  have hthis : ∀ q, (l.set i p')[i]? = some q → q = p' := by
    intro q hq
    obtain ⟨hi, -⟩ := List.getElem?_eq_some_iff.mp h
    rw [List.getElem?_set_self hi] at hq
    exact (Option.some.inj hq).symm
  intro j k q q' hq hq' hne hne'
  by_cases hj : j = i
  · subst hj
    by_contra hk
    obtain rfl := hthis q hq
    exact hne' (ha.others h (hp hne) k q' (Ne.symm hk) (hold k q' hq' (Ne.symm hk)))
  · by_cases hk : k = i
    · subst hk
      obtain rfl := hthis q' hq'
      exact absurd (ha.others h (hp hne') j q hj (hold j q hq hj)) hne
    · exact ha j k q q' (hold j q hq hj) (hold k q' hq' hk) hne hne'

end Alone

/-- At most one request at a place: two there are the same. -/
theorem eq_of_countP_le_one {f : P → Bool} {q q' : P} (h : l.countP f ≤ 1) (hq : q ∈ l)
    (hq' : q' ∈ l) (hf : f q = true) (hf' : f q' = true) : q = q' := by
  induction l with
  | nil => cases hq
  | cons r l ih =>
      have hpos : ∀ x ∈ l, f x = true → 0 < l.countP f :=
        fun x hx hfx => List.countP_pos_iff.mpr ⟨x, hx, hfx⟩
      rw [List.countP_cons] at h
      rcases List.mem_cons.mp hq with rfl | hql
      · rcases List.mem_cons.mp hq' with rfl | hql'
        · rfl
        · have := hpos _ hql' hf'
          rw [if_pos hf] at h
          omega
      · rcases List.mem_cons.mp hq' with rfl | hql'
        · have := hpos _ hql hf
          rw [if_pos hf'] at h
          omega
        · exact ih (by omega) hql hql'

/-- A request with a property, kept by the one that took a step, is still there. -/
theorem exists_turn {Q : P → Prop} (h : l[i]? = some p) (hp : Q p → Q p') :
    (∃ q ∈ l, Q q) → ∃ q ∈ l.set i p', Q q := by
  rintro ⟨q, hq, hQ⟩
  obtain ⟨hi, rfl⟩ := List.getElem?_eq_some_iff.mp h
  obtain ⟨j, hj, rfl⟩ := List.mem_iff_getElem.mp hq
  by_cases hij : i = j
  · subst hij
    exact ⟨p', List.mem_set hi p', hp hQ⟩
  · exact ⟨l[j], List.mem_iff_getElem.mpr ⟨j, by simpa using hj, by simp [hij]⟩, hQ⟩

/-- A request with a property after a step was there before, if the one that
took the step does not gain it. -/
theorem exists_of_turn {Q : P → Prop} (h : l[i]? = some p) (hp : Q p' → Q p) :
    (∃ q ∈ l.set i p', Q q) → ∃ q ∈ l, Q q := by
  rintro ⟨q, hq, hQ⟩
  rcases List.mem_or_eq_of_mem_set hq with hq | rfl
  · exact ⟨q, hq, hQ⟩
  · exact ⟨p, List.mem_of_getElem? h, hp hQ⟩

/-- What holds of every request still does after one of them took a step. -/
theorem forall_turn {Q : P → Prop} (h : ∀ q ∈ l, Q q) (hp : Q p') : ∀ q ∈ l.set i p', Q q := by
  intro q hq
  rcases List.mem_or_eq_of_mem_set hq with hq | rfl
  · exact h q hq
  · exact hp

theorem forall_start {Q : P → Prop} (h : ∀ q ∈ l, Q q) (hp : Q p) : ∀ q ∈ l ++ [p], Q q := by
  intro q hq
  rcases List.mem_append.mp hq with hq | hq
  · exact h q hq
  · obtain rfl := List.mem_singleton.mp hq
    exact hp

end Pool

end Interleave

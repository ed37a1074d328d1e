import BurnedChats.Lib.Interleave

/-!
# Programs of atomic commands

A request to a server is a program: it reads the store, executes commands, and
chooses what to do next by what it has read. Every read and every command is
one atomic step; between two of them the store may be changed by others. An
executed command's reply is a function of the store the command found, so `exec`
hands that store to what follows.

`run` executes a program alone, `step` its next read or command, and `server`
interleaves any number of them. What can be said of a program whatever the
others do is said by recursion on it: `Ensures` about the commands it may come to
and about its result, `Owes` about a command it cannot end without, `Follows`
about what is owed after a command.
-/

inductive Program (S C α : Type) where
  | done (a : α)
  | fail (error : String)
  | read (next : S → Program S C α)
  | exec (command : C) (next : S → Program S C α)

namespace Program

variable {S C α β : Type}

def bind : Program S C α → (α → Program S C β) → Program S C β
  | .done a, f => f a
  | .fail error, _ => .fail error
  | .read next, f => .read fun s => (next s).bind f
  | .exec command next, f => .exec command fun s => (next s).bind f

instance : Monad (Program S C) where
  pure := .done
  bind := bind

/-- One read. -/
def ask (f : S → α) : Program S C α := .read fun s => .done (f s)

/-- A command, its reply unused. -/
def write (command : C) : Program S C Unit := .exec command fun _ => .done ()

/-- A command and its reply. -/
def call (command : C) (reply : S → α) : Program S C α := .exec command fun s => .done (reply s)

def demand (condition : Bool) (error : String) : Program S C Unit :=
  if condition then .done () else .fail error

def found (value : Option α) (error : String) : Program S C α :=
  match value with
  | some a => .done a
  | none => .fail error

/-- The programs of the elements, one after the other. -/
def forEach (l : List β) (f : β → Program S C Unit) : Program S C Unit :=
  match l with
  | [] => .done ()
  | x :: l => f x >>= fun _ => forEach l f

/-- Errors are swallowed. -/
def attempt : Program S C Unit → Program S C Unit
  | .done () => .done ()
  | .fail _ => .done ()
  | .read next => .read fun s => (next s).attempt
  | .exec command next => .exec command fun s => (next s).attempt

@[simp] theorem pure_eq (a : α) : (pure a : Program S C α) = .done a := rfl

@[simp] theorem done_bind (a : α) (f : α → Program S C β) : (.done a >>= f) = f a := rfl

@[simp] theorem fail_bind (error : String) (f : α → Program S C β) :
    ((.fail error : Program S C α) >>= f) = .fail error := rfl

@[simp] theorem read_bind (next : S → Program S C α) (f : α → Program S C β) :
    (.read next >>= f) = .read fun s => next s >>= f := rfl

@[simp] theorem exec_bind (c : C) (next : S → Program S C α) (f : α → Program S C β) :
    (.exec c next >>= f) = .exec c fun s => next s >>= f := rfl

@[simp] theorem ask_bind (r : S → α) (f : α → Program S C β) :
    (ask r >>= f) = .read fun s => f (r s) := rfl

@[simp] theorem write_bind (c : C) (f : Unit → Program S C β) :
    (write c >>= f) = .exec c fun _ => f () := rfl

@[simp] theorem call_bind (c : C) (r : S → α) (f : α → Program S C β) :
    (call c r >>= f) = .exec c fun s => f (r s) := rfl

/-! ## A program alone -/

variable (apply : C → S → S)

/-- The program executed with nothing else going on. -/
def run : Program S C α → S → S × Except String α
  | .done a, s => (s, .ok a)
  | .fail error, s => (s, .error error)
  | .read next, s => (next s).run s
  | .exec c next, s => (next s).run (apply c s)

/-- The next read or command. -/
def step : Program S C α → S → Option (S × Program S C α)
  | .done _, _ => none
  | .fail _, _ => none
  | .read next, s => some (s, next s)
  | .exec c next, s => some (apply c s, next s)

def isOver : Program S C α → Bool
  | .done _ => true
  | .fail _ => true
  | _ => false

variable {apply}

theorem step_cases {p p' : Program S C α} {s s' : S} (h : p.step apply s = some (s', p')) :
    (∃ next, p = .read next ∧ s' = s ∧ p' = next s)
      ∨ (∃ c next, p = .exec c next ∧ s' = apply c s ∧ p' = next s) := by
  cases p with
  | done a => cases h
  | fail error => cases h
  | read next =>
      obtain ⟨rfl, rfl⟩ := Prod.mk.inj (Option.some.inj h)
      exact .inl ⟨next, rfl, rfl, rfl⟩
  | exec c next =>
      obtain ⟨rfl, rfl⟩ := Prod.mk.inj (Option.some.inj h)
      exact .inr ⟨c, next, rfl, rfl, rfl⟩

/-! ## What a program does, whatever the others do -/

/-- If every store the program sees has `I`, it executes only commands with `φ`,
and its result has `Q`. -/
def Ensures (I : S → Prop) (φ : C → Prop) (Q : α → Prop) : Program S C α → Prop
  | .done a => Q a
  | .fail _ => True
  | .read next => ∀ s, I s → (next s).Ensures I φ Q
  | .exec c next => φ c ∧ ∀ s, I s → (next s).Ensures I φ Q

/-- Every command the program may come to has `φ`. -/
abbrev All (φ : C → Prop) (p : Program S C α) : Prop :=
  p.Ensures (fun _ => True) φ fun _ => True

section Ensures

variable {I : S → Prop} {φ ψ : C → Prop} {Q : α → Prop} {P : β → Prop}

@[simp] theorem ensures_done (a : α) :
    (Program.done a : Program S C α).Ensures I φ Q ↔ Q a := Iff.rfl

@[simp] theorem ensures_fail (error : String) :
    (Program.fail error : Program S C α).Ensures I φ Q := trivial

@[simp] theorem ensures_read (next : S → Program S C α) :
    (Program.read next).Ensures I φ Q ↔ ∀ s, I s → (next s).Ensures I φ Q := Iff.rfl

@[simp] theorem ensures_exec (c : C) (next : S → Program S C α) :
    (Program.exec c next).Ensures I φ Q ↔ φ c ∧ ∀ s, I s → (next s).Ensures I φ Q := Iff.rfl

@[simp] theorem ensures_bind (p : Program S C β) (f : β → Program S C α) :
    (p >>= f).Ensures I φ Q ↔ p.Ensures I φ fun b => (f b).Ensures I φ Q := by
  induction p with
  | done a => exact Iff.rfl
  | fail error => exact Iff.rfl
  | read next ih => exact forall_congr' fun s => imp_congr_right fun _ => ih s
  | exec c next ih =>
      exact and_congr_right fun _ => forall_congr' fun s => imp_congr_right fun _ => ih s

@[simp] theorem ensures_ask (r : S → α) :
    (ask r : Program S C α).Ensures I φ Q ↔ ∀ s, I s → Q (r s) := Iff.rfl

@[simp] theorem ensures_write (c : C) {Q : Unit → Prop} :
    (write c : Program S C Unit).Ensures I φ Q ↔ φ c ∧ ∀ s, I s → Q () := Iff.rfl

@[simp] theorem ensures_call (c : C) (r : S → α) :
    (call c r).Ensures I φ Q ↔ φ c ∧ ∀ s, I s → Q (r s) := Iff.rfl

@[simp] theorem ensures_demand (b : Bool) (error : String) {Q : Unit → Prop} :
    (demand b error : Program S C Unit).Ensures I φ Q ↔ (b = true → Q ()) := by
  cases b <;> simp [demand]

@[simp] theorem ensures_found (v : Option α) (error : String) :
    (found v error : Program S C α).Ensures I φ Q ↔ ∀ a, v = some a → Q a := by
  cases v <;> simp [found]

@[simp] theorem ensures_ite {c : Prop} [Decidable c] (p q : Program S C α) :
    (if c then p else q).Ensures I φ Q
      ↔ (c → p.Ensures I φ Q) ∧ (¬c → q.Ensures I φ Q) := by
  split <;> simp [*]

theorem Ensures.mono {I' : S → Prop} {Q' : α → Prop} {p : Program S C α}
    (h : p.Ensures I φ Q) (hI : ∀ s, I' s → I s) (hφ : ∀ c, φ c → ψ c) (hQ : ∀ a, Q a → Q' a) :
    p.Ensures I' ψ Q' := by
  induction p with
  | done a => exact hQ a h
  | fail error => trivial
  | read next ih => exact fun s hs => ih s (h s (hI s hs))
  | exec c next ih => exact ⟨hφ c h.1, fun s hs => ih s (h.2 s (hI s hs))⟩

theorem Ensures.bind {R : β → Prop} {p : Program S C β} {f : β → Program S C α}
    (h : p.Ensures I φ R) (hf : ∀ b, R b → (f b).Ensures I φ Q) : (p >>= f).Ensures I φ Q :=
  (ensures_bind p f).mpr (h.mono (fun _ h => h) (fun _ h => h) hf)

theorem ensures_true (p : Program S C α) : p.Ensures I (fun _ => True) fun _ => True := by
  induction p with
  | done a => trivial
  | fail error => trivial
  | read next ih => exact fun s _ => ih s
  | exec c next ih => exact ⟨trivial, fun s _ => ih s⟩

/-- What holds of every command needs no promise about the store. -/
theorem Ensures.of_all {p : Program S C α} (h : p.All φ) (hQ : ∀ a, Q a) : p.Ensures I φ Q :=
  h.mono (fun _ _ => trivial) (fun _ h => h) fun a _ => hQ a

theorem Ensures.step {p p' : Program S C α} {s s' : S} (h : p.Ensures I φ Q) (hI : I s)
    (hs : p.step apply s = some (s', p')) : p'.Ensures I φ Q := by
  rcases step_cases hs with ⟨next, rfl, -, rfl⟩ | ⟨c, next, rfl, -, rfl⟩
  · exact h s hI
  · exact h.2 s hI

theorem ensures_attempt {p : Program S C Unit} {Q : Unit → Prop} (h : p.All φ) (hQ : Q ()) :
    p.attempt.Ensures (fun _ => True) φ Q := by
  induction p with
  | done a => exact hQ
  | fail error => exact hQ
  | read next ih => exact fun s hs => ih s (h s hs)
  | exec c next ih => exact ⟨h.1, fun s hs => ih s (h.2 s hs)⟩

theorem ensures_forEach {l : List β} {f : β → Program S C Unit} {Q : Unit → Prop}
    (h : ∀ x ∈ l, (f x).Ensures I φ fun _ => True) (hQ : Q ()) :
    (forEach l f).Ensures I φ Q := by
  induction l with
  | nil => exact hQ
  | cons x l ih =>
      refine (ensures_bind ..).mpr ((h x List.mem_cons_self).mono (fun _ h => h)
        (fun _ h => h) fun _ _ => ?_)
      exact ih fun y hy => h y (List.mem_cons_of_mem x hy)

end Ensures

/-! ## Before and after a program alone -/

section Wp

variable (apply)

/-- What must hold before, so that the program on its own ends with `Q`, or with
`E` where it fails. -/
def wp (Q : α → S → Prop) (E : S → Prop) : Program S C α → S → Prop
  | .done a, s => Q a s
  | .fail _, s => E s
  | .read next, s => (next s).wp Q E s
  | .exec c next, s => (next s).wp Q E (apply c s)

variable {apply} {Q Q' : α → S → Prop} {E E' I : S → Prop} {s : S}

@[simp] theorem wp_done (a : α) : (Program.done a : Program S C α).wp apply Q E s ↔ Q a s :=
  Iff.rfl

@[simp] theorem wp_fail (error : String) :
    (Program.fail error : Program S C α).wp apply Q E s ↔ E s := Iff.rfl

@[simp] theorem wp_read (next : S → Program S C α) :
    (Program.read next).wp apply Q E s ↔ (next s).wp apply Q E s := Iff.rfl

@[simp] theorem wp_exec (c : C) (next : S → Program S C α) :
    (Program.exec c next).wp apply Q E s ↔ (next s).wp apply Q E (apply c s) := Iff.rfl

@[simp] theorem wp_bind (p : Program S C β) (f : β → Program S C α) :
    (p >>= f).wp apply Q E s ↔ p.wp apply (fun b => (f b).wp apply Q E) E s := by
  induction p generalizing s with
  | done a => exact Iff.rfl
  | fail error => exact Iff.rfl
  | read next ih => exact ih s
  | exec c next ih => exact ih s

@[simp] theorem wp_ask (r : S → α) :
    (ask r : Program S C α).wp apply Q E s ↔ Q (r s) s := Iff.rfl

@[simp] theorem wp_write (c : C) {Q : Unit → S → Prop} :
    (write c : Program S C Unit).wp apply Q E s ↔ Q () (apply c s) := Iff.rfl

@[simp] theorem wp_call (c : C) (r : S → α) :
    (call c r).wp apply Q E s ↔ Q (r s) (apply c s) := Iff.rfl

@[simp] theorem wp_demand (b : Bool) (error : String) {Q : Unit → S → Prop} :
    (demand b error : Program S C Unit).wp apply Q E s
      ↔ (b = true → Q () s) ∧ (b = false → E s) := by
  cases b <;> simp [demand]

@[simp] theorem wp_found (v : Option α) (error : String) :
    (found v error : Program S C α).wp apply Q E s
      ↔ (∀ a, v = some a → Q a s) ∧ (v = none → E s) := by
  cases v <;> simp [found]

@[simp] theorem wp_ite {c : Prop} [Decidable c] (p q : Program S C α) :
    (if c then p else q).wp apply Q E s ↔ (c → p.wp apply Q E s) ∧ (¬c → q.wp apply Q E s) := by
  split <;> simp [*]

theorem wp_mono {p : Program S C α} (h : p.wp apply Q E s) (hQ : ∀ a s, Q a s → Q' a s)
    (hE : ∀ s, E s → E' s) : p.wp apply Q' E' s := by
  induction p generalizing s with
  | done a => exact hQ a s h
  | fail error => exact hE s h
  | read next ih => exact ih s h
  | exec c next ih => exact ih s h

theorem wp_step {p p' : Program S C α} {s' : S} (h : p.wp apply Q E s)
    (hs : p.step apply s = some (s', p')) : p'.wp apply Q E s' := by
  rcases step_cases hs with ⟨next, rfl, rfl, rfl⟩ | ⟨c, next, rfl, rfl, rfl⟩
  · exact h
  · exact h

theorem wp_of_isOver {p : Program S C α} (h : p.wp apply (fun _ => I) I s)
    (hp : p.isOver = true) : I s := by
  cases p with
  | done a => exact h
  | fail error => exact h
  | read next => cases hp
  | exec c next => cases hp

theorem wp_seq {p : Program S C β} {f : β → Program S C α} {R : β → S → Prop}
    (h : p.wp apply R E s) (hf : ∀ b s, R b s → (f b).wp apply Q E s) :
    (p >>= f).wp apply Q E s :=
  (wp_bind p f).mpr (wp_mono h hf fun _ h => h)

theorem wp_and {p : Program S C α} (h : p.wp apply Q E s) (h' : p.wp apply Q' E' s) :
    p.wp apply (fun a s => Q a s ∧ Q' a s) (fun s => E s ∧ E' s) s := by
  induction p generalizing s with
  | done a => exact ⟨h, h'⟩
  | fail error => exact ⟨h, h'⟩
  | read next ih => exact ih s h h'
  | exec c next ih => exact ih s h h'

theorem wp_forall {ι : Type} {p : Program S C α} {Q : ι → α → S → Prop}
    {E : ι → S → Prop} (h : ∀ i, p.wp apply (Q i) (E i) s) :
    p.wp apply (fun a s => ∀ i, Q i a s) (fun s => ∀ i, E i s) s := by
  induction p generalizing s with
  | done a => exact h
  | fail error => exact h
  | read next ih => exact ih s h
  | exec c next ih => exact ih s h

/-- What its commands keep, the program keeps, and may rely on in choosing them. -/
theorem wp_of_ensures {φ : C → Prop} {R : α → Prop} {p : Program S C α} (h : p.Ensures I φ R)
    (hI : ∀ c s, φ c → I s → I (apply c s)) (hs : I s) :
    p.wp apply (fun a s => R a ∧ I s) I s := by
  induction p generalizing s with
  | done a => exact ⟨h, hs⟩
  | fail error => exact hs
  | read next ih => exact ih s (h s hs) hs
  | exec c next ih => exact ih s (h.2 s hs) (hI c s h.1 hs)

/-- What every command of the program keeps, it keeps. -/
theorem wp_of_all {φ : C → Prop} {p : Program S C α} (h : p.All φ)
    (hI : ∀ c s, φ c → I s → I (apply c s)) (hs : I s) :
    p.wp apply (fun _ => I) I s :=
  wp_mono (wp_of_ensures (h.mono (fun _ _ => trivial) (fun _ h => h) fun _ h => h) hI hs)
    (fun _ _ h => h.2) fun _ h => h

theorem wp_attempt {p : Program S C Unit} {Q : Unit → S → Prop}
    (h : p.wp apply Q (Q ()) s) : p.attempt.wp apply Q E s := by
  induction p generalizing s with
  | done a => exact h
  | fail error => exact h
  | read next ih => exact ih s h
  | exec c next ih => exact ih s h

theorem wp_forEach {l : List β} {f : β → Program S C Unit} {Q : Unit → S → Prop}
    (h : ∀ x ∈ l, ∀ s, I s → (f x).wp apply (fun _ => I) E s) (hs : I s)
    (hQ : ∀ s, I s → Q () s) : (forEach l f).wp apply Q E s := by
  induction l generalizing s with
  | nil => exact hQ s hs
  | cons x l ih =>
      refine (wp_bind ..).mpr (wp_mono (h x List.mem_cons_self s hs) (fun _ s hs => ?_)
        fun _ h => h)
      exact ih (fun y hy => h y (List.mem_cons_of_mem x hy)) hs

/-- A loop whose rounds each establish a fact about their own element. -/
theorem wp_forEach_each {P : β → S → Prop} {l : List β} {f : β → Program S C Unit}
    {Q : Unit → S → Prop}
    (h : ∀ x ∈ l, ∀ s, I s → (f x).wp apply
      (fun _ s' => I s' ∧ P x s' ∧ ∀ y, P y s → P y s') E s)
    (hs : I s) (hQ : ∀ s, I s → (∀ x ∈ l, P x s) → Q () s) : (forEach l f).wp apply Q E s := by
  induction l generalizing s I with
  | nil => exact hQ s hs fun _ hx => by cases hx
  | cons x l ih =>
      refine (wp_bind ..).mpr (wp_mono (h x List.mem_cons_self s hs) (fun _ s' hs' => ?_)
        fun _ h => h)
      -- what this round has established is part of the invariant of the others
      refine ih (I := fun t => I t ∧ P x t) (fun y hy t ht => ?_) ⟨hs'.1, hs'.2.1⟩
        fun t ht hl => hQ t ht.1 fun y hy => ?_
      · refine wp_mono (h y (List.mem_cons_of_mem x hy) t ht.1) (fun _ t' ht' => ?_) fun _ h => h
        exact ⟨⟨ht'.1, ht'.2.2 x ht.2⟩, ht'.2.1, ht'.2.2⟩
      · rcases List.mem_cons.mp hy with rfl | hy
        · exact ht.2
        · exact hl y hy

variable (apply I) in
/-- The program leaves `I` as it found it, whether it fails or not. -/
def Keeps (p : Program S C α) : Prop := ∀ s, I s → p.wp apply (fun _ => I) I s

theorem keeps_of_all {φ : C → Prop} {p : Program S C α} (h : p.All φ)
    (hI : ∀ c s, φ c → I s → I (apply c s)) : p.Keeps apply I := fun _ => wp_of_all h hI

theorem Keeps.bind {p : Program S C β} {f : β → Program S C α} (h : p.Keeps apply I)
    (hf : ∀ b, (f b).Keeps apply I) : (p >>= f).Keeps apply I :=
  fun s hs => wp_seq (h s hs) fun b t ht => hf b t ht

theorem keeps_fail (error : String) : (Program.fail error : Program S C α).Keeps apply I :=
  fun _ h => h

theorem keeps_done (a : α) : (Program.done a : Program S C α).Keeps apply I := fun _ h => h

theorem keeps_ask (r : S → α) : (ask r : Program S C α).Keeps apply I := fun _ h => h

theorem keeps_demand (b : Bool) (error : String) :
    (demand b error : Program S C Unit).Keeps apply I := fun _ h =>
  (wp_demand ..).mpr ⟨fun _ => h, fun _ => h⟩

theorem keeps_found (v : Option α) (error : String) :
    (found v error : Program S C α).Keeps apply I := fun _ h =>
  (wp_found ..).mpr ⟨fun _ _ => h, fun _ => h⟩

theorem Keeps.attempt {p : Program S C Unit} (h : p.Keeps apply I) : p.attempt.Keeps apply I :=
  fun s hs => wp_attempt (wp_mono (h s hs) (fun _ _ h => h) fun _ h => h)

theorem keeps_forEach {l : List β} {f : β → Program S C Unit}
    (h : ∀ x ∈ l, (f x).Keeps apply I) : (forEach l f).Keeps apply I :=
  fun _ hs => wp_forEach h hs fun _ h => h

variable (apply) in
theorem wp_iff_run (p : Program S C α) :
    p.wp apply Q E s ↔ (∀ a s', p.run apply s = (s', .ok a) → Q a s')
      ∧ ∀ error s', p.run apply s = (s', .error error) → E s' := by
  induction p generalizing s with
  | done a => simp [run]
  | fail error => simp [run]
  | read next ih => exact ih s
  | exec c next ih => exact ih s

/-- The program completes. -/
theorem isOk_run_iff (p : Program S C α) :
    (p.run apply s).2.isOk = true ↔ p.wp apply (fun _ _ => True) (fun _ => False) s := by
  rw [wp_iff_run]
  rcases p.run apply s with ⟨s', a | a⟩
  · simp [Except.isOk, Except.toBool]
  · simp [Except.isOk, Except.toBool]

theorem run_of_wp {p : Program S C α} (h : p.wp apply (fun _ => I) I s) :
    I (p.run apply s).1 := by
  have hrun := (wp_iff_run apply p).mp h
  rcases hres : p.run apply s with ⟨s', a | a⟩
  · exact hrun.2 a s' hres
  · exact hrun.1 a s' hres

end Wp

/-! ## What holds all the way -/

/-- The program, and whatever is left of it after stores with `I`, has `P`. -/
def Throughout (I : S → Prop) (P : Program S C α → Prop) : Program S C α → Prop
  | .done a => P (.done a)
  | .fail error => P (.fail error)
  | .read next => P (.read next) ∧ ∀ s, I s → (next s).Throughout I P
  | .exec c next => P (.exec c next) ∧ ∀ s, I s → (next s).Throughout I P

section Throughout

variable {I : S → Prop} {P P' : Program S C α → Prop} {p : Program S C α}

theorem Throughout.now (h : p.Throughout I P) : P p := by
  cases p with
  | done a => exact h
  | fail error => exact h
  | read next => exact h.1
  | exec c next => exact h.1

theorem Throughout.step {p' : Program S C α} {s s' : S} (h : p.Throughout I P) (hI : I s)
    (hs : p.step apply s = some (s', p')) : p'.Throughout I P := by
  rcases step_cases hs with ⟨next, rfl, -, rfl⟩ | ⟨c, next, rfl, -, rfl⟩
  · exact h.2 s hI
  · exact h.2 s hI

theorem Throughout.mono (h : p.Throughout I P) (hP : ∀ q, P q → P' q) : p.Throughout I P' := by
  induction p with
  | done a => exact hP _ h
  | fail error => exact hP _ h
  | read next ih => exact ⟨hP _ h.1, fun s hs => ih s (h.2 s hs)⟩
  | exec c next ih => exact ⟨hP _ h.1, fun s hs => ih s (h.2 s hs)⟩

theorem Ensures.throughout {φ : C → Prop} {Q : α → Prop} (h : p.Ensures I φ Q) :
    p.Throughout I fun q => q.Ensures I φ Q := by
  induction p with
  | done a => exact h
  | fail error => exact h
  | read next ih => exact ⟨h, fun s hs => ih s (h s hs)⟩
  | exec c next ih => exact ⟨h, fun s hs => ih s (h.2 s hs)⟩

end Throughout

/-! ## The first command -/

/-- The first command that the program comes to has `φ`. -/
def First (φ : C → Prop) : Program S C α → Prop
  | .done _ => True
  | .fail _ => True
  | .read next => ∀ s, (next s).First φ
  | .exec c _ => φ c

theorem First.bind {φ : C → Prop} {p : Program S C α} {f : α → Program S C β} (h : p.First φ)
    (hf : ∀ a, (f a).First φ) : (p >>= f).First φ := by
  induction p with
  | done a => exact hf a
  | fail error => trivial
  | read next ih => exact fun s => ih s (h s)
  | exec c next ih => exact h

/-! ## Check, then act -/

/-- Every command with `φ` comes right after a read that has found `I`. The
proposition says whether the last step was such a read. -/
def Checked (I : S → Prop) (φ : C → Prop) : Prop → Program S C α → Prop
  | _, .done _ => True
  | _, .fail _ => True
  | _, .read next => ∀ s, (next s).Checked I φ (I s)
  | checked, .exec c next => (φ c → checked) ∧ ∀ s, (next s).Checked I φ False

section Checked

variable {I : S → Prop} {φ : C → Prop} {b b' : Prop} {p : Program S C α}

theorem checked_of_all (h : p.All fun c => ¬ φ c) : p.Checked I φ b := by
  induction p generalizing b with
  | done a => trivial
  | fail error => trivial
  | read next ih => exact fun s => ih s (h s trivial)
  | exec c next ih => exact ⟨fun hc => absurd hc h.1, fun s => ih s (h.2 s trivial)⟩

/-- A check may be forgotten where no command depends on it. -/
theorem Checked.change (h : p.Checked I φ b) (hb : ∀ c next, p = .exec c next → φ c → b → b') :
    p.Checked I φ b' := by
  cases p with
  | done a => trivial
  | fail error => trivial
  | read next => exact h
  | exec c next => exact ⟨fun hc => hb c next rfl hc (h.1 hc), h.2⟩

end Checked

/-! ## Commands that are owed -/

/-- Whatever it reads, the program does not end before it has executed a command
with `ψ`. -/
def Owes (ψ : C → Prop) : Program S C α → Prop
  | .done _ => False
  | .fail _ => False
  | .read next => ∀ s, (next s).Owes ψ
  | .exec c next => ψ c ∨ ∀ s, (next s).Owes ψ

@[simp] theorem owes_exec {ψ : C → Prop} (c : C) (next : S → Program S C α) :
    (Program.exec c next).Owes ψ ↔ ψ c ∨ ∀ s, (next s).Owes ψ := Iff.rfl

theorem Owes.bind {ψ : C → Prop} {p : Program S C α} (h : p.Owes ψ) (f : α → Program S C β) :
    (p >>= f).Owes ψ := by
  induction p with
  | done a => cases h
  | fail error => cases h
  | read next ih => exact fun s => ih s (h s)
  | exec c next ih => exact h.imp id fun h s => ih s (h s)

/-- The next step executes what is owed, or it stays owed. -/
theorem Owes.step {ψ : C → Prop} {p p' : Program S C α} {s s' : S} (h : p.Owes ψ)
    (hs : p.step apply s = some (s', p')) :
    (∃ c next, p = .exec c next ∧ ψ c) ∨ p'.Owes ψ := by
  rcases step_cases hs with ⟨next, rfl, -, rfl⟩ | ⟨c, next, rfl, -, rfl⟩
  · exact .inr (h s)
  · exact h.imp (fun hc => ⟨c, next, rfl, hc⟩) fun h => h s

theorem Owes.not_isOver {ψ : C → Prop} {p : Program S C α} (h : p.Owes ψ) : p.isOver = false := by
  cases p with
  | done a => cases h
  | fail error => cases h
  | read next => rfl
  | exec c next => rfl

/-- What is owed is among the commands the program may come to. -/
theorem Owes.exists {φ ψ : C → Prop} {p : Program S C α} (h : p.Owes ψ) (hall : p.All φ) (s : S) :
    ∃ c, ψ c ∧ φ c := by
  induction p with
  | done a => cases h
  | fail error => cases h
  | read next ih => exact ih s (h s) (hall s trivial)
  | exec c next ih =>
      rcases h with h | h
      · exact ⟨c, h, hall.1⟩
      · exact ih s (h s) (hall.2 s trivial)

/-- The program has no result before it has executed a command with `ψ`; it may
fail. -/
def Needs (ψ : C → Prop) : Program S C α → Prop
  | .done _ => False
  | .fail _ => True
  | .read next => ∀ s, (next s).Needs ψ
  | .exec c next => ψ c ∨ ∀ s, (next s).Needs ψ

theorem Needs.bind {ψ : C → Prop} {p : Program S C α} (h : p.Needs ψ) (f : α → Program S C β) :
    (p >>= f).Needs ψ := by
  induction p with
  | done a => cases h
  | fail error => trivial
  | read next ih => exact fun s => ih s (h s)
  | exec c next ih => exact h.imp id fun h s => ih s (h s)

theorem needs_bind {ψ : C → Prop} (p : Program S C α) {f : α → Program S C β}
    (h : ∀ a, (f a).Needs ψ) : (p >>= f).Needs ψ := by
  induction p with
  | done a => exact h a
  | fail error => trivial
  | read next ih => exact fun s => ih s
  | exec c next ih => exact .inr fun s => ih s

theorem Needs.step {ψ : C → Prop} {p p' : Program S C α} {s s' : S} (h : p.Needs ψ)
    (hs : p.step apply s = some (s', p')) :
    (∃ c next, p = .exec c next ∧ ψ c) ∨ p'.Needs ψ := by
  rcases step_cases hs with ⟨next, rfl, -, rfl⟩ | ⟨c, next, rfl, -, rfl⟩
  · exact .inr (h s)
  · exact h.imp (fun hc => ⟨c, next, rfl, hc⟩) fun h => h s

theorem Owes.attempt {ψ : C → Prop} {p : Program S C Unit} (h : p.Owes ψ) :
    p.attempt.Owes ψ := by
  induction p with
  | done a => cases h
  | fail error => cases h
  | read next ih => exact fun s => ih s (h s)
  | exec c next ih => exact h.imp id fun h s => ih s (h s)

/-- The program cannot fail, whatever it reads. -/
def Total : Program S C α → Prop
  | .done _ => True
  | .fail _ => False
  | .read next => ∀ s, (next s).Total
  | .exec _ next => ∀ s, (next s).Total

theorem Total.bind {p : Program S C α} {f : α → Program S C β} (h : p.Total)
    (hf : ∀ a, (f a).Total) : (p >>= f).Total := by
  induction p with
  | done a => exact hf a
  | fail error => cases h
  | read next ih => exact fun s => ih s (h s)
  | exec c next ih => exact fun s => ih s (h s)

theorem total_forEach {l : List β} {f : β → Program S C Unit} (h : ∀ x ∈ l, (f x).Total) :
    (forEach l f).Total := by
  induction l with
  | nil => trivial
  | cons x l ih =>
      exact (h x List.mem_cons_self).bind fun _ => ih fun y hy => h y (List.mem_cons_of_mem x hy)

/-- What every command of a program without errors keeps, it keeps. -/
theorem Total.wp_of_all {apply : C → S → S} {φ : C → Prop} {I E : S → Prop} {p : Program S C α}
    {s : S} (ht : p.Total) (h : p.All φ) (hI : ∀ c s, φ c → I s → I (apply c s)) (hs : I s) :
    p.wp apply (fun _ => I) E s := by
  induction p generalizing s with
  | done a => exact hs
  | fail error => cases ht
  | read next ih => exact ih s (ht s) (h s trivial) hs
  | exec c next ih => exact ih s (ht s) (h.2 s trivial) (hI c s h.1 hs)

theorem owes_bind {ψ : C → Prop} {p : Program S C α} {f : α → Program S C β} (hp : p.Total)
    (h : ∀ a, (f a).Owes ψ) : (p >>= f).Owes ψ := by
  induction p with
  | done a => exact h a
  | fail error => cases hp
  | read next ih => exact fun s => ih s (hp s)
  | exec c next ih => exact .inr fun s => ih s (hp s)

/-- After each command with `φ` a command with `ψ` is owed. -/
def Follows (φ ψ : C → Prop) : Program S C α → Prop
  | .done _ => True
  | .fail _ => True
  | .read next => ∀ s, (next s).Follows φ ψ
  | .exec c next => ∀ s, (φ c → (next s).Owes ψ) ∧ (next s).Follows φ ψ

section Follows

variable {φ ψ : C → Prop}

@[simp] theorem follows_exec (c : C) (next : S → Program S C α) :
    (Program.exec c next).Follows φ ψ
      ↔ ∀ s, (φ c → (next s).Owes ψ) ∧ (next s).Follows φ ψ := Iff.rfl

theorem follows_of_all {p : Program S C α} (h : p.All fun c => ¬ φ c) : p.Follows φ ψ := by
  induction p with
  | done a => trivial
  | fail error => trivial
  | read next ih => exact fun s => ih s (h s trivial)
  | exec c next ih => exact fun s => ⟨fun hc => absurd hc h.1, ih s (h.2 s trivial)⟩

theorem Follows.bind {p : Program S C α} {f : α → Program S C β}
    (h : p.Follows φ ψ) (hf : ∀ a, (f a).Follows φ ψ) : (p >>= f).Follows φ ψ := by
  induction p with
  | done a => exact hf a
  | fail error => trivial
  | read next ih => exact fun s => ih s (h s)
  | exec c next ih => exact fun s => ⟨fun hc => ((h s).1 hc).bind f, ih s (h s).2⟩

theorem Follows.attempt {p : Program S C Unit} (h : p.Follows φ ψ) : p.attempt.Follows φ ψ := by
  induction p with
  | done a => trivial
  | fail error => trivial
  | read next ih => exact fun s => ih s (h s)
  | exec c next ih => exact fun s => ⟨fun hc => ((h s).1 hc).attempt, ih s (h s).2⟩

theorem follows_forEach {l : List β} {f : β → Program S C Unit}
    (h : ∀ x ∈ l, (f x).Follows φ ψ) : (forEach l f).Follows φ ψ := by
  induction l with
  | nil => trivial
  | cons x l ih =>
      exact (h x List.mem_cons_self).bind fun _ => ih fun y hy => h y (List.mem_cons_of_mem x hy)

/-- Whatever the first part does is followed by what the second one owes. -/
theorem follows_of_owes {p : Program S C α} {f : α → Program S C β} (hp : p.Total)
    (howes : ∀ a, (f a).Owes ψ) (hf : ∀ a, (f a).Follows φ ψ) : (p >>= f).Follows φ ψ := by
  induction p with
  | done a => exact hf a
  | fail error => cases hp
  | read next ih => exact fun s => ih s (hp s)
  | exec c next ih => exact fun s => ⟨fun _ => owes_bind (hp s) howes, ih s (hp s)⟩

theorem Follows.step {p p' : Program S C α} {s s' : S}
    (h : p.Follows φ ψ) (hs : p.step apply s = some (s', p')) : p'.Follows φ ψ := by
  rcases step_cases hs with ⟨next, rfl, -, rfl⟩ | ⟨c, next, rfl, -, rfl⟩
  · exact h s
  · exact (h s).2

end Follows

/-- What a command that the program cannot do without establishes, and all its
commands keep, holds when it is through. -/
theorem wp_of_needs {φ ψ : C → Prop} {I : S → Prop} {p : Program S C α} (h : p.Needs ψ)
    (hall : p.All φ) (hψ : ∀ c s, ψ c → I (apply c s))
    (hφ : ∀ c s, φ c → I s → I (apply c s)) (s : S) :
    p.wp apply (fun _ => I) (fun _ => True) s := by
  induction p generalizing s with
  | done a => cases h
  | fail error => trivial
  | read next ih => exact ih s (h s) (hall s trivial) s
  | exec c next ih =>
      rcases h with h | h
      · have hrest : (next s).wp apply (fun _ => I) I (apply c s) :=
          wp_of_all (hall.2 s trivial) hφ (hψ c s h)
        exact wp_mono hrest (fun _ _ h => h) fun _ _ => trivial
      · exact ih s (h s) (hall.2 s trivial) (apply c s)

/-! ## A program in a larger store -/

section Weave

variable {T D : Type} (view : T → S) (lift : C → D) (after : C → Option D)

/-- The program on a part of the store, its commands among others; after a command
comes what `after` adds. -/
def weave : Program S C α → Program T D α
  | .done a => .done a
  | .fail error => .fail error
  | .read next => .read fun t => weave (next (view t))
  | .exec c next => .exec (lift c) fun t =>
      match after c with
      | none => weave (next (view t))
      | some d => .exec d fun _ => weave (next (view t))

variable {view lift after}

theorem weave_all {φ : C → Prop} {φ' : D → Prop} {p : Program S C α} (h : p.All φ)
    (hlift : ∀ c, φ c → φ' (lift c)) (hafter : ∀ c, ∀ d ∈ after c, φ' d) :
    (p.weave view lift after).All φ' := by
  induction p with
  | done a => trivial
  | fail error => trivial
  | read next ih => exact fun t _ => ih _ (h _ trivial)
  | exec c next ih =>
      refine ⟨hlift c h.1, fun t _ => ?_⟩
      split
      · exact ih _ (h.2 _ trivial)
      · rename_i d hd
        exact ⟨hafter c d hd, fun _ _ => ih _ (h.2 _ trivial)⟩

/-- What comes after an owed command is owed. -/
theorem weave_owes {ψ : C → Prop} {ψ' : D → Prop} {p : Program S C α} (h : p.Owes ψ)
    (hafter : ∀ c, ψ c → ∃ d, after c = some d ∧ ψ' d) : (p.weave view lift after).Owes ψ' := by
  induction p with
  | done a => cases h
  | fail error => cases h
  | read next ih => exact fun t => ih _ (h _)
  | exec c next ih =>
      refine .inr fun t => ?_
      rcases h with h | h
      · obtain ⟨d, hd, hψ⟩ := hafter c h
        rw [hd]
        exact .inl hψ
      · split
        · exact ih _ (h _)
        · exact .inr fun _ => ih _ (h _)

theorem weave_follows {φ ψ : C → Prop} {φ' ψ' : D → Prop} {p : Program S C α}
    (h : p.Follows φ ψ) (hlift : ∀ c, φ' (lift c) → φ c) (hnot : ∀ c, ∀ d ∈ after c, ¬ φ' d)
    (hafter : ∀ c, ψ c → ∃ d, after c = some d ∧ ψ' d) :
    (p.weave view lift after).Follows φ' ψ' := by
  induction p with
  | done a => trivial
  | fail error => trivial
  | read next ih => exact fun t => ih _ (h _)
  | exec c next ih =>
      intro t
      have howes : φ' (lift c) → ((next (view t)).weave view lift after).Owes ψ' :=
        fun hc => weave_owes ((h _).1 (hlift c hc)) hafter
      constructor
      · intro hc
        split
        · exact howes hc
        · exact .inr fun _ => howes hc
      · split
        · exact ih _ (h _).2
        · rename_i d hd
          exact fun _ => ⟨fun hφ => absurd hφ (hnot c d hd), ih _ (h _).2⟩

end Weave

end Program

/-! ## Programs one after the other -/

/-- A request that has run on its own. -/
structure Record (O S α : Type) where
  op : O
  before : S
  result : Except String α
  after : S

section Serial

variable {O S C α : Type} (apply : C → S → S) (program : O → Program S C α)

/-- The request is executed in the store that it finds. -/
def Record.of (op : O) (s : S) : Record O S α :=
  ⟨op, s, ((program op).run apply s).2, ((program op).run apply s).1⟩

/-- Requests that meet `G` have run one after the other, the latest first; between
them the surroundings have moved the store by `M`. -/
inductive Serial (G : S → O → Prop) (M : S → S → Prop) (s₀ : S) :
    List (Record O S α) → S → Prop where
  | nil : Serial G M s₀ [] s₀
  | run {h s op} : Serial G M s₀ h s → G s op →
      Serial G M s₀ (.of apply program op s :: h) (Record.of apply program op s).after
  | move {h s s'} : Serial G M s₀ h s → M s s' → Serial G M s₀ h s'

variable {apply program} {G : S → O → Prop} {M : S → S → Prop} {s₀ s : S}
  {h : List (Record O S α)}

/-- An invariant of the past and the store, request by request. -/
theorem Serial.invariant {I : List (Record O S α) → S → Prop}
    (hrun : Serial apply program G M s₀ h s) (hnil : I [] s₀)
    (hstep : ∀ h s op, I h s → G s op → (program op).wp apply
      (fun a s' => I (⟨op, s, .ok a, s'⟩ :: h) s')
      (fun s' => ∀ error, I (⟨op, s, .error error, s'⟩ :: h) s') s)
    (hmove : ∀ h s s', I h s → M s s' → I h s') : I h s := by
  induction hrun with
  | nil => exact hnil
  | run hr hg ih =>
      rename_i h s op
      have hwp := (Program.wp_iff_run apply (program op)).mp (hstep h s op ih hg)
      unfold Record.of
      rcases hres : (program op).run apply s with ⟨s', a | a⟩
      · exact hwp.2 a s' hres a
      · exact hwp.1 a s' hres
  | move hr hm ih => exact hmove _ _ _ ih hm

variable (apply program)

/-- Executing a list of requests, each of which must be `allowed`. -/
def execAll (allowed : S → O → Bool) :
    List O → List (Record O S α) → S → Option (List (Record O S α) × S)
  | [], h, s => some (h, s)
  | op :: ops, h, s =>
      if allowed s op then
        execAll allowed ops (.of apply program op s :: h) (Record.of apply program op s).after
      else none

variable {apply program}

theorem Serial.exists_of_execAll (allowed : S → O → Bool) (ops : List O)
    (Q : List (Record O S α) → S → Bool) (hG : ∀ s op, allowed s op = true → G s op)
    (hQ : (execAll apply program allowed ops [] s₀).any (fun x => Q x.1 x.2) = true) :
    ∃ h s, Serial apply program G M s₀ h s ∧ Q h s = true := by
  have hgen : ∀ ops h s, Serial apply program G M s₀ h s →
      (execAll apply program allowed ops h s).any (fun x => Q x.1 x.2) = true →
      ∃ h s, Serial apply program G M s₀ h s ∧ Q h s = true := by
    intro ops
    induction ops with
    | nil => exact fun h s hr hq => ⟨h, s, hr, hq⟩
    | cons op ops ih =>
        intro h s hr hq
        rw [execAll] at hq
        split at hq
        · rename_i ha
          exact ih _ _ (hr.run (hG s op ha)) hq
        · cases hq
  exact hgen ops [] s₀ .nil hQ

end Serial

/-! ## Many programs at once -/

open Interleave

/-- A request: an operation that has arrived, or one under way with what is left
of its program. -/
inductive Call (O S C α : Type) where
  | arriving (op : O)
  | running (op : O) (rest : Program S C α)

namespace Call

variable {O S C α E : Type}

def op : Call O S C α → O
  | .arriving op => op
  | .running op _ => op

/-- What is left to do. -/
def rest (program : O → Program S C α) : Call O S C α → Program S C α
  | .arriving op => program op
  | .running _ rest => rest

def isOver : Call O S C α → Bool
  | .arriving _ => false
  | .running _ rest => rest.isOver

def completed : Call O S C α → Bool
  | .running _ (.done _) => true
  | _ => false

/-- The operation and the command it is about to execute. -/
def command? : Call O S C α → Option (O × C)
  | .running op (.exec c _) => some (op, c)
  | _ => none

theorem command?_eq_some {p : Call O S C α} {op : O} {c : C} (h : p.command? = some (op, c)) :
    ∃ next, p = .running op (.exec c next) := by
  cases p with
  | arriving op => cases h
  | running op rest =>
      cases rest with
      | exec c next =>
          obtain ⟨rfl, rfl⟩ := Prod.mk.inj (Option.some.inj h)
          exact ⟨next, rfl⟩
      | _ => cases h

/-- `apply` is the effect of a command, `program` the program of an operation. -/
def server (apply : C → S → S) (program : O → Program S C α) (env : E → S → Option S) :
    Server S (Call O S C α) E where
  opens p :=
    match p with
    | .arriving _ => true
    | .running .. => false
  step p s :=
    match p with
    | .arriving op => some (s, .running op (program op))
    | .running op rest => (rest.step apply s).map fun r => (r.1, .running op r.2)
  env := env

/-- A condition on every command, in the store that it finds. -/
def guarded (g : O → C → S → Bool) (c : Conf S (Call O S C α)) :
    Action (Call O S C α) E → Bool
  | .turn i =>
      match c.pool[i]?.bind command? with
      | some (op, command) => g op command c.store
      | none => true
  | _ => true

/-- Only operations in scope arrive. -/
def within (scope : O → Bool) : Action (Call O S C α) E → Bool
  | .start p => scope p.op
  | _ => true

def noMoves : Action (Call O S C α) E → Bool
  | .env _ => false
  | _ => true

variable {apply : C → S → S} {program : O → Program S C α} {env : E → S → Option S}

/-- A step either leaves the store alone or executes the call's command. -/
theorem step_cases {p p' : Call O S C α} {s s' : S}
    (h : (server apply program env).step p s = some (s', p')) :
    p'.op = p.op ∧
      ((s' = s ∧ p.command? = none)
        ∨ ∃ c, p.command? = some (p.op, c) ∧ s' = apply c s) := by
  cases p with
  | arriving op =>
      obtain ⟨rfl, rfl⟩ := Prod.mk.inj (Option.some.inj h)
      exact ⟨rfl, .inl ⟨rfl, rfl⟩⟩
  | running op rest =>
      obtain ⟨⟨t, rest'⟩, hs, heq⟩ := Option.map_eq_some_iff.mp h
      obtain ⟨rfl, rfl⟩ := Prod.mk.inj heq
      refine ⟨rfl, ?_⟩
      rcases Program.step_cases hs with ⟨next, rfl, rfl, -⟩ | ⟨c, next, rfl, rfl, -⟩
      · exact .inl ⟨rfl, rfl⟩
      · exact .inr ⟨c, rfl, rfl⟩

/-- What is left after a step: the same for an arriving call, and one step of
the program else. -/
theorem rest_step {p p' : Call O S C α} {s s' : S}
    (h : (server apply program env).step p s = some (s', p')) :
    (s' = s ∧ p'.rest program = p.rest program)
      ∨ (p.rest program).step apply s = some (s', p'.rest program) := by
  cases p with
  | arriving op =>
      obtain ⟨rfl, rfl⟩ := Prod.mk.inj (Option.some.inj h)
      exact .inl ⟨rfl, rfl⟩
  | running op rest =>
      obtain ⟨⟨t, rest'⟩, hs, heq⟩ := Option.map_eq_some_iff.mp h
      obtain ⟨rfl, rfl⟩ := Prod.mk.inj heq
      exact .inr hs

/-- A step in full: a call begins, reads, or executes its command. -/
theorem step_rest {p p' : Call O S C α} {s s' : S}
    (h : (server apply program env).step p s = some (s', p')) :
    (s' = s ∧ p.command? = none ∧ p'.rest program = p.rest program)
      ∨ (∃ next, p.rest program = .read next ∧ p.command? = none ∧ s' = s
        ∧ p'.rest program = next s)
      ∨ ∃ c next, p.rest program = .exec c next ∧ p.command? = some (p.op, c) ∧ s' = apply c s
        ∧ p'.rest program = next s := by
  cases p with
  | arriving op =>
      obtain ⟨rfl, rfl⟩ := Prod.mk.inj (Option.some.inj h)
      exact .inl ⟨rfl, rfl, rfl⟩
  | running op rest =>
      obtain ⟨⟨t, rest'⟩, hs, heq⟩ := Option.map_eq_some_iff.mp h
      obtain ⟨rfl, rfl⟩ := Prod.mk.inj heq
      rcases Program.step_cases hs with ⟨next, rfl, rfl, rfl⟩ | ⟨c, next, rfl, rfl, rfl⟩
      · exact .inr (.inl ⟨next, rfl, rfl, rfl, rfl⟩)
      · exact .inr (.inr ⟨c, next, rfl, rfl, rfl, rfl⟩)

theorem isOver_of_completed {p : Call O S C α} (h : p.completed = true) : p.isOver = true := by
  cases p with
  | arriving op => cases h
  | running op rest =>
      cases rest with
      | done a => rfl
      | _ => cases h

theorem isOver_of_step {p p' : Call O S C α} {s s' : S}
    (h : (server apply program env).step p s = some (s', p')) : p.isOver = false := by
  cases p with
  | arriving op => rfl
  | running op rest =>
      cases rest with
      | done a => cases h
      | fail error => cases h
      | read next => rfl
      | exec c next => rfl

theorem opens_eq {p : Call O S C α} (h : (server apply program env).opens p = true) :
    ∃ op, p = .arriving op := by
  cases p with
  | arriving op => exact ⟨op, rfl⟩
  | running op rest => cases h

/-- Every call executes only commands that its operation may. -/
def Obeys (program : O → Program S C α) (φ : O → C → Prop) (p : Call O S C α) : Prop :=
  (p.rest program).All (φ p.op)

theorem Obeys.step {φ : O → C → Prop} {p p' : Call O S C α} {s s' : S}
    (h : p.Obeys program φ) (hs : (server apply program env).step p s = some (s', p')) :
    p'.Obeys program φ := by
  unfold Obeys at *
  rw [(step_cases hs).1]
  rcases rest_step hs with ⟨-, hr⟩ | hr
  · rwa [hr]
  · exact Program.Ensures.step h trivial hr

theorem Obeys.command {φ : O → C → Prop} {p : Call O S C α} {op : O} {c : C}
    (h : p.Obeys program φ) (hc : p.command? = some (op, c)) : φ op c := by
  obtain ⟨next, rfl⟩ := command?_eq_some hc
  exact h.1

/-- The call does not end before it has executed a command with `ψ`. -/
def Owes (program : O → Program S C α) (ψ : C → Prop) (p : Call O S C α) : Prop :=
  (p.rest program).Owes ψ

theorem Owes.not_isOver {ψ : C → Prop} {p : Call O S C α} (h : p.Owes program ψ) :
    p.isOver = false := by
  cases p with
  | arriving op => rfl
  | running op rest => exact Program.Owes.not_isOver h

/-- A call that owes a command executes it now or still owes it. -/
theorem Owes.step {ψ : C → Prop} {p p' : Call O S C α} {s s' : S} (h : p.Owes program ψ)
    (hs : (server apply program env).step p s = some (s', p')) :
    (∃ d, p.command? = some (p.op, d) ∧ ψ d) ∨ p'.Owes program ψ := by
  cases p with
  | arriving op =>
      obtain ⟨rfl, rfl⟩ := Prod.mk.inj (Option.some.inj hs)
      exact .inr h
  | running op rest =>
      obtain ⟨⟨t, rest'⟩, ht, heq⟩ := Option.map_eq_some_iff.mp hs
      obtain ⟨rfl, rfl⟩ := Prod.mk.inj heq
      rcases Program.Owes.step h ht with ⟨c, next, rfl, hc⟩ | h'
      · exact .inl ⟨c, rfl, hc⟩
      · exact .inr h'

/-- The call does not complete before it has executed `d`. -/
def Needs (program : O → Program S C α) (d : C) (p : Call O S C α) : Prop :=
  (p.rest program).Needs (· = d)

theorem Needs.step {d : C} {p p' : Call O S C α} {s s' : S} (h : p.Needs program d)
    (hs : (server apply program env).step p s = some (s', p')) :
    p.command? = some (p.op, d) ∨ p'.Needs program d := by
  cases p with
  | arriving op =>
      obtain ⟨rfl, rfl⟩ := Prod.mk.inj (Option.some.inj hs)
      exact .inr h
  | running op rest =>
      obtain ⟨⟨t, rest'⟩, ht, heq⟩ := Option.map_eq_some_iff.mp hs
      obtain ⟨rfl, rfl⟩ := Prod.mk.inj heq
      rcases Program.Needs.step h ht with ⟨c, next, rfl, rfl⟩ | h'
      · exact .inl rfl
      · exact .inr h'

theorem Needs.not_completed {d : C} {p : Call O S C α} (h : p.Needs program d) :
    p.completed = false := by
  cases p with
  | arriving op => rfl
  | running op rest =>
      cases rest with
      | done a => cases h
      | _ => rfl

theorem exists_owes_turn {l : List (Call O S C α)} {i : Nat} {ψ : C → Prop}
    {p p' : Call O S C α} {s s' : S} (hi : l[i]? = some p)
    (hs : (server apply program env).step p s = some (s', p'))
    (hne : ∀ d, p.command? = some (p.op, d) → ¬ ψ d) (h : ∃ q ∈ l, q.Owes program ψ) :
    ∃ q ∈ l.set i p', q.Owes program ψ :=
  exists_turn hi (fun hp => (hp.step hs).resolve_left fun ⟨d, hd, hψ⟩ => hne d hd hψ) h

/-- After each of its commands with `φ` the call owes one with `ψ`. -/
def Follows (program : O → Program S C α) (φ ψ : C → Prop) (p : Call O S C α) : Prop :=
  (p.rest program).Follows φ ψ

theorem Follows.step {φ ψ : C → Prop} {p p' : Call O S C α} {s s' : S}
    (h : p.Follows program φ ψ) (hs : (server apply program env).step p s = some (s', p')) :
    p'.Follows program φ ψ := by
  unfold Follows at *
  rcases rest_step hs with ⟨-, hr⟩ | hr
  · rwa [hr]
  · exact Program.Follows.step h hr

theorem Follows.owes {φ ψ : C → Prop} {p p' : Call O S C α} {s s' : S} {op : O} {c : C}
    (h : p.Follows program φ ψ) (hc : p.command? = some (op, c)) (hφ : φ c)
    (hs : (server apply program env).step p s = some (s', p')) : p'.Owes program ψ := by
  obtain ⟨next, rfl⟩ := command?_eq_some hc
  have hnext : some (apply c s, Call.running op (next s)) = some (s', p') := hs
  obtain ⟨-, rfl⟩ := Prod.mk.inj (Option.some.inj hnext)
  exact (h s).1 hφ

/-- A call that has the server to itself ends as its program alone does. -/
theorem holds_of_turns {L : Type} {R : Call O S C α → S → L → L} {I : S → Prop}
    {c c' : Conf (S × L) (Call O S C α)} {i : Nat} {p : Call O S C α}
    (h : ((server apply program env).recording R).Run (fun _ a => a = .turn i) c c')
    (hi : c.pool[i]? = some p) (hp : (p.rest program).wp apply (fun _ => I) I c.store.1)
    (hover : ∀ p ∈ c'.pool, p.isOver = true) : I c'.store.1 := by
  have hinv : ∃ p, c'.pool[i]? = some p ∧ (p.rest program).wp apply (fun _ => I) I c'.store.1 := by
    refine h.invariant (I := fun c => ∃ p, c.pool[i]? = some p
      ∧ (p.rest program).wp apply (fun _ => I) I c.store.1) ⟨?_, ?_, ?_⟩ ⟨p, hi, hp⟩
    · exact fun _ _ _ hg => by cases hg
    · rintro c j q s' q' ⟨p, hi, hp⟩ hg hj hs
      obtain rfl := Action.turn.inj hg
      obtain rfl := Option.some.inj (hi.symm.trans hj)
      refine ⟨q', List.getElem?_set_self (List.getElem?_eq_some_iff.mp hi).1, ?_⟩
      rcases rest_step (Server.recording_step hs).1 with ⟨hstore, hrest⟩ | hrest
      · rwa [hstore, hrest]
      · exact Program.wp_step hp hrest
    · exact fun _ _ _ _ hg => by cases hg
  obtain ⟨p, hi, hp⟩ := hinv
  have hp' := hover p (List.mem_of_getElem? hi)
  cases p with
  | arriving op => cases hp'
  | running op rest => exact Program.wp_of_isOver hp hp'

/-- An invariant of the store, command by command: enough that each command of
the operations in scope keeps it where the run allows the command. -/
theorem preserves {G : Conf S (Call O S C α) → Action (Call O S C α) E → Prop} {I : S → Prop}
    {φ : O → C → Prop}
    (hstart : ∀ c op, G c (.start (.arriving op)) → (program op).All (φ op))
    (hcommand : ∀ c i p op command, I c.store → G c (.turn i) → c.pool[i]? = some p →
      p.command? = some (op, command) → φ op command → I (apply command c.store))
    (henv : ∀ c e s', I c.store → G c (.env e) → env e c.store = some s' → I s') :
    (server apply program env).Preserves G
      fun c => I c.store ∧ ∀ p ∈ c.pool, p.Obeys program φ where
  start c p hc hg hp := by
    obtain ⟨op, rfl⟩ := opens_eq hp
    exact ⟨hc.1, forall_start hc.2 (hstart c op hg)⟩
  turn c i p s' p' hc hg hi hs := by
    have hp := hc.2 p (List.mem_of_getElem? hi)
    refine ⟨?_, forall_turn hc.2 (hp.step hs)⟩
    rcases (step_cases hs).2 with ⟨rfl, -⟩ | ⟨command, hcmd, rfl⟩
    · exact hc.1
    · exact hcommand c i p p.op command hc.1 hg hi hcmd (hp.command hcmd)
  env c e s' hc hg he := ⟨henv c e s' hc.1 hg he, hc.2⟩

end Call

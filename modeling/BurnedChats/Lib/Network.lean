import Mathlib.Algebra.BigOperators.Group.List.Basic
import Mathlib.Data.List.Basic

/-!
# Message-passing machines with bounces

Accounts exchange one-way messages. A *machine* is the modelled part of the
network: a set of addresses it runs, and one handler for everything delivered
to them. All other accounts are the environment: they may send any message
under their own address at any time, and accept or reject whatever reaches
them.

A handler either succeeds, yielding the next state and the messages it sends,
or throws. A throw leaves the state as it was and returns a bounceable message
to its sender, once: the return is itself marked `bounced` and never bounces
again. Undelivered messages form the `flight`; any of them may be delivered
next, except that a pair of addresses declared `ordered` is a queue.

The two ways to reason about runs are `Run.invariant` (an invariant kept by
each kind of step, `Preserves`) and, for ordered pairs, `channel` with
`channel_deliver`: what is in transit between two accounts is a list whose
head is the next delivery.
-/

namespace Network

/-- A message in transit. `deploy` marks an attached initial state: delivery to
an address without a contract then creates it. -/
structure Envelope (A B : Type) where
  src : A
  dst : A
  value : Nat
  bounce : Bool
  bounced : Bool
  deploy : Bool
  body : B

/-- The modelled part of a network. `E` is what the platform supplies to one
execution beyond the message and the clock. -/
structure Machine (A B E S : Type) where
  owns : A → Bool
  ordered : A → A → Bool
  receive : E → Nat → Envelope A B → S → Except String (S × List (Envelope A B))

structure Conf (A B S : Type) where
  st : S
  flight : List (Envelope A B)
  now : Nat

/-- `send` is the environment speaking; `deliver i` hands over the `i`-th
undelivered message, `accept` being the environment's verdict when the message
is addressed to it. -/
inductive Action (A B E : Type) where
  | send (m : Envelope A B)
  | deliver (i : Nat) (e : E) (accept : Bool)
  | wait (d : Nat)

variable {A B E S : Type}

/-- The return of a rejected message, when it is bounceable. -/
def bounceOf (m : Envelope A B) : List (Envelope A B) :=
  if m.bounce && !m.bounced then
    [{ src := m.dst, dst := m.src, value := m.value, bounce := false, bounced := true,
       deploy := false, body := m.body }]
  else []

theorem mem_bounceOf {m r : Envelope A B} (h : r ∈ bounceOf m) :
    m.bounce = true ∧ m.bounced = false ∧ r.src = m.dst ∧ r.dst = m.src ∧ r.bounced = true
      ∧ r.body = m.body := by
  unfold bounceOf at h
  split at h
  · rename_i hb
    simp only [Bool.and_eq_true, Bool.not_eq_true'] at hb
    obtain rfl := List.mem_singleton.mp h
    exact ⟨hb.1, hb.2, rfl, rfl, rfl, rfl⟩
  · cases h

namespace Machine

variable [DecidableEq A] (M : Machine A B E S)

/-- One delivery: what happens to the state and what is sent. -/
def turn (e : E) (accept : Bool) (now : Nat) (m : Envelope A B) (s : S) :
    S × List (Envelope A B) :=
  if M.owns m.dst then
    match M.receive e now m s with
    | .ok r => r
    | .error _ => (s, bounceOf m)
  else (s, if accept then [] else bounceOf m)

/-- `m'`, sent earlier on the same ordered pair, must be delivered before `m`. -/
def blocks (m m' : Envelope A B) : Bool :=
  M.ordered m.src m.dst && decide (m'.src = m.src) && decide (m'.dst = m.dst)

def step (c : Conf A B S) : Action A B E → Option (Conf A B S)
  | .send m =>
      if M.owns m.src || m.bounced then none
      else some { c with flight := c.flight ++ [m] }
  | .deliver i e accept =>
      match c.flight[i]? with
      | none => none
      | some m =>
          if (c.flight.take i).any (M.blocks m) then none
          else
            let r := M.turn e accept c.now m c.st
            some ⟨r.1, c.flight.eraseIdx i ++ r.2, c.now⟩
  | .wait d => some { c with now := c.now + d }

/-- Executing a list of actions; `none` when one of them is not enabled. -/
def exec (c : Conf A B S) : List (Action A B E) → Option (Conf A B S)
  | [] => some c
  | a :: as => (M.step c a).bind fun c' => exec c' as

/-- Runs all of whose steps meet `G` in the configuration they start from. -/
inductive Run (G : Conf A B S → Action A B E → Prop) : Conf A B S → Conf A B S → Prop where
  | refl (c) : Run G c c
  | tail {c c' c'' a} : Run G c c' → G c' a → M.step c' a = some c'' → Run G c c''

/-- Runs without a side condition. -/
abbrev Reach : Conf A B S → Conf A B S → Prop := M.Run fun _ _ => True

variable {M} {G : Conf A B S → Action A B E → Prop}

theorem Run.trans {c c' c'' : Conf A B S} (h : M.Run G c c') (h' : M.Run G c' c'') :
    M.Run G c c'' := by
  induction h' with
  | refl => exact h
  | tail _ hg hs ih => exact ih.tail hg hs

theorem Run.mono {G' : Conf A B S → Action A B E → Prop} {c c' : Conf A B S}
    (hG : ∀ c a, G c a → G' c a) (h : M.Run G c c') : M.Run G' c c' := by
  induction h with
  | refl => exact .refl _
  | tail _ hg hs ih => exact ih.tail (hG _ _ hg) hs

/-- `exec` produces runs. -/
theorem run_of_exec {as : List (Action A B E)} :
    ∀ {c c' : Conf A B S}, M.exec c as = some c' → M.Reach c c' := by
  induction as with
  | nil =>
      intro c c' h
      obtain rfl := Option.some.inj h
      exact .refl _
  | cons a as ih =>
      intro c c' h
      obtain ⟨c₁, hs, hr⟩ := Option.bind_eq_some_iff.mp h
      exact ((Run.refl c).tail trivial hs).trans (ih hr)

/-- What a step can do, in full. A delivered message sits between what was sent
before it and after it; nothing sent before it blocks it. -/
theorem step_cases {c c' : Conf A B S} {a : Action A B E} (h : M.step c a = some c') :
    (∃ m, a = .send m ∧ M.owns m.src = false ∧ m.bounced = false
        ∧ c' = { c with flight := c.flight ++ [m] })
      ∨ (∃ i e accept m pre post, a = .deliver i e accept ∧ c.flight[i]? = some m
        ∧ c.flight = pre ++ m :: post ∧ (∀ m' ∈ pre, M.blocks m m' = false)
        ∧ c' = ⟨(M.turn e accept c.now m c.st).1,
            pre ++ post ++ (M.turn e accept c.now m c.st).2, c.now⟩)
      ∨ (∃ d, a = .wait d ∧ c' = { c with now := c.now + d }) := by
  cases a with
  | send m =>
      simp only [step] at h
      split at h
      · cases h
      · rename_i hb
        simp only [Bool.or_eq_true, not_or, Bool.not_eq_true] at hb
        exact .inl ⟨m, rfl, hb.1, hb.2, (Option.some.inj h).symm⟩
  | deliver i e accept =>
      simp only [step] at h
      split at h
      · cases h
      · rename_i m hm
        split at h
        · cases h
        · rename_i hb
          obtain ⟨hi, rfl⟩ := List.getElem?_eq_some_iff.mp hm
          refine .inr (.inl ⟨i, e, accept, c.flight[i], c.flight.take i, c.flight.drop (i + 1),
            rfl, hm, ?_, ?_, ?_⟩)
          · rw [← List.drop_eq_getElem_cons hi, List.take_append_drop]
          · intro m' hm'
            cases hbl : M.blocks c.flight[i] m' with
            | false => rfl
            | true => exact absurd (List.any_eq_true.mpr ⟨m', hm', hbl⟩) hb
          · rw [← List.eraseIdx_eq_take_drop_succ]
            exact (Option.some.inj h).symm
  | wait d => exact .inr (.inr ⟨d, rfl, (Option.some.inj h).symm⟩)

variable (M G) in
/-- An invariant, kind of step by kind of step. A delivery to a modelled address
succeeds (`ok`) or throws (`error`); one to the environment is taken
(`outside`) or returned (`returned`). -/
structure Preserves (I : Conf A B S → Prop) : Prop where
  send : ∀ c m, I c → G c (.send m) → M.owns m.src = false → m.bounced = false →
    I { c with flight := c.flight ++ [m] }
  ok : ∀ c i e accept m pre post s' out, I c → G c (.deliver i e accept) →
    c.flight[i]? = some m → c.flight = pre ++ m :: post → (∀ m' ∈ pre, M.blocks m m' = false) →
    M.owns m.dst = true → M.receive e c.now m c.st = .ok (s', out) →
    I ⟨s', pre ++ post ++ out, c.now⟩
  error : ∀ c i e accept m pre post err, I c → G c (.deliver i e accept) →
    c.flight[i]? = some m → c.flight = pre ++ m :: post → (∀ m' ∈ pre, M.blocks m m' = false) →
    M.owns m.dst = true → M.receive e c.now m c.st = .error err →
    I ⟨c.st, pre ++ post ++ bounceOf m, c.now⟩
  outside : ∀ c m pre post, I c → c.flight = pre ++ m :: post → M.owns m.dst = false →
    I ⟨c.st, pre ++ post, c.now⟩
  returned : ∀ c m pre post, I c → c.flight = pre ++ m :: post →
    (∀ m' ∈ pre, M.blocks m m' = false) → M.owns m.dst = false →
    I ⟨c.st, pre ++ post ++ bounceOf m, c.now⟩
  wait : ∀ c d, I c → G c (.wait d) → I { c with now := c.now + d }

/-! ### Logs -/

/-- What a run writes into a log: an entry for each accepted execution of a
modelled account, one for each message the environment takes, and, where they
matter, one for each message the environment sends and one for each message a
modelled account rejects. -/
structure Recorder (A B E S L : Type) where
  accepted : E → Nat → Envelope A B → S → S × List (Envelope A B) → L → L
  taken : Nat → Envelope A B → L → L := fun _ _ l => l
  sent : Envelope A B → L → L := fun _ l => l
  rejected : Envelope A B → L → L := fun _ l => l

/-- Nothing is logged. -/
def Recorder.silent : Recorder A B E S Unit where
  accepted _ _ _ _ _ l := l

variable {L : Type}

variable (M) in
/-- The log after one step. -/
def record (R : Recorder A B E S L) (c : Conf A B S) (a : Action A B E) (l : L) : L :=
  match a with
  | .send m => R.sent m l
  | .deliver i e accept =>
      match c.flight[i]? with
      | none => l
      | some m =>
          if M.owns m.dst then
            match M.receive e c.now m c.st with
            | .ok r => R.accepted e c.now m c.st r l
            | .error _ => R.rejected m l
          else if accept then R.taken c.now m l else l
  | .wait _ => l

variable (M G) in
/-- Runs together with their log. -/
inductive Logged (R : Recorder A B E S L) : Conf A B S → L → Conf A B S → L → Prop where
  | refl (c l) : Logged R c l c l
  | tail {c l c' l' c'' a} : Logged R c l c' l' → G c' a → M.step c' a = some c'' →
      Logged R c l c'' (M.record R c' a l')

theorem Logged.run {R : Recorder A B E S L} {c c' : Conf A B S} {l l' : L}
    (h : M.Logged G R c l c' l') : M.Run G c c' := by
  induction h with
  | refl => exact .refl _
  | tail _ hg hs ih => exact ih.tail hg hs

theorem Logged.mono {G' : Conf A B S → Action A B E → Prop} {R : Recorder A B E S L}
    {c c' : Conf A B S} {l l' : L} (hG : ∀ c a, G c a → G' c a) (h : M.Logged G R c l c' l') :
    M.Logged G' R c l c' l' := by
  induction h with
  | refl => exact .refl _ _
  | tail _ hg hs ih => exact ih.tail (hG _ _ hg) hs

/-- Every run has a log. -/
theorem Run.logged (R : Recorder A B E S L) {c c' : Conf A B S} (l : L) (h : M.Run G c c') :
    ∃ l', M.Logged G R c l c' l' := by
  induction h with
  | refl => exact ⟨l, .refl _ _⟩
  | tail _ hg hs ih =>
      obtain ⟨l', h'⟩ := ih
      exact ⟨_, h'.tail hg hs⟩

variable (M) in
/-- `exec`, with the log; every step must be `allowed`. -/
def execWhile (allowed : Conf A B S → Action A B E → Bool) (R : Recorder A B E S L)
    (c : Conf A B S) (l : L) : List (Action A B E) → Option (Conf A B S × L)
  | [] => some (c, l)
  | a :: as =>
      if allowed c a then
        (M.step c a).bind fun c' => execWhile allowed R c' (M.record R c a l) as
      else none

variable (M) in
def execLogged (R : Recorder A B E S L) (c : Conf A B S) (l : L) (as : List (Action A B E)) :
    Option (Conf A B S × L) :=
  M.execWhile (fun _ _ => true) R c l as

theorem logged_of_execWhile {allowed : Conf A B S → Action A B E → Bool} {R : Recorder A B E S L}
    {as : List (Action A B E)} {c c' : Conf A B S} {l l' : L}
    (hG : ∀ c a, allowed c a = true → G c a)
    (h : M.execWhile allowed R c l as = some (c', l')) : M.Logged G R c l c' l' := by
  suffices key : ∀ {c₁ : Conf A B S} {l₁ : L}, M.Logged G R c l c₁ l₁ →
      M.execWhile allowed R c₁ l₁ as = some (c', l') → M.Logged G R c l c' l' from
    key (.refl _ _) h
  clear h
  induction as with
  | nil =>
      intro c₁ l₁ h₁ h
      obtain ⟨rfl, rfl⟩ := Prod.mk.inj (Option.some.inj h)
      exact h₁
  | cons a as ih =>
      intro c₁ l₁ h₁ h
      simp only [execWhile] at h
      split at h
      · rename_i ha
        obtain ⟨c₂, hs, hr⟩ := Option.bind_eq_some_iff.mp h
        exact ih (h₁.tail (hG c₁ a ha) hs) hr
      · cases h

theorem logged_of_exec {R : Recorder A B E S L} {as : List (Action A B E)} {c c' : Conf A B S}
    {l l' : L} (h : M.execLogged R c l as = some (c', l')) :
    M.Logged (fun _ _ => True) R c l c' l' :=
  logged_of_execWhile (fun _ _ _ => trivial) h

variable (M G) in
/-- `Preserves`, for a property that also speaks about the log. -/
structure Tracks (R : Recorder A B E S L) (I : Conf A B S → L → Prop) : Prop where
  send : ∀ c l m, I c l → G c (.send m) → M.owns m.src = false → m.bounced = false →
    I { c with flight := c.flight ++ [m] } (R.sent m l)
  ok : ∀ c l i e accept m pre post s' out, I c l → G c (.deliver i e accept) →
    c.flight[i]? = some m → c.flight = pre ++ m :: post → (∀ m' ∈ pre, M.blocks m m' = false) →
    M.owns m.dst = true → M.receive e c.now m c.st = .ok (s', out) →
    I ⟨s', pre ++ post ++ out, c.now⟩ (R.accepted e c.now m c.st (s', out) l)
  error : ∀ c l i e accept m pre post err, I c l → G c (.deliver i e accept) →
    c.flight[i]? = some m → c.flight = pre ++ m :: post → (∀ m' ∈ pre, M.blocks m m' = false) →
    M.owns m.dst = true → M.receive e c.now m c.st = .error err →
    I ⟨c.st, pre ++ post ++ bounceOf m, c.now⟩ (R.rejected m l)
  outside : ∀ c l m pre post, I c l → c.flight = pre ++ m :: post → M.owns m.dst = false →
    I ⟨c.st, pre ++ post, c.now⟩ (R.taken c.now m l)
  returned : ∀ c l m pre post, I c l → c.flight = pre ++ m :: post →
    (∀ m' ∈ pre, M.blocks m m' = false) → M.owns m.dst = false →
    I ⟨c.st, pre ++ post ++ bounceOf m, c.now⟩ l
  wait : ∀ c l d, I c l → G c (.wait d) → I { c with now := c.now + d } l

theorem Tracks.step {R : Recorder A B E S L} {I : Conf A B S → L → Prop} (hI : M.Tracks G R I)
    {c c' : Conf A B S} {l : L} {a : Action A B E} (hc : I c l) (hg : G c a)
    (h : M.step c a = some c') : I c' (M.record R c a l) := by
  rcases step_cases h with ⟨m, rfl, ho, hb, rfl⟩ |
    ⟨i, e, accept, m, pre, post, rfl, hm, hf, hbl, rfl⟩ | ⟨d, rfl, rfl⟩
  · exact hI.send c l m hc hg ho hb
  · simp only [turn, record, hm]
    by_cases ho : M.owns m.dst = true
    · simp only [ho, if_true]
      cases hr : M.receive e c.now m c.st with
      | ok r => exact hI.ok c l i e accept m pre post r.1 r.2 hc hg hm hf hbl ho hr
      | error err => exact hI.error c l i e accept m pre post err hc hg hm hf hbl ho hr
    · have ho' : M.owns m.dst = false := Bool.not_eq_true _ ▸ ho
      simp only [ho', Bool.false_eq_true, if_false]
      cases accept with
      | true => simpa using hI.outside c l m pre post hc hf ho'
      | false => simpa using hI.returned c l m pre post hc hf hbl ho'
  · exact hI.wait c l d hc hg

theorem Logged.invariant {R : Recorder A B E S L} {I : Conf A B S → L → Prop}
    (hI : M.Tracks G R I) {c c' : Conf A B S} {l l' : L} (h : M.Logged G R c l c' l')
    (hc : I c l) : I c' l' := by
  induction h with
  | refl => exact hc
  | tail _ hg hs ih => exact hI.step ih hg hs

/-! ### Invariants without a log -/

theorem Preserves.step {I : Conf A B S → Prop} (hI : M.Preserves G I) {c c' : Conf A B S}
    {a : Action A B E} (hc : I c) (hg : G c a) (h : M.step c a = some c') : I c' := by
  have ht : M.Tracks G .silent fun c (_ : Unit) => I c :=
    ⟨fun c _ => hI.send c, fun c _ => hI.ok c, fun c _ => hI.error c, fun c _ => hI.outside c,
      fun c _ => hI.returned c, fun c _ => hI.wait c⟩
  exact ht.step (l := ()) hc hg h

/-- A preserved property that holds at the start holds throughout every run. -/
theorem Run.invariant {I : Conf A B S → Prop} (hI : M.Preserves G I) {c c' : Conf A B S}
    (h : M.Run G c c') (hc : I c) : I c' := by
  induction h with
  | refl => exact hc
  | tail _ hg hs ih => exact hI.step ih hg hs

theorem Preserves.weaken {G' : Conf A B S → Action A B E → Prop} {I : Conf A B S → Prop}
    (hG : ∀ c a, G' c a → G c a) (h : M.Preserves G I) : M.Preserves G' I :=
  ⟨fun c m hc hg => h.send c m hc (hG _ _ hg),
    fun c i e accept m pre post s' out hc hg => h.ok c i e accept m pre post s' out hc (hG _ _ hg),
    fun c i e accept m pre post err hc hg => h.error c i e accept m pre post err hc (hG _ _ hg),
    h.outside, h.returned, fun c d hc hg => h.wait c d hc (hG _ _ hg)⟩

/-- A property of configurations and logs, for some log. -/
theorem Tracks.preserves {R : Recorder A B E S L} {I : Conf A B S → L → Prop}
    (h : M.Tracks G R I) : M.Preserves G fun c => ∃ l, I c l :=
  ⟨fun c m ⟨l, hc⟩ hg ho hb => ⟨_, h.send c l m hc hg ho hb⟩,
    fun c i e accept m pre post s' out ⟨l, hc⟩ hg hm hf hbl ho hr =>
      ⟨_, h.ok c l i e accept m pre post s' out hc hg hm hf hbl ho hr⟩,
    fun c i e accept m pre post err ⟨l, hc⟩ hg hm hf hbl ho hr =>
      ⟨_, h.error c l i e accept m pre post err hc hg hm hf hbl ho hr⟩,
    fun c m pre post ⟨l, hc⟩ hf ho => ⟨_, h.outside c l m pre post hc hf ho⟩,
    fun c m pre post ⟨l, hc⟩ hf hbl ho => ⟨_, h.returned c l m pre post hc hf hbl ho⟩,
    fun c d ⟨l, hc⟩ hg => ⟨_, h.wait c l d hc hg⟩⟩

/-- An invariant may be assumed at every step of a run. -/
theorem Run.guarded {I : Conf A B S → Prop} (hI : M.Preserves G I) {c c' : Conf A B S}
    (h : M.Run G c c') (hc : I c) : M.Run (fun c a => G c a ∧ I c) c c' := by
  induction h with
  | refl => exact .refl _
  | tail hrun hg hs ih => exact ih.tail ⟨hg, hrun.invariant hI hc⟩ hs

theorem Logged.guarded {R : Recorder A B E S L} {I : Conf A B S → Prop} (hI : M.Preserves G I)
    {c c' : Conf A B S} {l l' : L} (h : M.Logged G R c l c' l') (hc : I c) :
    M.Logged (fun c a => G c a ∧ I c) R c l c' l' := by
  induction h with
  | refl => exact .refl _ _
  | tail hrun hg hs ih => exact ih.tail ⟨hg, hrun.run.invariant hI hc⟩ hs

end Machine

/-! ## Totals over the flight -/

/-- The sum of `f` over a list of messages. -/
def load {N : Type} [AddMonoid N] (f : Envelope A B → N) (l : List (Envelope A B)) : N :=
  (l.map f).sum

@[simp] theorem load_nil {N : Type} [AddMonoid N] (f : Envelope A B → N) : load f [] = 0 := rfl

@[simp] theorem load_cons {N : Type} [AddMonoid N] (f : Envelope A B → N) (m : Envelope A B)
    (l : List (Envelope A B)) : load f (m :: l) = f m + load f l := by
  simp [load]

@[simp] theorem load_append {N : Type} [AddMonoid N] (f : Envelope A B → N)
    (l l' : List (Envelope A B)) : load f (l ++ l') = load f l + load f l' := by
  simp [load]

theorem load_eq_zero {N : Type} [AddMonoid N] {f : Envelope A B → N} {l : List (Envelope A B)}
    (h : ∀ m ∈ l, f m = 0) : load f l = 0 := by
  induction l with
  | nil => rfl
  | cons m l ih =>
      obtain ⟨hm, hl⟩ := List.forall_mem_cons.mp h
      rw [load_cons, hm, ih hl, add_zero]

theorem le_load (f : Envelope A B → Nat) {m : Envelope A B} {l : List (Envelope A B)}
    (h : m ∈ l) : f m ≤ load f l := by
  induction l with
  | nil => cases h
  | cons m' l ih =>
      rw [load_cons]
      rcases List.mem_cons.mp h with rfl | h
      · exact Nat.le_add_right _ _
      · exact Nat.le_trans (ih h) (Nat.le_add_left _ _)

theorem load_le_load {f f' : Envelope A B → Nat} {l : List (Envelope A B)}
    (h : ∀ m ∈ l, f m ≤ f' m) : load f l ≤ load f' l := by
  induction l with
  | nil => exact Nat.le_refl _
  | cons m l ih =>
      rw [load_cons, load_cons]
      exact Nat.add_le_add (h m (List.mem_cons_self ..))
        (ih fun m' hm' => h m' (List.mem_cons_of_mem _ hm'))

/-- What is left after a delivery was there before. -/
theorem mem_rest {m r : Envelope A B} {pre post flight : List (Envelope A B)}
    (h : flight = pre ++ m :: post) (hr : r ∈ pre ++ post) : r ∈ flight := by
  rw [h]
  simp only [List.mem_append, List.mem_cons] at hr ⊢
  rcases hr with hr | hr
  · exact .inl hr
  · exact .inr (.inr hr)

/-- Taking one message out of the flight. -/
theorem load_take (f : Envelope A B → Nat) {m : Envelope A B}
    {pre post flight : List (Envelope A B)} (h : flight = pre ++ m :: post) :
    load f flight = f m + load f (pre ++ post) := by
  rw [h, load_append, load_cons, load_append]
  omega

/-! ## Channels -/

variable [DecidableEq A]

/-- The original (not returned) messages under way from `a` to `b`, oldest first. -/
def channel (a b : A) (l : List (Envelope A B)) : List B :=
  (l.filter fun m => decide (m.src = a) && decide (m.dst = b) && !m.bounced).map (·.body)

@[simp] theorem channel_nil (a b : A) : channel a b ([] : List (Envelope A B)) = [] := rfl

@[simp] theorem channel_append (a b : A) (l l' : List (Envelope A B)) :
    channel a b (l ++ l') = channel a b l ++ channel a b l' := by
  simp [channel]

theorem channel_cons_same {a b : A} {m : Envelope A B} (hs : m.src = a) (hd : m.dst = b)
    (hb : m.bounced = false) (l : List (Envelope A B)) :
    channel a b (m :: l) = m.body :: channel a b l := by
  simp [channel, hs, hd, hb]

theorem channel_cons_other {a b : A} {m : Envelope A B}
    (h : m.src ≠ a ∨ m.dst ≠ b ∨ m.bounced = true) (l : List (Envelope A B)) :
    channel a b (m :: l) = channel a b l := by
  rcases h with h | h | h <;> simp [channel, h]

/-- Messages from elsewhere leave a channel alone. -/
theorem channel_eq_nil {a b : A} {l : List (Envelope A B)}
    (h : ∀ m ∈ l, m.src ≠ a ∨ m.dst ≠ b ∨ m.bounced = true) : channel a b l = [] := by
  induction l with
  | nil => rfl
  | cons m l ih =>
      rw [channel_cons_other (h m (List.mem_cons_self ..)),
        ih fun m' hm' => h m' (List.mem_cons_of_mem _ hm')]

@[simp] theorem channel_bounceOf (a b : A) (m : Envelope A B) :
    channel a b (bounceOf m) = [] :=
  channel_eq_nil fun _ hr => .inr (.inr (mem_bounceOf hr).2.2.2.2.1)

/-- Delivering an original message of an ordered pair takes the channel's head. -/
theorem channel_deliver {M : Machine A B E S} {a b : A} {m : Envelope A B}
    {pre post : List (Envelope A B)} (ho : M.ordered a b = true) (hs : m.src = a)
    (hd : m.dst = b) (hb : m.bounced = false) (hbl : ∀ m' ∈ pre, M.blocks m m' = false) :
    channel a b (pre ++ m :: post) = m.body :: channel a b (pre ++ post) := by
  have hpre : channel a b pre = [] := by
    refine channel_eq_nil fun m' hm' => ?_
    have h := hbl m' hm'
    simp only [Machine.blocks, hs, hd, ho, Bool.true_and, Bool.and_eq_false_iff,
      decide_eq_false_iff_not] at h
    rcases h with h | h
    · exact .inl h
    · exact .inr (.inl h)
  rw [channel_append, channel_append, hpre, channel_cons_same hs hd hb]
  rfl

theorem channel_remove_other {a b : A} {m : Envelope A B} {pre post : List (Envelope A B)}
    (h : m.src ≠ a ∨ m.dst ≠ b ∨ m.bounced = true) :
    channel a b (pre ++ m :: post) = channel a b (pre ++ post) := by
  rw [channel_append, channel_append, channel_cons_other h]

end Network

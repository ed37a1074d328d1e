import BurnedChats.Frontend.TransferQueue

/-!
# The queue of cryptographic jobs

Files are encrypted and decrypted in a worker, one job at a time and a new worker for
each. `drainQueue` takes a job from the queue, awaits its execution, settles its
promise and goes on; it is one loop at most, since a second call returns while
`draining` is set.

The execution settles when the worker answers or fails or the job's own signal is
aborted, and each of these ends the worker. `cancelAll` ends the worker too, but
settles nothing: where the active job has no signal that is aborted along with it, the
loop awaits it forever, and no later job runs. And a transfer that is cancelled alone
calls `cancelAll` as well, which rejects the waiting jobs of all the others. Where
neither happens the queue is sound (`jobs_settle`).

As in the transfer queue a step is a whole callback; the loop's going on after an
execution has settled (`resume`) is one of its own.
-/

namespace BurnedChats

open Interleave

namespace CryptoService

open TransferQueue (Settled TransferId)

def MAX_PENDING_JOBS : Nat := 4

inductive WorkerState
  | none
  | alive
  | terminated
  deriving DecidableEq, Repr

/-- A call of `enqueueTask`: the transfer that it belongs to, its signal, its worker,
the flag of `runInWorker`, the promise that the loop awaits and the one that was
returned. -/
structure Job where
  owner : Option TransferId
  hasSignal : Bool
  aborted : Bool
  worker : WorkerState
  settled : Bool
  execution : Option Settled
  result : Option Settled
  deriving DecidableEq, Repr

namespace Job

def new (owner : Option TransferId) (hasSignal aborted : Bool) : Job :=
  ⟨owner, hasSignal, aborted, .none, false, none, none⟩

variable (j : Job)

/-- A promise settles once. -/
def settleExecution (r : Settled) : Job := { j with execution := j.execution.or (some r) }

def settleResult (r : Settled) : Job := { j with result := j.result.or (some r) }

/-- The listener of the signal is there from the worker's creation to the cleanup. -/
def listening : Bool := j.hasSignal && j.worker != .none && !j.settled

/-- The worker is at work on the job, or the job is executed without one. -/
def running : Bool := j.execution.isNone && j.worker != .terminated

end Job

/-- The jobs by number, the variables of the module, the job that the loop awaits, and
the jobs executed so far. -/
structure Service where
  count : Nat
  job : Nat → Job
  taskQueue : List Nat
  draining : Bool
  current : Option Nat
  activeWorker : Option Nat
  started : List Nat

namespace Service

def empty : Service := ⟨0, fun _ => .new none false false, [], false, none, none, []⟩

variable (useWorker : Bool) (s : Service)

def update (i : Nat) (f : Job → Job) : Service :=
  { s with job := fun k => if k = i then f (s.job k) else s.job k }

/-! ## Executing a job -/

/-- The worker is terminated, and is no longer the active one. -/
def cleanup (i : Nat) : Service :=
  if (s.job i).settled then s
  else
    { s.update i fun j => { j with settled := true, worker := .terminated } with
      activeWorker := if s.activeWorker = some i then none else s.activeWorker }

def fail (i : Nat) : Service := (s.cleanup i).update i (·.settleExecution .rejected)

def succeed (i : Nat) : Service := (s.cleanup i).update i (·.settleExecution .resolved)

/-- Up to where the worker has got the job. -/
def runInWorker (i : Nat) : Service :=
  let s := { s.update i fun j => { j with worker := .alive } with activeWorker := some i }
  if (s.job i).hasSignal && (s.job i).aborted then s.fail i else s

def execute (i : Nat) : Service := if useWorker then s.runInWorker i else s

/-- The head of the loop. -/
def loop : Service :=
  match s.taskQueue with
  | [] => { s with draining := false, current := none }
  | i :: rest =>
      { s with taskQueue := rest, current := some i, started := s.started ++ [i] }.execute
        useWorker i

def drainQueue : Service := if s.draining then s else { s with draining := true }.loop useWorker

def enqueueTask (j : Job) : Service :=
  let s' := { s with count := s.count + 1, job := fun k => if k = s.count then j else s.job k }
  if MAX_PENDING_JOBS ≤ s.taskQueue.length then s'.update s.count (·.settleResult .rejected)
  else { s' with taskQueue := s.taskQueue ++ [s.count] }.drainQueue useWorker

/-! ## Cancelling -/

def onAbort (i : Nat) : Service := s.fail i

/-- The signal of a job is aborted. -/
def abort (i : Nat) : Service :=
  if (s.job i).hasSignal && !(s.job i).aborted then
    let s' := s.update i fun j => { j with aborted := true }
    if (s.job i).listening then s'.onAbort i else s'
  else s

/-- The controllers of some transfers are aborted. -/
def abortTransfers (ids : List TransferId) : Service :=
  (List.range s.count).foldl
    (fun s i => if ∃ id ∈ ids, (s.job i).owner = some id then s.abort i else s) s

def rejectAll : Service :=
  { s with job := fun k => if k ∈ s.taskQueue then (s.job k).settleResult .rejected else s.job k }

def terminateActiveWorker : Service :=
  match s.activeWorker with
  | none => s
  | some i => { s.update i fun j => { j with worker := .terminated } with activeWorker := none }

/-- The `cancel` message to the worker comes too late, since the worker is terminated. -/
def cancelAll : Service := { s.rejectAll with taskQueue := [] }.terminateActiveWorker

end Service

/-! ## Steps -/

inductive CryptoWorkerOutbound
  | progress
  | answer
  | cancelled
  | error
  deriving DecidableEq, Repr

/-- A callback. `cancel` and `cancelTransfers` are the two functions of the transfer
queue, with the transfers that they find in its queues. -/
inductive Event
  | enqueue (owner : Option TransferId) (hasSignal aborted : Bool)
  | message (i : Nat) (msg : CryptoWorkerOutbound)
  | workerError (i : Nat)
  | inThread (i : Nat) (result : Settled)
  | resume
  | abort (i : Nat)
  | cancel (transferId : TransferId) (found : Bool)
  | cancelTransfers (found : List TransferId)

/-- The transfers whose controllers a cancellation aborts. -/
def Event.aborts : Event → List TransferId
  | .cancel transferId found => if found then [transferId] else []
  | .cancelTransfers found => found
  | _ => []

def step (useWorker : Bool) (s : Service) : Event → Option Service
  | .enqueue owner hasSignal aborted =>
      some (s.enqueueTask useWorker (.new owner hasSignal aborted))
  | .message i msg =>
      if i < s.count ∧ (s.job i).worker = .alive then
        match msg with
        | .progress => some s
        | .answer => some (s.succeed i)
        | .cancelled | .error => some (s.fail i)
      else none
  | .workerError i => if i < s.count ∧ (s.job i).worker = .alive then some (s.fail i) else none
  | .inThread i result =>
      if s.current = some i ∧ (s.job i).worker = .none ∧ (s.job i).execution = none then
        some (s.update i (·.settleExecution result))
      else none
  | .resume => s.current.bind fun i => (s.job i).execution.map fun r =>
      (s.update i (·.settleResult r)).loop useWorker
  | .abort i => if i < s.count then some (s.abort i) else none
  | .cancel transferId found =>
      some (s.abortTransfers (Event.cancel transferId found).aborts).cancelAll
  | .cancelTransfers found => some (s.abortTransfers (Event.cancelTransfers found).aborts).cancelAll

/-- The module: callbacks move the service. -/
def crypto (useWorker : Bool) : Server Service Empty Event where
  opens _ := false
  step p _ := p.elim
  env e s := step useWorker s e

/-! ## What an operation changes -/

namespace Service

variable {useWorker : Bool} {s : Service} {i k : Nat}

@[simp] theorem update_self (f : Job → Job) : (s.update i f).job i = f (s.job i) := if_pos rfl

theorem update_other (f : Job → Job) (h : k ≠ i) : (s.update i f).job k = s.job k := if_neg h

/-- Another state, in which one job has gone on. -/
structure Touches (i : Nat) (s s' : Service) : Prop where
  job : ∀ k, k ≠ i → s'.job k = s.job k
  owner : (s'.job i).owner = (s.job i).owner
  hasSignal : (s'.job i).hasSignal = (s.job i).hasSignal
  result : (s'.job i).result = (s.job i).result
  count : s'.count = s.count
  taskQueue : s'.taskQueue = s.taskQueue
  draining : s'.draining = s.draining
  current : s'.current = s.current
  started : s'.started = s.started

theorem Touches.refl (i : Nat) (s : Service) : Touches i s s :=
  ⟨fun _ _ => rfl, rfl, rfl, rfl, rfl, rfl, rfl, rfl, rfl⟩

theorem touches_update {f : Job → Job} (howner : (f (s.job i)).owner = (s.job i).owner)
    (hsignal : (f (s.job i)).hasSignal = (s.job i).hasSignal)
    (hresult : (f (s.job i)).result = (s.job i).result) : Touches i s (s.update i f) :=
  ⟨fun _ hk => update_other f hk, by rw [update_self, howner], by rw [update_self, hsignal],
    by rw [update_self, hresult], rfl, rfl, rfl, rfl, rfl⟩

theorem Touches.trans {s₁ s₂ : Service} (h : Touches i s s₁) (h' : Touches i s₁ s₂) :
    Touches i s s₂ :=
  ⟨fun k hk => (h'.job k hk).trans (h.job k hk), h'.owner.trans h.owner,
    h'.hasSignal.trans h.hasSignal, h'.result.trans h.result, h'.count.trans h.count,
    h'.taskQueue.trans h.taskQueue, h'.draining.trans h.draining, h'.current.trans h.current,
    h'.started.trans h.started⟩

theorem touches_cleanup : Touches i s (s.cleanup i) := by
  unfold cleanup
  split
  · exact .refl i s
  · exact ⟨fun k hk => if_neg hk, by simp [update], by simp [update], by simp [update], rfl, rfl,
      rfl, rfl, rfl⟩

theorem touches_fail : Touches i s (s.fail i) := touches_cleanup.trans (touches_update rfl rfl rfl)

/-- After a cleanup the worker is not at work, and no other has become active. -/
theorem cleanup_spec (h : (s.job i).worker = .alive → (s.job i).settled = false) :
    ((s.cleanup i).job i).worker ≠ .alive
      ∧ (s.activeWorker ≠ some i → (s.cleanup i).activeWorker = s.activeWorker)
      ∧ (s.activeWorker = some i → (s.job i).settled = false →
        (s.cleanup i).activeWorker = none) := by
  unfold cleanup
  by_cases hs : (s.job i).settled = true
  · rw [if_pos hs]
    refine ⟨fun ha => ?_, fun _ => rfl, fun _ hf => ?_⟩
    · rw [h ha] at hs
      cases hs
    · rw [hf] at hs
      cases hs
  · rw [if_neg hs]
    exact ⟨by simp [update], fun ha => if_neg ha, fun ha _ => if_pos ha⟩

/-- What the two ends of an execution have in common. -/
structure Ends (i : Nat) (s s' : Service) : Prop where
  touches : Touches i s s'
  execution : (s'.job i).execution.isSome = true
  worker : (s'.job i).worker ≠ .alive
  active : s.activeWorker ≠ some i → s'.activeWorker = s.activeWorker
  ended : s.activeWorker = some i → (s.job i).settled = false → s'.activeWorker = none

theorem ends_settle (h : (s.job i).worker = .alive → (s.job i).settled = false) (r : Settled) :
    Ends i s ((s.cleanup i).update i (·.settleExecution r)) := by
  obtain ⟨hworker, hactive, hended⟩ := cleanup_spec h
  refine ⟨touches_cleanup.trans (touches_update rfl rfl rfl), ?_, ?_, hactive, hended⟩
  · rw [update_self, Job.settleExecution]
    cases ((s.cleanup i).job i).execution <;> rfl
  · rw [update_self]
    exact hworker

end Service

/-! ## The invariant -/

open Service

/-- What a job is that the loop has not come to. -/
structure Waiting (j : Job) : Prop where
  worker : j.worker = .none
  execution : j.execution = none
  result : j.result = none
  settled : j.settled = false

/-- What is left of a job that the loop is done with, or never comes to. -/
structure Done (j : Job) : Prop where
  worker : j.worker ≠ .alive
  result : j.result.isSome = true

/-- The loop awaits a job that is being executed: in the active worker, with its signal
not aborted, or without a worker. -/
structure Executing (useWorker : Bool) (s : Service) (i : Nat) : Prop where
  execution : (s.job i).execution = none
  worker : (s.job i).worker = if useWorker then .alive else .none
  active : s.activeWorker = if useWorker then some i else none
  settled : (s.job i).settled = false
  signal : useWorker = true → (s.job i).hasSignal = true → (s.job i).aborted = false

/-- The loop awaits a job whose execution has settled. -/
structure Executed (s : Service) (i : Nat) : Prop where
  execution : (s.job i).execution.isSome = true
  worker : (s.job i).worker ≠ .alive
  active : s.activeWorker = none

/-- The jobs other than the current one. -/
structure Queued (s : Service) : Prop where
  waiting : ∀ i ∈ s.taskQueue, i < s.count ∧ s.current ≠ some i ∧ Waiting (s.job i)
  done : ∀ i < s.count, s.current ≠ some i → i ∉ s.taskQueue → Done (s.job i)
  order : (s.started ++ s.taskQueue).Pairwise (· < ·)
  known : ∀ i ∈ s.started, i < s.count

structure Sound (useWorker : Bool) (s : Service) : Prop where
  queued : Queued s
  idle : s.current = none → s.draining = false ∧ s.taskQueue = [] ∧ s.activeWorker = none
  busy : ∀ i, s.current = some i → s.draining = true ∧ i < s.count ∧ (s.job i).result = none
    ∧ (Executing useWorker s i ∨ Executed s i)

variable {useWorker : Bool} {s s' : Service} {i : Nat}

/-- A job has gone on, and if it is not the current one it has kept its place. -/
theorem Queued.touch (h : Queued s) (ht : Touches i s s')
    (hother : s.current ≠ some i →
      (Waiting (s.job i) → Waiting (s'.job i)) ∧ (Done (s.job i) → Done (s'.job i))) :
    Queued s' := by
  refine ⟨fun k hk => ?_, fun k hk hcur hq => ?_, ?_, fun k hk => ?_⟩
  · rw [ht.taskQueue] at hk
    obtain ⟨hlt, hcur, hw⟩ := h.waiting k hk
    refine ⟨ht.count ▸ hlt, ht.current ▸ hcur, ?_⟩
    by_cases hki : k = i
    · subst hki
      exact (hother hcur).1 hw
    · rw [ht.job k hki]
      exact hw
  · rw [ht.count] at hk
    rw [ht.current] at hcur
    rw [ht.taskQueue] at hq
    have hd := h.done k hk hcur hq
    by_cases hki : k = i
    · subst hki
      exact (hother hcur).2 hd
    · rw [ht.job k hki]
      exact hd
  · rw [ht.started, ht.taskQueue]
    exact h.order
  · rw [ht.started] at hk
    rw [ht.count]
    exact h.known k hk

/-- The current job has gone on. -/
theorem Sound.touch (h : Sound useWorker s) (hcur : s.current = some i) (ht : Touches i s s')
    (hnow : Executing useWorker s' i ∨ Executed s' i) : Sound useWorker s' := by
  refine ⟨h.queued.touch ht fun hne => absurd hcur hne, fun hnone => ?_, fun k hk => ?_⟩
  · rw [ht.current, hcur] at hnone
    cases hnone
  · rw [ht.current, hcur] at hk
    obtain rfl := Option.some.inj hk
    obtain ⟨hdraining, hlt, hresult, -⟩ := h.busy i hcur
    exact ⟨ht.draining.trans hdraining, ht.count ▸ hlt, ht.result.trans hresult, hnow⟩

/-- The loop is at its head. -/
structure Ready (s : Service) : Prop where
  draining : s.draining = true
  active : s.activeWorker = none
  waiting : ∀ i ∈ s.taskQueue, i < s.count ∧ Waiting (s.job i)
  done : ∀ i < s.count, i ∉ s.taskQueue → Done (s.job i)
  order : (s.started ++ s.taskQueue).Pairwise (· < ·)
  known : ∀ i ∈ s.started, i < s.count

theorem runInWorker_starts {s₁ : Service} (hw : Waiting (s₁.job i)) :
    Touches i s₁ (s₁.runInWorker i)
      ∧ (Executing true (s₁.runInWorker i) i ∨ Executed (s₁.runInWorker i) i) := by
  have ht : Touches i s₁
      { s₁.update i fun j => { j with worker := .alive } with activeWorker := some i } :=
    ⟨fun k hk => if_neg hk, by simp, by simp, by simp, rfl, rfl, rfl, rfl, rfl⟩
  unfold Service.runInWorker
  dsimp only
  split
  · have he := ends_settle (i := i)
      (s := { s₁.update i fun j => { j with worker := .alive } with activeWorker := some i })
      (fun _ => by simp [hw.settled]) .rejected
    exact ⟨ht.trans he.touches, .inr ⟨he.execution, he.worker,
      he.ended rfl (by simp [hw.settled])⟩⟩
  · rename_i hsignal
    refine ⟨ht, .inl ⟨by simp [hw.execution], by simp, rfl, by simp [hw.settled], fun _ hs => ?_⟩⟩
    simp only [update_self] at hs hsignal ⊢
    simpa [hs] using hsignal

theorem execute_starts (useWorker : Bool) (s₁ : Service) (hw : Waiting (s₁.job i))
    (hactive : s₁.activeWorker = none) :
    Touches i s₁ (s₁.execute useWorker i)
      ∧ (Executing useWorker (s₁.execute useWorker i) i ∨ Executed (s₁.execute useWorker i) i) := by
  cases useWorker with
  | true => exact runInWorker_starts hw
  | false =>
      exact ⟨.refl i s₁, .inl ⟨hw.execution, hw.worker, hactive, hw.settled, nofun⟩⟩

theorem Ready.loop (h : Ready s) : Sound useWorker (s.loop useWorker) := by
  unfold Service.loop
  split
  · rename_i hq
    refine ⟨⟨fun i hi => ?_, fun i hi _ _ => h.done i hi (by simp [hq]), h.order, h.known⟩,
      fun _ => ⟨rfl, hq, h.active⟩, nofun⟩
    rw [hq] at hi
    cases hi
  · rename_i i rest hq
    have horder : ((s.started ++ [i]) ++ rest).Pairwise (· < ·) := by
      simpa [hq] using h.order
    obtain ⟨hlt, hw⟩ := h.waiting i (by simp [hq])
    have hrest : ∀ k ∈ rest, i < k := by
      intro k hk
      exact (List.pairwise_append.mp horder).2.2 i (by simp) k hk
    obtain ⟨ht, hnow⟩ := execute_starts useWorker
      { s with taskQueue := rest, current := some i, started := s.started ++ [i] } hw h.active
    have hqueued : Queued
        { s with taskQueue := rest, current := some i, started := s.started ++ [i] } := by
      refine ⟨fun k hk => ?_, fun k hk hcur hq' => ?_, horder, fun k hk => ?_⟩
      · obtain ⟨hk', hw'⟩ := h.waiting k (by simp [hq, hk])
        refine ⟨hk', fun he => ?_, hw'⟩
        obtain rfl := Option.some.inj he
        exact absurd (hrest i hk) (Nat.lt_irrefl i)
      · refine h.done k hk ?_
        rw [hq]
        intro hm
        rcases List.mem_cons.mp hm with rfl | hm
        · exact hcur rfl
        · exact hq' hm
      · rcases List.mem_append.mp hk with hk | hk
        · exact h.known k hk
        · rwa [List.mem_singleton.mp hk]
    refine ⟨hqueued.touch ht fun hne => absurd rfl hne, fun hnone => ?_, fun k hk => ?_⟩
    · rw [ht.current] at hnone
      cases hnone
    · rw [ht.current] at hk
      obtain rfl := Option.some.inj hk
      exact ⟨ht.draining.trans h.draining, Nat.lt_of_lt_of_eq hlt ht.count.symm,
        ht.result.trans hw.result, hnow⟩

/-! ## One step -/

/-- The loop has settled the promise of the job that it awaited. -/
theorem Sound.resume (h : Sound useWorker s) {r : Settled} (hcur : s.current = some i)
    (hr : (s.job i).execution = some r) :
    Sound useWorker ((s.update i (·.settleResult r)).loop useWorker) := by
  obtain ⟨hdraining, -, -, hnow⟩ := h.busy i hcur
  have hexecuted : Executed s i := hnow.resolve_left fun he => by simp [he.execution] at hr
  refine Ready.loop ⟨hdraining, hexecuted.active, fun k hk => ?_, fun k hk hq => ?_,
    h.queued.order, h.queued.known⟩
  · obtain ⟨hlt, hne, hw⟩ := h.queued.waiting k hk
    refine ⟨hlt, ?_⟩
    rwa [update_other _ fun he => hne (by rw [he, hcur])]
  · by_cases hki : k = i
    · subst hki
      rw [update_self]
      refine ⟨hexecuted.worker, ?_⟩
      rw [Job.settleResult]
      cases (s.job k).result <;> rfl
    · rw [update_other _ hki]
      refine h.queued.done k hk (fun he => hki ?_) hq
      exact Option.some.inj (he.symm.trans hcur)

/-- Only the job that the loop awaits has a worker at work. -/
theorem Sound.alive (h : Sound useWorker s) (hlt : i < s.count) (ha : (s.job i).worker = .alive) :
    s.current = some i ∧ Executing useWorker s i := by
  by_cases hcur : s.current = some i
  · obtain ⟨-, -, -, hnow⟩ := h.busy i hcur
    exact ⟨hcur, hnow.resolve_right fun he => he.worker ha⟩
  · by_cases hq : i ∈ s.taskQueue
    · have hw := (h.queued.waiting i hq).2.2.worker
      rw [ha] at hw
      cases hw
    · exact absurd ha (h.queued.done i hlt hcur hq).worker

theorem Sound.settle (h : Sound useWorker s) (hlt : i < s.count) (ha : (s.job i).worker = .alive)
    (r : Settled) : Sound useWorker ((s.cleanup i).update i (·.settleExecution r)) := by
  obtain ⟨hcur, he⟩ := h.alive hlt ha
  have hends := ends_settle (fun _ => he.settled) r
  have huse : useWorker = true := by
    cases useWorker with
    | true => rfl
    | false => simp [he.worker] at ha
  refine h.touch hcur hends.touches (.inr ⟨hends.execution, hends.worker, ?_⟩)
  exact hends.ended (by rw [he.active, if_pos huse]) he.settled

theorem Sound.inThread (h : Sound useWorker s) (hcur : s.current = some i)
    (hw : (s.job i).worker = .none) (he : (s.job i).execution = none) (r : Settled) :
    Sound useWorker (s.update i (·.settleExecution r)) := by
  obtain ⟨-, -, -, hnow⟩ := h.busy i hcur
  have hexecuting : Executing useWorker s i := hnow.resolve_right fun hx => by
    simpa [he] using hx.execution
  have hactive := hexecuting.active
  have hworker := hexecuting.worker
  cases useWorker with
  | true => simp [hw] at hworker
  | false =>
      refine h.touch hcur (touches_update rfl rfl rfl) (.inr ⟨?_, ?_, hactive⟩)
      · simp [Job.settleExecution, he]
      · simp [Job.settleExecution, hw]

/-- Another state, in which a job has been added. -/
structure Adds (s s' : Service) : Prop where
  count : s'.count = s.count + 1
  job : ∀ k < s.count, s'.job k = s.job k
  current : s'.current = s.current
  active : s'.activeWorker = s.activeWorker
  started : s'.started = s.started
  new : (s'.taskQueue = s.taskQueue ∧ Done (s'.job s.count))
    ∨ (s'.taskQueue = s.taskQueue ++ [s.count] ∧ Waiting (s'.job s.count))

theorem Queued.add (h : Queued s) (ha : Adds s s') (hcur : s.current ≠ some s.count) :
    Queued s' := by
  have hwaiting : ∀ i ∈ s.taskQueue, i < s'.count ∧ s'.current ≠ some i ∧ Waiting (s'.job i) := by
    intro i hi
    obtain ⟨hlt, hne, hw⟩ := h.waiting i hi
    rw [ha.count, ha.current, ha.job i hlt]
    exact ⟨by omega, hne, hw⟩
  have hdone : ∀ i < s.count, s'.current ≠ some i → i ∉ s.taskQueue → Done (s'.job i) := by
    intro i hi hne hq
    rw [ha.job i hi]
    exact h.done i hi (ha.current ▸ hne) hq
  have hknown : ∀ i ∈ s'.started, i < s'.count := by
    intro i hi
    rw [ha.started] at hi
    have := h.known i hi
    rw [ha.count]
    omega
  rcases ha.new with ⟨hq, hd⟩ | ⟨hq, hw⟩
  · refine ⟨hq ▸ hwaiting, fun i hi hne hq' => ?_, ?_, hknown⟩
    · rw [ha.count] at hi
      rcases Nat.lt_succ_iff_lt_or_eq.mp hi with hi | rfl
      · exact hdone i hi hne (hq ▸ hq')
      · exact hd
    · rw [ha.started, hq]
      exact h.order
  · refine ⟨fun i hi => ?_, fun i hi hne hq' => ?_, ?_, hknown⟩
    · rw [hq] at hi
      rcases List.mem_append.mp hi with hi | hi
      · exact hwaiting i hi
      · obtain rfl := List.mem_singleton.mp hi
        exact ⟨by simp [ha.count], ha.current ▸ hcur, hw⟩
    · rw [hq] at hq'
      rw [ha.count] at hi
      rcases Nat.lt_succ_iff_lt_or_eq.mp hi with hi | rfl
      · exact hdone i hi hne fun hm => hq' (by simp [hm])
      · exact absurd (by simp) hq'
    · rw [ha.started, hq, ← List.append_assoc]
      refine List.pairwise_append.mpr ⟨h.order, List.pairwise_singleton _ _, fun i hi k hk => ?_⟩
      rw [List.mem_singleton.mp hk]
      rcases List.mem_append.mp hi with hi | hi
      · exact h.known i hi
      · exact (h.waiting i hi).1

theorem Sound.add (h : Sound useWorker s) (ha : Adds s s') (hdraining : s'.draining = s.draining)
    (hidle : s.current = none → s'.taskQueue = s.taskQueue) : Sound useWorker s' := by
  have hcur : s.current ≠ some s.count := by
    intro hc
    exact absurd (h.busy _ hc).2.1 (Nat.lt_irrefl _)
  refine ⟨h.queued.add ha hcur, fun hnone => ?_, fun i hi => ?_⟩
  · rw [ha.current] at hnone
    rw [hdraining, ha.active, hidle hnone]
    exact h.idle hnone
  · rw [ha.current] at hi
    obtain ⟨hd, hlt, hresult, hnow⟩ := h.busy i hi
    have hjob := ha.job i hlt
    refine ⟨hdraining.trans hd, ?_, hjob ▸ hresult, hnow.imp (fun he => ?_) fun he => ?_⟩
    · rw [ha.count]
      omega
    · exact ⟨hjob ▸ he.execution, hjob ▸ he.worker, ha.active ▸ he.active, hjob ▸ he.settled,
        hjob ▸ he.signal⟩
    · exact ⟨hjob ▸ he.execution, hjob ▸ he.worker, ha.active ▸ he.active⟩

theorem waiting_new (owner : Option TransferId) (hasSignal aborted : Bool) :
    Waiting (.new owner hasSignal aborted) :=
  ⟨rfl, rfl, rfl, rfl⟩

theorem Sound.enqueueTask (h : Sound useWorker s) {j : Job} (hj : Waiting j) :
    Sound useWorker (s.enqueueTask useWorker j) := by
  have hold : ∀ k < s.count, (if k = s.count then j else s.job k) = s.job k := fun k hk =>
    if_neg (Nat.ne_of_lt hk)
  unfold Service.enqueueTask
  dsimp only
  split
  · refine h.add ⟨rfl, fun k hk => ?_, rfl, rfl, rfl, .inl ⟨rfl, ?_⟩⟩ rfl fun _ => rfl
    · rw [update_other _ (Nat.ne_of_lt hk)]
      exact hold k hk
    · rw [update_self]
      exact ⟨by simp [Job.settleResult, hj.worker], by simp [Job.settleResult, hj.result]⟩
  · have hadds : Adds s { s with
        count := s.count + 1, job := fun k => if k = s.count then j else s.job k,
        taskQueue := s.taskQueue ++ [s.count] } :=
      ⟨rfl, hold, rfl, rfl, rfl, .inr ⟨rfl, by simpa using hj⟩⟩
    unfold Service.drainQueue
    by_cases hd : s.draining = true
    · rw [if_pos hd]
      refine h.add hadds rfl fun hnone => ?_
      rw [(h.idle hnone).1] at hd
      cases hd
    · rw [if_neg hd]
      have hnone : s.current = none := by
        cases hc : s.current with
        | none => rfl
        | some i => exact absurd (h.busy i hc).1 hd
      have hq := h.queued.add hadds (by simp [hnone])
      exact Ready.loop ⟨rfl, (h.idle hnone).2.2, fun i hi => ⟨(hq.waiting i hi).1,
        (hq.waiting i hi).2.2⟩, fun i hi hn => hq.done i hi (by simp [hnone]) hn, hq.order,
        hq.known⟩

/-! ## Aborting -/

theorem touches_abort : Touches i s (s.abort i) := by
  unfold Service.abort
  split
  · have ht : Touches i s (s.update i fun j => { j with aborted := true }) :=
      touches_update rfl rfl rfl
    dsimp only
    split
    · exact ht.trans touches_fail
    · exact ht
  · exact .refl i s

/-- What the abort of a job's signal leaves as it is. -/
theorem abort_spec (hw : (s.job i).worker = .alive → (s.job i).settled = false) :
    (s.activeWorker ≠ some i → (s.abort i).activeWorker = s.activeWorker)
      ∧ (Waiting (s.job i) → Waiting ((s.abort i).job i))
      ∧ ((s.job i).worker ≠ .alive → ((s.abort i).job i).worker ≠ .alive)
      ∧ ((s.job i).execution.isSome = true → ((s.abort i).job i).execution.isSome = true) := by
  unfold Service.abort
  split
  · dsimp only
    split
    · rename_i hlistening
      have hends := ends_settle (i := i) (s := s.update i fun j => { j with aborted := true })
        (fun ha => by simpa using hw (by simpa using ha)) .rejected
      refine ⟨hends.active, fun hwait => ?_, fun _ => hends.worker, fun _ => hends.execution⟩
      simp [Job.listening, hwait.worker] at hlistening
    · refine ⟨fun _ => rfl, fun hwait => ?_, fun hd => by rwa [update_self], fun he => by
        rwa [update_self]⟩
      rw [update_self]
      exact ⟨hwait.worker, hwait.execution, hwait.result, hwait.settled⟩
  · exact ⟨fun _ => rfl, id, id, id⟩

/-- Where the worker is at work on a job with a signal, the abort ends both. -/
theorem abort_ends (he : Executing true s i) (hsignal : (s.job i).hasSignal = true) :
    Executed (s.abort i) i := by
  have haborted := he.signal rfl hsignal
  have hworker : (s.job i).worker = .alive := he.worker
  have hlistening : (s.job i).listening = true := by
    simp [Job.listening, hsignal, hworker, he.settled]
  have hends := ends_settle (i := i) (s := s.update i fun j => { j with aborted := true })
    (fun _ => by simpa using he.settled) .rejected
  unfold Service.abort
  rw [if_pos (by simp [hsignal, haborted])]
  dsimp only
  rw [if_pos hlistening]
  exact ⟨hends.execution, hends.worker, hends.ended he.active (by simpa using he.settled)⟩

/-- A job other than the one that went on is executed as before. -/
theorem now_of_touches {k : Nat} (ht : Touches i s s') (hki : k ≠ i)
    (hactive : s.activeWorker ≠ some i → s'.activeWorker = s.activeWorker)
    (h : Executing useWorker s k ∨ Executed s k) : Executing useWorker s' k ∨ Executed s' k := by
  have hjob := ht.job k hki
  rcases h with he | he
  · refine .inl ⟨hjob ▸ he.execution, hjob ▸ he.worker, ?_, hjob ▸ he.settled, hjob ▸ he.signal⟩
    rw [hactive, he.active]
    rw [he.active]
    cases useWorker <;> simp [hki]
  · refine .inr ⟨hjob ▸ he.execution, hjob ▸ he.worker, ?_⟩
    rw [hactive (by simp [he.active]), he.active]

theorem Sound.abort (h : Sound useWorker s) (hlt : i < s.count) :
    Sound useWorker (s.abort i) := by
  have hsettled : (s.job i).worker = .alive → (s.job i).settled = false := fun ha =>
    (h.alive hlt ha).2.settled
  have ht : Touches i s (s.abort i) := touches_abort
  obtain ⟨hactive, hwaiting, hworker, hexecution⟩ := abort_spec hsettled
  by_cases hcur : s.current = some i
  · obtain ⟨-, -, -, he | he⟩ := h.busy i hcur
    · cases useWorker with
      | true =>
          by_cases hsignal : (s.job i).hasSignal = true
          · exact h.touch hcur ht (.inr (abort_ends he hsignal))
          · have : s.abort i = s := by simp [Service.abort, hsignal]
            rwa [this]
      | false =>
          refine h.touch hcur ht (.inl ?_)
          have hnone : (s.job i).worker = .none := he.worker
          unfold Service.abort
          split
          · dsimp only
            rw [if_neg (by simp [Job.listening, hnone])]
            exact ⟨by simpa using he.execution, by simpa using hnone, he.active,
              by simpa using he.settled, nofun⟩
          · exact he
    · refine h.touch hcur ht (.inr ⟨hexecution he.execution, hworker he.worker, ?_⟩)
      rw [hactive (by simp [he.active]), he.active]
  · refine ⟨h.queued.touch ht fun _ => ⟨hwaiting, fun hd => ?_⟩, fun hnone => ?_, fun k hk => ?_⟩
    · exact ⟨hworker hd.worker, ht.result ▸ hd.result⟩
    · rw [ht.current] at hnone
      obtain ⟨hdraining, hq, ha⟩ := h.idle hnone
      refine ⟨ht.draining.trans hdraining, ht.taskQueue.trans hq, ?_⟩
      rw [hactive (by simp [ha]), ha]
    · rw [ht.current] at hk
      have hki : k ≠ i := fun he => hcur (he ▸ hk)
      obtain ⟨hdraining, hlt', hresult, hnow⟩ := h.busy k hk
      exact ⟨ht.draining.trans hdraining, ht.count.symm ▸ hlt', ht.job k hki ▸ hresult,
        now_of_touches ht hki hactive hnow⟩

theorem Sound.active (h : Sound useWorker s) (ha : s.activeWorker = some i) :
    s.current = some i ∧ Executing true s i := by
  cases hcur : s.current with
  | none =>
      rw [(h.idle hcur).2.2] at ha
      cases ha
  | some k =>
      obtain ⟨-, -, -, he | he⟩ := h.busy k hcur
      · have hactive := he.active
        rw [ha] at hactive
        cases useWorker with
        | false => cases hactive
        | true =>
            obtain rfl := Option.some.inj hactive
            exact ⟨rfl, he⟩
      · rw [he.active] at ha
        cases ha

/-- Another state, in which signals of some transfers have been aborted. -/
structure Aborts (ids : List TransferId) (s s' : Service) : Prop where
  other : ∀ k, (¬ ∃ id ∈ ids, (s.job k).owner = some id) → s'.job k = s.job k
  owner : ∀ k, (s'.job k).owner = (s.job k).owner
  hasSignal : ∀ k, (s'.job k).hasSignal = (s.job k).hasSignal
  count : s'.count = s.count
  taskQueue : s'.taskQueue = s.taskQueue
  active : s.activeWorker = none → s'.activeWorker = none

variable {ids : List TransferId}

theorem Aborts.refl (ids : List TransferId) (s : Service) : Aborts ids s s :=
  ⟨fun _ _ => rfl, fun _ => rfl, fun _ => rfl, rfl, rfl, id⟩

theorem Aborts.trans {s₁ s₂ : Service} (h : Aborts ids s s₁) (h' : Aborts ids s₁ s₂) :
    Aborts ids s s₂ := by
  refine ⟨fun k hk => ?_, fun k => (h'.owner k).trans (h.owner k),
    fun k => (h'.hasSignal k).trans (h.hasSignal k), h'.count.trans h.count,
    h'.taskQueue.trans h.taskQueue, h'.active ∘ h.active⟩
  rw [h'.other k (by rwa [h.owner k]), h.other k hk]

theorem aborts_abort (h : Sound useWorker s) (hlt : i < s.count)
    (howner : ∃ id ∈ ids, (s.job i).owner = some id) : Aborts ids s (s.abort i) := by
  have ht : Touches i s (s.abort i) := touches_abort
  have hactive := (abort_spec fun ha => (h.alive hlt ha).2.settled).1
  refine ⟨fun k hk => ht.job k fun he => hk (he ▸ howner), fun k => ?_, fun k => ?_, ht.count,
    ht.taskQueue, fun hnone => ?_⟩
  · by_cases hki : k = i
    · rw [hki, ht.owner]
    · rw [ht.job k hki]
  · by_cases hki : k = i
    · rw [hki, ht.hasSignal]
    · rw [ht.job k hki]
  · rw [hactive (by simp [hnone]), hnone]

/-- All signals of the transfers are aborted, and the active worker with its job's. -/
theorem Sound.abortAll (ids : List TransferId) {l : List Nat} : ∀ {s : Service}, Sound useWorker s →
    (∀ i ∈ l, i < s.count) → ∀ s', s' = l.foldl
      (fun s i => if ∃ id ∈ ids, (s.job i).owner = some id then s.abort i else s) s →
    Sound useWorker s' ∧ Aborts ids s s'
      ∧ ∀ i ∈ l, s.activeWorker = some i → (s.job i).hasSignal = true →
        (∃ id ∈ ids, (s.job i).owner = some id) → s'.activeWorker = none := by
  induction l with
  | nil =>
      intro s h _ s' hs'
      rw [hs']
      exact ⟨h, .refl ids s, nofun⟩
  | cons k l ih =>
      intro s h hl s' hs'
      rw [List.foldl_cons] at hs'
      by_cases howner : ∃ id ∈ ids, (s.job k).owner = some id
      · rw [if_pos howner] at hs'
        have hlt := hl k (by simp)
        have ha := aborts_abort h hlt howner
        obtain ⟨hsound, haborts, hends⟩ := ih (h.abort hlt)
          (fun i hi => ha.count.symm ▸ hl i (by simp [hi])) s' hs'
        refine ⟨hsound, ha.trans haborts, fun i hi hactive hsignal hi' => ?_⟩
        by_cases hik : i = k
        · subst hik
          exact haborts.active (abort_ends (h.active hactive).2 hsignal).active
        · have hi := (List.mem_cons.mp hi).resolve_left hik
          refine hends i hi ?_ (by rwa [ha.hasSignal]) (by rwa [ha.owner])
          have hkept := (abort_spec fun ha => (h.alive hlt ha).2.settled).1
          rw [hkept (by simp [hactive, hik]), hactive]
      · rw [if_neg howner] at hs'
        obtain ⟨hsound, haborts, hends⟩ := ih h (fun i hi => hl i (by simp [hi])) s' hs'
        refine ⟨hsound, haborts, fun i hi hactive hsignal hi' => ?_⟩
        by_cases hik : i = k
        · exact absurd (hik ▸ hi') howner
        · exact hends i ((List.mem_cons.mp hi).resolve_left hik) hactive hsignal hi'

/-- No worker is at work: the waiting jobs are rejected, and the others stay as they are. -/
theorem Sound.cancelAll (h : Sound useWorker s) (hactive : s.activeWorker = none) :
    Sound useWorker s.cancelAll ∧ s.cancelAll.count = s.count
      ∧ ∀ k, k ∉ s.taskQueue → s.cancelAll.job k = s.job k := by
  have hcancel : s.cancelAll = { s.rejectAll with taskQueue := [] } := by
    unfold Service.cancelAll Service.terminateActiveWorker
    rw [show ({ s.rejectAll with taskQueue := [] } : Service).activeWorker = none from hactive]
  have hother : ∀ k, k ∉ s.taskQueue → s.rejectAll.job k = s.job k := fun k hk => if_neg hk
  rw [hcancel]
  refine ⟨⟨⟨nofun, fun i hi hne _ => ?_, ?_, h.queued.known⟩, fun hnone => ?_, fun i hi => ?_⟩,
    rfl, hother⟩
  · by_cases hq : i ∈ s.taskQueue
    · have hjob : s.rejectAll.job i = (s.job i).settleResult .rejected := if_pos hq
      have hw := (h.queued.waiting i hq).2.2
      show Done (s.rejectAll.job i)
      rw [hjob]
      exact ⟨by simp [Job.settleResult, hw.worker], by simp [Job.settleResult, hw.result]⟩
    · show Done (s.rejectAll.job i)
      rw [hother i hq]
      exact h.queued.done i hi hne hq
  · exact (List.append_nil _).symm ▸ (List.pairwise_append.mp h.queued.order).1
  · exact ⟨(h.idle hnone).1, rfl, hactive⟩
  · obtain ⟨hdraining, hlt, hresult, hnow⟩ := h.busy i hi
    have hq : i ∉ s.taskQueue := fun hm => (h.queued.waiting i hm).2.1 hi
    have hjob := hother i hq
    refine ⟨hdraining, hlt, ?_, hnow.imp (fun he => ?_) fun he => ?_⟩
    · exact hjob.symm ▸ hresult
    · exact ⟨hjob.symm ▸ he.execution, hjob.symm ▸ he.worker, he.active, hjob.symm ▸ he.settled,
        hjob.symm ▸ he.signal⟩
    · exact ⟨hjob.symm ▸ he.execution, hjob.symm ▸ he.worker, he.active⟩

/-! ## Every run -/

/-- Where a cancellation of some transfers does no harm: the worker at work is on a job
of theirs, which their signals reach, and where one transfer is cancelled the waiting
jobs are its own. -/
def OrderlyEvent (s : Service) : Event → Prop
  | .cancel transferId found =>
      (∀ i ∈ s.taskQueue, (s.job i).owner = some transferId)
        ∧ ∀ i ∈ s.activeWorker, (s.job i).hasSignal = true
          ∧ ∃ id ∈ (Event.cancel transferId found).aborts, (s.job i).owner = some id
  | .cancelTransfers found => ∀ i ∈ s.activeWorker, (s.job i).hasSignal = true
      ∧ ∃ id ∈ found, (s.job i).owner = some id
  | _ => True

def Orderly (c : Conf Service Empty) : Action Empty Event → Prop
  | .env event => OrderlyEvent c.store event
  | _ => True

/-- A cancellation ends the worker at work through the signal of its job. -/
theorem Sound.cancelAborted (h : Sound useWorker s) {ids : List TransferId}
    (hactive : ∀ i ∈ s.activeWorker, (s.job i).hasSignal = true
      ∧ ∃ id ∈ ids, (s.job i).owner = some id) :
    Sound useWorker (s.abortTransfers ids).cancelAll
      ∧ ∀ i, i ∉ s.taskQueue → (¬ ∃ id ∈ ids, (s.job i).owner = some id) →
        (s.abortTransfers ids).cancelAll.job i = s.job i := by
  obtain ⟨hsound, haborts, hends⟩ := h.abortAll ids (l := List.range s.count)
    (fun i hi => List.mem_range.mp hi) (s.abortTransfers ids) rfl
  have hnone : (s.abortTransfers ids).activeWorker = none := by
    cases ha : s.activeWorker with
    | none => exact haborts.active ha
    | some i =>
        obtain ⟨hsignal, howner⟩ := hactive i ha
        have hlt := (h.busy i (h.active ha).1).2.1
        exact hends i (List.mem_range.mpr hlt) ha hsignal howner
  obtain ⟨hcancelled, -, hother⟩ := hsound.cancelAll hnone
  refine ⟨hcancelled, fun i hq howner => ?_⟩
  rw [hother i (haborts.taskQueue ▸ hq), haborts.other i howner]

theorem step_sound {event : Event} (h : Sound useWorker s) (ho : OrderlyEvent s event)
    (hs : step useWorker s event = some s') : Sound useWorker s' := by
  cases event with
  | enqueue owner hasSignal aborted =>
      obtain rfl := Option.some.inj hs
      exact h.enqueueTask (waiting_new owner hasSignal aborted)
  | message i msg =>
      simp only [step] at hs
      split at hs
      · rename_i hi
        cases msg with
        | progress =>
            obtain rfl := Option.some.inj hs
            exact h
        | answer =>
            obtain rfl := Option.some.inj hs
            exact h.settle hi.1 hi.2 .resolved
        | cancelled =>
            obtain rfl := Option.some.inj hs
            exact h.settle hi.1 hi.2 .rejected
        | error =>
            obtain rfl := Option.some.inj hs
            exact h.settle hi.1 hi.2 .rejected
      · cases hs
  | workerError i =>
      simp only [step] at hs
      split at hs
      · rename_i hi
        obtain rfl := Option.some.inj hs
        exact h.settle hi.1 hi.2 .rejected
      · cases hs
  | inThread i result =>
      simp only [step] at hs
      split at hs
      · rename_i hi
        obtain rfl := Option.some.inj hs
        exact h.inThread hi.1 hi.2.1 hi.2.2 result
      · cases hs
  | resume =>
      obtain ⟨i, hcur, hs⟩ := Option.bind_eq_some_iff.mp hs
      obtain ⟨r, hr, rfl⟩ := Option.map_eq_some_iff.mp hs
      exact h.resume hcur hr
  | abort i =>
      simp only [step] at hs
      split at hs
      · rename_i hi
        obtain rfl := Option.some.inj hs
        exact h.abort hi
      · cases hs
  | cancel transferId found =>
      obtain rfl := Option.some.inj hs
      exact (h.cancelAborted ho.2).1
  | cancelTransfers found =>
      obtain rfl := Option.some.inj hs
      exact (h.cancelAborted ho).1

theorem sound_empty : Sound useWorker .empty :=
  ⟨⟨nofun, fun i hi => absurd hi (Nat.not_lt_zero i), List.Pairwise.nil, nofun⟩,
    fun _ => ⟨rfl, rfl, rfl⟩, nofun⟩

theorem sound_preserved : (crypto useWorker).Preserves Orderly fun c => Sound useWorker c.store :=
  ⟨fun _ p => p.elim, fun _ _ p => p.elim, fun _ _ _ hi hg he => step_sound hi hg he⟩

/-! ## The queue never wedges -/

/-- The worker of a job has answered, failed, been aborted or been terminated, or the job
has been executed without one. -/
def Job.ended (j : Job) : Bool := j.worker == .terminated || j.execution.isSome

/-- A job that has ended is settled, but for the one that the loop is about to settle;
the loop runs only where it awaits a job that is executed or has been; one worker is at
work at most, and the jobs are taken in the order of their numbers. -/
structure Healthy (s : Service) : Prop where
  settles : ∀ i < s.count, (s.job i).ended = true →
    (s.job i).result.isSome = true ∨ (s.current = some i ∧ (s.job i).execution.isSome = true)
  draining : s.draining = true → ∃ i, s.current = some i
    ∧ ((s.job i).running = true ∨ (s.job i).execution.isSome = true)
  idle : s.draining = false → s.taskQueue = [] ∧ ∀ i < s.count, (s.job i).result.isSome = true
  single : ∀ i < s.count, (s.job i).worker = .alive → s.current = some i
  order : (s.started ++ s.taskQueue).Pairwise (· < ·)

/-- The jobs of the other transfers stay as they are, and so do their places in the queue. -/
def Spares (transferId : TransferId) (s s' : Service) : Prop :=
  ∀ i < s.count, (s.job i).owner ≠ some transferId →
    s'.job i = s.job i ∧ (i ∈ s.taskQueue → i ∈ s'.taskQueue)

theorem Sound.healthy (h : Sound useWorker s) : Healthy s := by
  refine ⟨fun i hi hended => ?_, fun hd => ?_, fun hd => ?_, fun i hi ha => (h.alive hi ha).1,
    h.queued.order⟩
  · by_cases hcur : s.current = some i
    · obtain ⟨-, -, -, he | he⟩ := h.busy i hcur
      · have hworker := he.worker
        simp only [Job.ended, he.execution, Bool.or_eq_true, beq_iff_eq] at hended
        rcases hended with hw | hx
        · rw [hw] at hworker
          cases useWorker <;> cases hworker
        · cases hx
      · exact .inr ⟨hcur, he.execution⟩
    · by_cases hq : i ∈ s.taskQueue
      · have hw := (h.queued.waiting i hq).2.2
        simp [Job.ended, hw.worker, hw.execution] at hended
      · exact .inl (h.queued.done i hi hcur hq).result
  · cases hcur : s.current with
    | none =>
        rw [(h.idle hcur).1] at hd
        cases hd
    | some i =>
        obtain ⟨-, -, -, he | he⟩ := h.busy i hcur
        · refine ⟨i, rfl, .inl ?_⟩
          have hworker := he.worker
          cases useWorker <;> simp [Job.running, he.execution, hworker]
        · exact ⟨i, rfl, .inr he.execution⟩
  · have hcur : s.current = none := by
      cases hc : s.current with
      | none => rfl
      | some i =>
          rw [(h.busy i hc).1] at hd
          cases hd
    have hq := (h.idle hcur).2.1
    exact ⟨hq, fun i hi => (h.queued.done i hi (by simp [hcur]) (by simp [hq])).result⟩

/-- In every run in which a cancellation finds the worker at work on a job that it
aborts, and the cancellation of one transfer no waiting job of another: the queue never
wedges, and no transfer's cancellation touches the jobs of the others. -/
theorem jobs_settle {c : Conf Service Empty}
    (h : (crypto useWorker).Run Orderly ⟨.empty, []⟩ c) :
    Healthy c.store ∧ ∀ transferId found, OrderlyEvent c.store (.cancel transferId found) →
      ∀ s', step useWorker c.store (.cancel transferId found) = some s' →
        Spares transferId c.store s' := by
  have hsound : Sound useWorker c.store := h.invariant sound_preserved sound_empty
  refine ⟨hsound.healthy, fun transferId found ho s' hs i hi howner => ?_⟩
  obtain rfl := Option.some.inj hs
  have hq : i ∉ c.store.taskQueue := fun hm => howner (ho.1 i hm)
  refine ⟨(hsound.cancelAborted ho.2).2 i hq ?_, fun hm => absurd hm hq⟩
  rintro ⟨id, hid, he⟩
  cases found with
  | false => cases hid
  | true => exact howner (he.trans (congrArg some (List.mem_singleton.mp hid)))

instance (s : Service) : (event : Event) → Decidable (OrderlyEvent s event)
  | .cancel transferId found => inferInstanceAs <| Decidable <|
      (∀ i ∈ s.taskQueue, (s.job i).owner = some transferId)
        ∧ ∀ i ∈ s.activeWorker, (s.job i).hasSignal = true
          ∧ ∃ id ∈ (Event.cancel transferId found).aborts, (s.job i).owner = some id
  | .cancelTransfers found => inferInstanceAs <| Decidable <|
      ∀ i ∈ s.activeWorker, (s.job i).hasSignal = true ∧ ∃ id ∈ found, (s.job i).owner = some id
  | .enqueue .. | .message .. | .workerError _ | .inThread .. | .resume | .abort _ =>
      .isTrue trivial

def isOrderly (c : Conf Service Empty) : Action Empty Event → Bool
  | .env event => OrderlyEvent c.store event
  | _ => true

theorem orderly_of_isOrderly (c : Conf Service Empty) {a : Action Empty Event}
    (h : isOrderly c a = true) : Orderly c a := by
  cases a with
  | env event => exact of_decide_eq_true (p := OrderlyEvent c.store event) h
  | _ => trivial

/-- An upload is cancelled while the worker is at work on its first job and the second one
waits; the job of a download comes after them. -/
def cancelled : List (Action Empty Event) :=
  [.env (.enqueue (some ⟨.upload, 0⟩) true false), .env (.enqueue (some ⟨.upload, 0⟩) true false),
    .env (.cancel ⟨.upload, 0⟩ true), .env .resume,
    .env (.enqueue (some ⟨.download, 1⟩) true false), .env (.message 2 .answer), .env .resume]

theorem jobs_settle_cancelled : ∃ c, (crypto true).Run Orderly ⟨.empty, []⟩ c
    ∧ (List.range 3).map (fun i => (c.store.job i).result)
      = [some .rejected, some .rejected, some .resolved] ∧ Healthy c.store := by
  obtain ⟨c, hrun, hq⟩ : ∃ c, (crypto true).Run Orderly ⟨.empty, []⟩ c
      ∧ decide ((List.range 3).map (fun i => (c.store.job i).result)
        = [some .rejected, some .rejected, some .resolved]) = true :=
    (crypto true).exists_run_of_execWhile isOrderly ⟨.empty, []⟩ cancelled _
      (fun c _ => orderly_of_isOrderly c) (by decide)
  exact ⟨c, hrun, of_decide_eq_true hq, (jobs_settle hrun).1⟩

/-- The cancellation of another transfer ends the worker, and the loop awaits its job
forever; and it rejects the job that waits. -/
theorem cancel_wedges :
    (¬ ∀ c, (crypto true).Reach ⟨.empty, []⟩ c → Healthy c.store)
    ∧ ¬ ∀ c, (crypto true).Reach ⟨.empty, []⟩ c → ∀ transferId found s',
      step true c.store (.cancel transferId found) = some s' → Spares transferId c.store s' := by
  refine ⟨fun hall => ?_, fun hall => ?_⟩
  · obtain ⟨c, hrun, hq⟩ := (crypto true).exists_reach_of_exec ⟨.empty, []⟩
      [.env (.enqueue (some ⟨.upload, 0⟩) true false), .env (.cancel ⟨.download, 1⟩ false)]
      (fun c => c.store.draining && c.store.current == some 0 && !(c.store.job 0).running
        && (c.store.job 0).execution.isNone) (by decide)
    simp only [Bool.and_eq_true, Bool.not_eq_true', beq_iff_eq, Option.isNone_iff_eq_none] at hq
    obtain ⟨⟨⟨hdraining, hcur⟩, hrunning⟩, hexecution⟩ := hq
    obtain ⟨i, hi, hnow⟩ := (hall c hrun).draining hdraining
    obtain rfl := Option.some.inj (hcur.symm.trans hi)
    rw [hrunning, hexecution] at hnow
    rcases hnow with h | h <;> cases h
  · obtain ⟨c, hrun, hq⟩ := (crypto true).exists_reach_of_exec ⟨.empty, []⟩
      [.env (.enqueue (some ⟨.upload, 0⟩) true false),
        .env (.enqueue (some ⟨.upload, 1⟩) true false)]
      (fun c => decide (1 < c.store.count) && (c.store.job 1).owner != some ⟨.download, 1⟩
        && ((c.store.abortTransfers []).cancelAll.job 1).result != (c.store.job 1).result)
      (by decide)
    simp only [Bool.and_eq_true, bne_iff_ne, decide_eq_true_eq] at hq
    obtain ⟨⟨hlt, howner⟩, hresult⟩ := hq
    exact hresult (congrArg Job.result
      (hall c hrun ⟨.download, 1⟩ false _ rfl 1 hlt howner).1)

end CryptoService

end BurnedChats

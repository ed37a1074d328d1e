import Mathlib.Data.List.Basic
import Mathlib.Tactic.Cases
import BurnedChats.Lib.Interleave

/-!
# The transfer queue

Uploads wait in one queue and run one at a time, downloads in another and run
two at a time. A `drain` starts a call of `processEntry` for every queued entry
it finds while its counter is below the maximum; the call makes up to four
attempts, sleeping before each retry with the entry put back to `queued`, and
its `finally` counts the slot free and drains again.

JavaScript runs each callback to its end, so a step is a whole callback: a
function of the module that is called, the end of an `execute`, the end of a
sleep, a `finally`, a report of progress. What may happen between two of them
is any other callback. The calls of `processEntry` stand with the entry they
process.

Two accounts are kept. The counters agree with the calls whose `finally` is
outstanding as long as `cancelAll` finds none (`limits_hold`). An entry has one
call at most, and ends once, as long as no drain picks an entry that waits for
its retry and no `execute` of a cancelled entry succeeds (`ends_once`).
-/

namespace BurnedChats

open Interleave

namespace TransferQueue

/-! ## Entries -/

inductive TransferStatus
  | queued
  | in_progress
  | completed
  | failed
  | cancelled
  deriving DecidableEq, Repr

inductive TransferType
  | upload
  | download
  deriving DecidableEq, Repr

def MAX_UPLOAD_CONCURRENT : Nat := 1
def MAX_DOWNLOAD_CONCURRENT : Nat := 2
def MAX_RETRIES : Nat := 3
def PRIORITY_THUMBNAIL : Nat := 10
def PRIORITY_NORMAL : Nat := 0

def maxConcurrent : TransferType → Nat
  | .upload => MAX_UPLOAD_CONCURRENT
  | .download => MAX_DOWNLOAD_CONCURRENT

/-- How a promise settled. -/
inductive Settled
  | resolved
  | rejected
  deriving DecidableEq, Repr

/-- Where a call of `processEntry` stands: it awaits `execute` or the sleep
before an attempt, it has returned, or its `finally` has run too. -/
inductive Point
  | executing (attempt : Nat)
  | sleeping (attempt : Nat)
  | returned
  | finalized
  deriving DecidableEq, Repr

/-- A call of `processEntry`, with the queue whose drain made it. -/
structure Call where
  queue : TransferType
  point : Point
  deriving DecidableEq, Repr

/-- `result` is how the promise of the handle has settled, `executed` counts
the calls of `execute`. -/
structure QueueEntry where
  type : TransferType
  priority : Nat
  status : TransferStatus
  progress : Nat
  aborted : Bool
  result : Option Settled
  executed : Nat
  calls : List Call
  deriving DecidableEq, Repr

/-- An id as it is printed into a string: the type and the number. -/
structure TransferId where
  type : TransferType
  number : Nat
  deriving DecidableEq, Repr

/-! ## Errors -/

inductive FileTransferErrorKind
  | network
  | aborted
  | payload_too_large
  | rate_limited
  | unauthorized
  | forbidden
  | not_found
  | decrypt_failed
  | bad_request
  | server_error
  | unknown
  deriving DecidableEq, Repr

inductive TransferError
  | domException (name message : String)
  | fileTransferError (kind : FileTransferErrorKind) (retryable : Bool)
  | error (message : String)
  | other
  deriving DecidableEq, Repr

/-- The first three digits in a row, as a number. -/
def firstCode : List Char → Option Nat
  | a :: b :: c :: rest =>
      if a.isDigit && b.isDigit && c.isDigit then
        some ((a.toNat - 48) * 100 + (b.toNat - 48) * 10 + (c.toNat - 48))
      else firstCode (b :: c :: rest)
  | _ => none

def isAbortError : TransferError → Bool
  | .domException name _ => name = "AbortError"
  | .fileTransferError kind _ => kind = .aborted
  | _ => false

def isClientErrorMessage (message : String) : Bool :=
  match firstCode message.toList with
  | some code => 400 ≤ code && code < 500
  | none => false

def isClientError : TransferError → Bool
  | .fileTransferError _ retryable => !retryable
  | .domException _ message => isClientErrorMessage message
  | .error message => isClientErrorMessage message
  | .other => false

/-! ## Processing an entry -/

namespace QueueEntry

variable (e : QueueEntry)

def isCancelled : Bool := e.status = .cancelled

/-- A promise settles once. -/
def resolve : QueueEntry := { e with result := e.result.or (some .resolved) }

def reject : QueueEntry := { e with result := e.result.or (some .rejected) }

/-- The k-th call goes on to a point. -/
def goesTo (k : Nat) (point : Point) : QueueEntry :=
  { e with calls := e.calls.modify k fun call => { call with point } }

/-- The loop of `processEntry` from its head on, up to where it waits or
returns, and whether the entry leaves its queue. -/
def loop (k attempt : Nat) : QueueEntry × Bool :=
  if attempt ≤ MAX_RETRIES then
    if e.isCancelled then (e.goesTo k .returned, false)
    else if 0 < attempt then (e.goesTo k (.sleeping attempt), false)
    else ({ e with status := .in_progress, progress := 0, executed := e.executed + 1 }.goesTo k
      (.executing attempt), false)
  else ({ e with status := .failed }.reject.goesTo k .returned, true)

/-- After the sleep. -/
def wake (k attempt : Nat) : QueueEntry :=
  if e.isCancelled then e.goesTo k .returned
  else { e with status := .in_progress, progress := 0, executed := e.executed + 1 }.goesTo k
    (.executing attempt)

/-- After `execute`. -/
def executes (k attempt : Nat) : Except TransferError Unit → QueueEntry × Bool
  | .ok _ => ({ e with status := .completed, progress := 100 }.resolve.goesTo k .returned, true)
  | .error err =>
      if e.isCancelled then (e.goesTo k .returned, false)
      else if isAbortError err then
        ({ e with status := .cancelled }.reject.goesTo k .returned, true)
      else if isClientError err || attempt = MAX_RETRIES then
        ({ e with status := .failed, progress := 0 }.reject.goesTo k .returned, true)
      else { e with status := .queued, progress := 0 }.loop k (attempt + 1)

/-- What `cancel` does to an entry. -/
def cancel : QueueEntry := { e with status := .cancelled, aborted := true }.reject

end QueueEntry

/-! ## Queues -/

/-- All entries that were ever made, by number, the two queues and the two
counters. -/
structure Queues where
  entries : List QueueEntry
  queue : TransferType → List Nat
  active : TransferType → Int

namespace Queues

def empty : Queues := ⟨[], fun _ => [], fun _ => 0⟩

variable (s : Queues)

def put (i : Nat) (e : QueueEntry) : Queues := { s with entries := s.entries.set i e }

def setQueue (t : TransferType) (queue : List Nat) : Queues :=
  { s with queue := fun t' => if t' = t then queue else s.queue t' }

def setActive (t : TransferType) (n : Int) : Queues :=
  { s with active := fun t' => if t' = t then n else s.active t' }

def removeFromQueue (i : Nat) (e : QueueEntry) : Queues :=
  s.setQueue e.type ((s.queue e.type).erase i)

/-- The entry has gone on, and has left its queue if it is told to. -/
def goOn (i : Nat) (r : QueueEntry × Bool) : Queues :=
  if r.2 then (s.put i r.1).removeFromQueue i r.1 else s.put i r.1

def isQueued (i : Nat) : Bool := s.entries[i]?.any (·.status = .queued)

/-- A call of `processEntry` up to its first await. -/
def processEntry (t : TransferType) (i : Nat) : Queues :=
  match s.entries[i]? with
  | none => s
  | some e => s.goOn i ({ e with calls := e.calls ++ [Call.mk t .returned] }.loop e.calls.length 0)

/-- The loop of a drain; each turn counts up to the maximum. -/
def drainLoop (t : TransferType) : Nat → Queues → Queues
  | 0, s => s
  | n + 1, s =>
      match (s.queue t).find? s.isQueued with
      | none => s
      | some i => drainLoop t n ((s.setActive t (s.active t + 1)).processEntry t i)

def drain (t : TransferType) : Queues := drainLoop t (maxConcurrent t - s.active t).toNat s

def drainUploadQueue : Queues := s.drain .upload

def drainDownloadQueue : Queues := s.drain .download

def newEntry (type : TransferType) (priority : Nat) : QueueEntry :=
  ⟨type, priority, .queued, 0, false, none, 0, []⟩

def priorityOf (i : Nat) : Nat := (s.entries[i]?.map (·.priority)).getD 0

/-- Entries of a lower priority stay behind. -/
def insertByPriority (queue : List Nat) (i priority : Nat) : List Nat :=
  match queue.findIdx? fun j => s.priorityOf j < priority with
  | none => queue ++ [i]
  | some idx => queue.insertIdx idx i

/-- The new entry in its queue, before the drain. -/
def enqueuedUpload : Queues :=
  { s with entries := s.entries ++ [newEntry .upload PRIORITY_NORMAL] }.setQueue .upload
    (s.queue .upload ++ [s.entries.length])

def enqueuedDownload (priority : Nat) : Queues :=
  { s with entries := s.entries ++ [newEntry .download priority] }.setQueue .download
    (s.insertByPriority (s.queue .download) s.entries.length priority)

def enqueueUpload : Queues := s.enqueuedUpload.drainUploadQueue

def enqueueDownloadInternal (priority : Nat) : Queues :=
  (s.enqueuedDownload priority).drainDownloadQueue

def enqueueDownload : Queues := s.enqueueDownloadInternal PRIORITY_NORMAL

def enqueueThumbnailDownload : Queues := s.enqueueDownloadInternal PRIORITY_THUMBNAIL

def idOf (i : Nat) : Option TransferId := s.entries[i]?.map fun e => ⟨e.type, i⟩

def cancelInQueue (t : TransferType) (transferId : TransferId) : Queues :=
  match (s.queue t).find? fun i => s.idOf i = some transferId with
  | none => s
  | some i =>
      match s.entries[i]? with
      | none => s
      | some e => (s.put i e.cancel).setQueue t ((s.queue t).erase i)

def cancel (transferId : TransferId) : Queues :=
  (s.cancelInQueue .upload transferId).cancelInQueue .download transferId

def cancelEntry (i : Nat) : Queues :=
  match s.entries[i]? with
  | none => s
  | some e => s.put i e.cancel

def cancelAllInQueue (t : TransferType) : Queues :=
  ((s.queue t).foldl cancelEntry s).setQueue t []

def cancelAll : Queues :=
  (((s.cancelAllInQueue .upload).cancelAllInQueue .download).setActive .upload 0).setActive
    .download 0

/-- What the `finally` of the k-th call of an entry does before it drains. -/
def released (i k : Nat) (e : QueueEntry) (t : TransferType) : Queues :=
  (s.put i (e.goesTo k .finalized)).setActive t (s.active t - 1)

end Queues

/-! ## Steps -/

/-- A callback: a function that is called, progress of an entry, or what the
k-th call of an entry was waiting for. -/
inductive Event
  | enqueueUpload
  | enqueueDownload
  | enqueueThumbnailDownload
  | cancel (transferId : TransferId)
  | cancelAll
  | progress (i percent : Nat)
  | slept (i k : Nat)
  | executed (i k : Nat) (result : Except TransferError Unit)
  | finalized (i k : Nat)

/-- The k-th call of an entry. -/
def Queues.call? (s : Queues) (i k : Nat) : Option (QueueEntry × Call) :=
  s.entries[i]?.bind fun e => e.calls[k]?.map fun call => (e, call)

def step (s : Queues) : Event → Option Queues
  | .enqueueUpload => some s.enqueueUpload
  | .enqueueDownload => some s.enqueueDownload
  | .enqueueThumbnailDownload => some s.enqueueThumbnailDownload
  | .cancel transferId => some (s.cancel transferId)
  | .cancelAll => some s.cancelAll
  | .progress i percent => s.entries[i]?.bind fun e =>
      if 0 < e.executed then some (s.put i { e with progress := percent }) else none
  | .slept i k => (s.call? i k).bind fun (e, call) =>
      match call.point with
      | .sleeping attempt => some (s.put i (e.wake k attempt))
      | _ => none
  | .executed i k result => (s.call? i k).bind fun (e, call) =>
      match call.point with
      | .executing attempt => some (s.goOn i (e.executes k attempt result))
      | _ => none
  | .finalized i k => (s.call? i k).bind fun (e, call) =>
      if call.point = .returned then some ((s.released i k e call.queue).drain call.queue)
      else none

/-- The module: callbacks move the queues. -/
def transfers : Server Queues Empty Event where
  opens _ := false
  step p _ := p.elim
  env e s := step s e

/-! ## Entries and calls -/

variable {s : Queues} {e e' : QueueEntry} {i k : Nat} {t : TransferType} {call : Call}

/-- The `finally` of the call has not run yet. -/
def Call.outstanding (t : TransferType) (call : Call) : Bool :=
  call.queue = t && call.point ≠ .finalized

/-- The call has not returned yet. -/
def Call.active (call : Call) : Bool := call.point ≠ .returned && call.point ≠ .finalized

namespace QueueEntry

def outstanding (t : TransferType) (e : QueueEntry) : Nat := e.calls.countP (Call.outstanding t)

/-- A call sleeps before it tries the entry again. -/
def Retries (e : QueueEntry) : Prop := ∃ call ∈ e.calls, ∃ attempt, call.point = .sleeping attempt

theorem calls_goesTo (h : e.calls[k]? = some call) (point : Point) :
    (e.goesTo k point).calls = e.calls.set k { call with point } := by
  rw [goesTo, List.modify_eq_set_getElem?, h]
  rfl

theorem goesTo_retries (h : e.calls[k]? = some call) (attempt : Nat) :
    (e.goesTo k (.sleeping attempt)).Retries := by
  obtain ⟨hlt, -⟩ := List.getElem?_eq_some_iff.mp h
  refine ⟨{ call with point := .sleeping attempt }, ?_, attempt, rfl⟩
  rw [calls_goesTo h]
  exact List.mem_set hlt _

/-- What a callback other than a `finally` does to the entry that it is about:
it has the same calls outstanding, and if it is queued it waits for a retry or
was left as it was. -/
structure Continues (e e' : QueueEntry) : Prop where
  type : e'.type = e.type
  outstanding : ∀ t, e'.outstanding t = e.outstanding t
  queued : e'.status = .queued → e'.Retries ∨ e'.status = e.status ∧ e'.calls = e.calls

/-- A call of the entry goes on, with whatever else is done to the entry. -/
theorem continues_goesTo (h : e.calls[k]? = some call) {point : Point}
    (hcall : call.point ≠ .finalized) (hpoint : point ≠ .finalized) (htype : e'.type = e.type)
    (hcalls : e'.calls = e.calls)
    (hqueued : e'.status = .queued → ∃ attempt, point = .sleeping attempt) :
    Continues e (e'.goesTo k point) := by
  have h' : e'.calls[k]? = some call := by rw [hcalls, h]
  refine ⟨htype, fun t => ?_, fun hq => .inl ?_⟩
  · rw [QueueEntry.outstanding, calls_goesTo h', hcalls]
    refine countP_turn_eq _ h _ ?_
    simp [Call.outstanding, hcall, hpoint]
  · obtain ⟨attempt, rfl⟩ := hqueued hq
    exact goesTo_retries h' attempt

theorem isCancelled_iff : e.isCancelled = true ↔ e.status = .cancelled := by
  rw [isCancelled, decide_eq_true_eq]

theorem continues_wake (h : e.calls[k]? = some call) {attempt : Nat}
    (hcall : call.point = .sleeping attempt) : Continues e (e.wake k attempt) := by
  have hcall' : call.point ≠ .finalized := by
    rw [hcall]
    exact Point.noConfusion
  unfold wake
  split
  · next hc =>
      rw [isCancelled_iff] at hc
      exact continues_goesTo h hcall' Point.noConfusion rfl rfl fun hq =>
        absurd (hc.symm.trans hq) TransferStatus.noConfusion
  · exact continues_goesTo h hcall' Point.noConfusion rfl rfl fun hq =>
      absurd hq TransferStatus.noConfusion

/-- What the end of an `execute` can do. -/
theorem executes_cases (k attempt : Nat) (result : Except TransferError Unit) :
    (result = .ok () ∧ e.executes k attempt result
        = ({ e with status := .completed, progress := 100 }.resolve.goesTo k .returned, true))
      ∨ (e.status = .cancelled ∧ e.executes k attempt result = (e.goesTo k .returned, false))
      ∨ (e.status ≠ .cancelled ∧ ∃ status progress, (status = .cancelled ∨ status = .failed)
        ∧ e.executes k attempt result
          = ({ e with status, progress }.reject.goesTo k .returned, true))
      ∨ (e.status ≠ .cancelled ∧ attempt + 1 ≤ MAX_RETRIES ∧ e.executes k attempt result
        = ({ e with status := .queued, progress := 0 }.goesTo k (.sleeping (attempt + 1)), false))
      := by
  cases result with
  | ok => exact .inl ⟨rfl, rfl⟩
  | error err =>
      by_cases hc : e.status = .cancelled
      · exact .inr (.inl ⟨hc, by simp [executes, isCancelled, hc]⟩)
      · have hc' : e.isCancelled = false := by simp [isCancelled, hc]
        cases habort : isAbortError err with
        | true => exact .inr (.inr (.inl ⟨hc, _, e.progress, .inl rfl,
            by simp [executes, hc', habort]⟩))
        | false =>
            cases hclient : (isClientError err || decide (attempt = MAX_RETRIES)) with
            | true =>
                exact .inr (.inr (.inl ⟨hc, _, 0, .inr rfl,
                  by simp only [executes, hc', habort, hclient]; rfl⟩))
            | false =>
                by_cases hle : attempt + 1 ≤ MAX_RETRIES
                · refine .inr (.inr (.inr ⟨hc, hle, ?_⟩))
                  simp only [executes, hc', habort, hclient, loop, if_pos hle]
                  simp [isCancelled]
                · refine .inr (.inr (.inl ⟨hc, _, 0, .inr rfl, ?_⟩))
                  simp only [executes, hc', habort, hclient, loop, if_neg hle]
                  rfl

theorem executes_leaves (k attempt : Nat) (result : Except TransferError Unit)
    (h : (e.executes k attempt result).2 = true) :
    (e.executes k attempt result).1.status ≠ .queued := by
  rcases executes_cases k attempt result with ⟨-, hr⟩ | ⟨-, hr⟩ | ⟨-, status, progress, hs, hr⟩
    | ⟨-, -, hr⟩
  · rw [hr]
    exact TransferStatus.noConfusion
  · rw [hr] at h
    cases h
  · rw [hr]
    rcases hs with rfl | rfl <;> exact TransferStatus.noConfusion
  · rw [hr] at h
    cases h

theorem continues_executes (h : e.calls[k]? = some call) {attempt : Nat}
    (hcall : call.point = .executing attempt) (result : Except TransferError Unit) :
    Continues e (e.executes k attempt result).1 := by
  have hcall' : call.point ≠ .finalized := by
    rw [hcall]
    exact Point.noConfusion
  rcases executes_cases k attempt result with ⟨-, hr⟩ | ⟨hc, hr⟩ | ⟨-, status, progress, hs, hr⟩
    | ⟨-, -, hr⟩
  · rw [hr]
    exact continues_goesTo h hcall' Point.noConfusion rfl rfl fun hq =>
      absurd hq TransferStatus.noConfusion
  · rw [hr]
    exact continues_goesTo h hcall' Point.noConfusion rfl rfl fun hq =>
      absurd (hc.symm.trans hq) TransferStatus.noConfusion
  · rw [hr]
    refine continues_goesTo h hcall' Point.noConfusion rfl rfl fun hq => ?_
    obtain rfl : status = .queued := hq
    rcases hs with hs | hs <;> cases hs
  · rw [hr]
    exact continues_goesTo h hcall' Point.noConfusion rfl rfl fun _ => ⟨_, rfl⟩

theorem cancel_cancel (e : QueueEntry) : e.cancel.cancel = e.cancel := by
  cases hr : e.result <;> simp [cancel, reject, hr]

theorem continues_cancel : Continues e e.cancel :=
  ⟨rfl, fun _ => rfl, fun hq => TransferStatus.noConfusion hq⟩

theorem continues_progress (percent : Nat) : Continues e { e with progress := percent } :=
  ⟨rfl, fun _ => rfl, fun _ => .inr ⟨rfl, rfl⟩⟩

end QueueEntry

/-! ## Drains -/

/-- An entry of a list with one more at its end. -/
theorem getElem?_concat_cases {l : List QueueEntry} (h : (l ++ [e'])[i]? = some e) :
    l[i]? = some e ∨ i = l.length ∧ e = e' := by
  rcases Nat.lt_trichotomy i l.length with hlt | rfl | hgt
  · exact .inl (by rwa [List.getElem?_append_left hlt] at h)
  · rw [List.getElem?_concat_length] at h
    exact .inr ⟨rfl, (Option.some.inj h).symm⟩
  · rw [List.getElem?_eq_none (by rw [List.length_append, List.length_singleton]; omega)] at h
    cases h

namespace Queues

def outstanding (t : TransferType) (s : Queues) : Nat :=
  (s.entries.map (QueueEntry.outstanding t)).sum

theorem outstanding_put (h : s.entries[i]? = some e) (e' : QueueEntry) :
    (s.put i e').outstanding t + e.outstanding t = s.outstanding t + e'.outstanding t :=
  sum_turn _ h e'

theorem getElem?_put (h : s.entries[i]? = some e) (e' : QueueEntry) (j : Nat) :
    (s.put i e').entries[j]? = if i = j then some e' else s.entries[j]? := by
  rw [put, List.getElem?_set]
  obtain ⟨hlt, -⟩ := List.getElem?_eq_some_iff.mp h
  split
  · next hij =>
      subst hij
      simp
  · rfl

/-- What a drain makes of an entry that it picks. -/
def started (t : TransferType) (e : QueueEntry) : QueueEntry :=
  { e with
    status := .in_progress
    progress := 0
    executed := e.executed + 1
    calls := e.calls ++ [⟨t, .executing 0⟩] }

theorem outstanding_started (t' : TransferType) :
    (started t e).outstanding t' = e.outstanding t' + if t = t' then 1 else 0 := by
  rw [started, QueueEntry.outstanding, QueueEntry.outstanding, countP_start, Call.outstanding]
  split
  · next h => simp [h]
  · next h => simp [h]

theorem processEntry_eq (h : s.entries[i]? = some e) (hq : e.status = .queued) :
    s.processEntry t i = s.put i (started t e) := by
  have hc : ({ e with calls := e.calls ++ [Call.mk t .returned] } : QueueEntry).isCancelled
      = false := by simp [QueueEntry.isCancelled, hq]
  simp only [processEntry, h, QueueEntry.loop, Nat.zero_le, if_true, hc, Bool.false_eq_true,
    if_false, Nat.lt_irrefl, goOn, QueueEntry.goesTo, started]
  rw [List.modify_eq_set_getElem?, List.getElem?_concat_length]
  simp

theorem isQueued_iff : s.isQueued i = true ↔ ∃ e, s.entries[i]? = some e ∧ e.status = .queued := by
  simp [isQueued, Option.any_eq_true]

/-- One turn of a drain: there is nothing queued, or a queued entry is started. -/
theorem drainLoop_succ (t : TransferType) (n : Nat) (s : Queues) :
    (drainLoop t (n + 1) s = s ∧ ∀ i ∈ s.queue t, s.isQueued i = false)
      ∨ ∃ i e, (s.queue t).find? s.isQueued = some i ∧ s.entries[i]? = some e
        ∧ e.status = .queued ∧ drainLoop t (n + 1) s
          = drainLoop t n ((s.setActive t (s.active t + 1)).put i (started t e)) := by
  cases hfind : (s.queue t).find? s.isQueued with
  | none =>
      refine .inl ⟨by rw [drainLoop, hfind], fun i hi => ?_⟩
      simpa using List.find?_eq_none.mp hfind i hi
  | some i =>
      obtain ⟨e, he, hq⟩ := isQueued_iff.mp (List.find?_some hfind)
      refine .inr ⟨i, e, rfl, he, hq, ?_⟩
      rw [drainLoop, hfind]
      exact congrArg (drainLoop t n) (processEntry_eq he hq)

end Queues

namespace Queues

theorem cancelEntry_same (i : Nat) : (s.cancelEntry i).queue = s.queue
    ∧ (s.cancelEntry i).active = s.active := by
  unfold cancelEntry
  split <;> exact ⟨rfl, rfl⟩

theorem cancelEntries_same (l : List Nat) (s : Queues) :
    (l.foldl cancelEntry s).queue = s.queue ∧ (l.foldl cancelEntry s).active = s.active := by
  induction l generalizing s with
  | nil => exact ⟨rfl, rfl⟩
  | cons i l ih =>
      obtain ⟨hqueue, hactive⟩ := cancelEntry_same (s := s) i
      exact ⟨(ih _).1.trans hqueue, (ih _).2.trans hactive⟩

theorem cancelEntries_length (l : List Nat) (s : Queues) :
    (l.foldl cancelEntry s).entries.length = s.entries.length := by
  induction l generalizing s with
  | nil => rfl
  | cons i l ih =>
      refine (ih _).trans ?_
      unfold cancelEntry
      split
      · rfl
      · exact List.length_set

/-- Entries that are cancelled once more stay so, the others stay as they are. -/
theorem getElem?_cancelEntry {j : Nat} (h : (s.cancelEntry j).entries[i]? = some e) :
    (j ≠ i ∧ s.entries[i]? = some e) ∨ (j = i ∧ ∃ e', s.entries[i]? = some e' ∧ e = e'.cancel) := by
  unfold cancelEntry at h
  split at h
  · next hnone =>
      refine .inl ⟨?_, h⟩
      rintro rfl
      rw [hnone] at h
      cases h
  · next e' he' =>
      rw [getElem?_put he'] at h
      split at h
      · next hij => exact .inr ⟨hij, e', hij ▸ he', (Option.some.inj h).symm⟩
      · next hij => exact .inl ⟨hij, h⟩

theorem cancelEntries_cases {l : List Nat} (h : (l.foldl cancelEntry s).entries[i]? = some e) :
    (i ∉ l ∧ s.entries[i]? = some e) ∨ (i ∈ l ∧ ∃ e', s.entries[i]? = some e' ∧ e = e'.cancel) := by
  induction l generalizing s with
  | nil => exact .inl ⟨List.not_mem_nil, h⟩
  | cons j l ih =>
      rcases ih h with ⟨hi, he⟩ | ⟨hi, e', he, rfl⟩
      · rcases getElem?_cancelEntry he with ⟨hne, he⟩ | ⟨rfl, he⟩
        · exact .inl ⟨by simp [Ne.symm hne, hi], he⟩
        · exact .inr ⟨List.mem_cons_self, he⟩
      · refine .inr ⟨List.mem_cons_of_mem _ hi, ?_⟩
        rcases getElem?_cancelEntry he with ⟨-, he'⟩ | ⟨-, e'', he', rfl⟩
        · exact ⟨e', he', rfl⟩
        · exact ⟨e'', he', e''.cancel_cancel⟩

theorem setActive_self {n : Int} (h : s.active t = n) : s.setActive t n = s := by
  have hactive : (fun t' => if t' = t then n else s.active t') = s.active := by
    funext t'
    split
    · next ht => rw [ht, h]
    · rfl
  rw [setActive, hactive]

end Queues

/-! ## The counters -/

/-- The counters agree with the calls and keep to the maxima, the queues hold
entries of their type, and a queued entry waits for a retry or in its queue,
which is full unless it is `free`, about to be drained. -/
structure Counted (free : TransferType → Prop) (s : Queues) : Prop where
  counted : ∀ t, s.active t = s.outstanding t
  bounded : ∀ t, s.active t ≤ maxConcurrent t
  placed : ∀ t, ∀ i ∈ s.queue t, ∃ e, s.entries[i]? = some e ∧ e.type = t
  served : ∀ i e, s.entries[i]? = some e → e.status = .queued →
    e.Retries ∨ i ∈ s.queue e.type ∧ (free e.type ∨ maxConcurrent e.type ≤ s.active e.type)

namespace Counted

variable {free : TransferType → Prop}

theorem mono {free' : TransferType → Prop} (h : Counted free s) (hfree : ∀ t, free t → free' t) :
    Counted free' s :=
  ⟨h.counted, h.bounded, h.placed, fun i e he hq =>
    (h.served i e he hq).imp_right fun ⟨hi, hf⟩ => ⟨hi, hf.imp_left (hfree _)⟩⟩

/-- An entry goes on and stays in its queue. -/
theorem put (h : Counted free s) (he : s.entries[i]? = some e) (hc : e.Continues e') :
    Counted free (s.put i e') := by
  refine ⟨fun t => ?_, h.bounded, fun t j hj => ?_, fun j f hf hq => ?_⟩
  · have hout := Queues.outstanding_put he e' (t := t)
    rw [hc.outstanding t] at hout
    rw [Nat.add_right_cancel hout]
    exact h.counted t
  · obtain ⟨f, hf, htype⟩ := h.placed t j hj
    rw [Queues.getElem?_put he]
    split
    · next hij =>
        subst hij
        obtain rfl := Option.some.inj (he.symm.trans hf)
        exact ⟨e', rfl, hc.type.trans htype⟩
    · exact ⟨f, hf, htype⟩
  · rw [Queues.getElem?_put he] at hf
    split at hf
    · next hij =>
        subst hij
        obtain rfl := Option.some.inj hf
        rcases hc.queued hq with hr | ⟨hs, hcalls⟩
        · exact .inl hr
        · rw [hc.type]
          refine (h.served i e he (hs ▸ hq)).imp_left fun hr => ?_
          rw [QueueEntry.Retries, hcalls]
          exact hr
    · exact h.served j f hf hq

/-- An entry that is not queued leaves its queue. -/
theorem erase (h : Counted free s) (he : s.entries[i]? = some e) (hq : e.status ≠ .queued) :
    Counted free (s.setQueue t ((s.queue t).erase i)) := by
  refine ⟨h.counted, h.bounded, fun t' j hj => ?_, fun j f hf hf' => ?_⟩
  · simp only [Queues.setQueue] at hj
    split at hj
    · next ht => exact h.placed t' j (ht ▸ List.mem_of_mem_erase hj)
    · exact h.placed t' j hj
  · refine (h.served j f hf hf').imp_right fun ⟨hj, hfree⟩ => ⟨?_, hfree⟩
    have hne : j ≠ i := by
      rintro rfl
      obtain rfl := Option.some.inj (he.symm.trans hf)
      exact hq hf'
    simp only [Queues.setQueue]
    split
    · next ht => exact (List.mem_erase_of_ne hne).mpr (ht ▸ hj)
    · exact hj

theorem goOn (h : Counted free s) (he : s.entries[i]? = some e) {r : QueueEntry × Bool}
    (hc : e.Continues r.1) (hr : r.2 = true → r.1.status ≠ .queued) :
    Counted free (s.goOn i r) := by
  unfold Queues.goOn
  split
  · next hleaves =>
      refine (h.put he hc).erase ?_ (hr hleaves)
      rw [Queues.getElem?_put he, if_pos rfl]
  · exact h.put he hc

/-- A drain starts an entry. -/
theorem start (h : Counted free s) (he : s.entries[i]? = some e)
    (hfree : s.active t < maxConcurrent t) :
    Counted (fun t' => free t' ∨ t' = t)
      ((s.setActive t (s.active t + 1)).put i (Queues.started t e)) := by
  have he' : (s.setActive t (s.active t + 1)).entries[i]? = some e := he
  refine ⟨fun t' => ?_, fun t' => ?_, fun t' j hj => ?_, fun j f hf hq => ?_⟩
  · have hout := Queues.outstanding_put he' (Queues.started t e) (t := t')
    rw [Queues.outstanding_started] at hout
    have hsame : (s.setActive t (s.active t + 1)).outstanding t' = s.outstanding t' := rfl
    have hcounted := h.counted t'
    simp only [Queues.put, Queues.setActive]
    simp only [Queues.put, Queues.setActive] at hout hsame
    split
    · next ht =>
        subst ht
        rw [if_pos rfl] at hout
        omega
    · next ht =>
        rw [if_neg (Ne.symm ht)] at hout
        omega
  · simp only [Queues.put, Queues.setActive]
    split
    · next ht =>
        subst ht
        omega
    · exact h.bounded t'
  · obtain ⟨f, hf, htype⟩ := h.placed t' j hj
    rw [Queues.getElem?_put he']
    split
    · next hij =>
        subst hij
        obtain rfl := Option.some.inj (he.symm.trans hf)
        exact ⟨Queues.started t e, rfl, htype⟩
    · exact ⟨f, hf, htype⟩
  · rw [Queues.getElem?_put he'] at hf
    split at hf
    · obtain rfl := Option.some.inj hf
      exact absurd hq TransferStatus.noConfusion
    · refine (h.served j f hf hq).imp_right fun ⟨hj, hfull⟩ => ⟨hj, ?_⟩
      simp only [Queues.put, Queues.setActive]
      split
      · next ht => exact .inl (.inr ht)
      · exact hfull.imp_left .inl

/-- A drain starts what is queued until its queue is full. -/
theorem drainLoop {n : Nat} (h : Counted (· = t) s) (hn : s.active t + n = maxConcurrent t) :
    Counted (fun _ => False) (Queues.drainLoop t n s) := by
  induction n generalizing s with
  | zero =>
      rw [Queues.drainLoop]
      refine ⟨h.counted, h.bounded, h.placed, fun i e he hq => ?_⟩
      refine (h.served i e he hq).imp_right fun ⟨hi, hfree⟩ => ⟨hi, .inr ?_⟩
      rcases hfree with rfl | hfull
      · omega
      · exact hfull
  | succ n ih =>
      rcases Queues.drainLoop_succ t n s with ⟨heq, hnone⟩ | ⟨i, e, hfind, he, hq, heq⟩
      · rw [heq]
        refine ⟨h.counted, h.bounded, h.placed, fun i e he hq => ?_⟩
        refine (h.served i e he hq).imp_right fun ⟨hi, hfree⟩ => ⟨hi, .inr ?_⟩
        rcases hfree with rfl | hfull
        · have hqueued := Queues.isQueued_iff.mpr ⟨e, he, hq⟩
          rw [hnone i hi] at hqueued
          cases hqueued
        · exact hfull
      · rw [heq]
        refine ih ((h.start he (by omega)).mono fun t' ht => ht.elim id id) ?_
        simp only [Queues.put, Queues.setActive, if_true]
        omega

theorem drain (h : Counted (· = t) s) : Counted (fun _ => False) (s.drain t) := by
  have hle := h.bounded t
  exact drainLoop h (by omega)

/-- A new entry at some place of its queue. -/
theorem enqueue (h : Counted (fun _ => False) s) (priority : Nat) {queue : List Nat}
    (hqueue : queue.Perm (s.entries.length :: s.queue t)) :
    Counted (· = t) ({ s with entries := s.entries ++ [Queues.newEntry t priority] }.setQueue t
      queue) := by
  refine ⟨fun t' => ?_, h.bounded, fun t' i hi => ?_, fun i e he hq => ?_⟩
  · have hcounted := h.counted t'
    simp only [Queues.outstanding, Queues.setQueue, List.map_append, List.sum_append] at hcounted ⊢
    simpa [Queues.newEntry, QueueEntry.outstanding] using hcounted
  · simp only [Queues.setQueue] at hi
    split at hi
    · next ht =>
        subst ht
        rcases List.mem_cons.mp (hqueue.mem_iff.mp hi) with rfl | hi
        · exact ⟨_, List.getElem?_concat_length, rfl⟩
        · obtain ⟨e, he, htype⟩ := h.placed t' i hi
          exact ⟨e, List.getElem?_append_left (List.getElem?_eq_some_iff.mp he).1 ▸ he, htype⟩
    · obtain ⟨e, he, htype⟩ := h.placed t' i hi
      exact ⟨e, List.getElem?_append_left (List.getElem?_eq_some_iff.mp he).1 ▸ he, htype⟩
  · simp only [Queues.setQueue] at he ⊢
    rcases getElem?_concat_cases he with he | ⟨rfl, rfl⟩
    · refine (h.served i e he hq).imp_right fun ⟨hi, hfull⟩ => ⟨?_, .inr (hfull.resolve_left id)⟩
      split
      · next ht => exact hqueue.mem_iff.mpr (List.mem_cons_of_mem _ (ht ▸ hi))
      · exact hi
    · refine .inr ⟨?_, .inl rfl⟩
      rw [if_pos (show (Queues.newEntry t priority).type = t from rfl)]
      exact hqueue.mem_iff.mpr List.mem_cons_self

theorem cancelInQueue (h : Counted free s) (transferId : TransferId) :
    Counted free (s.cancelInQueue t transferId) := by
  unfold Queues.cancelInQueue
  split
  · exact h
  · next i _ =>
      split
      · exact h
      · next e he =>
          have he' : (s.put i e.cancel).entries[i]? = some e.cancel :=
            (Queues.getElem?_put he _ _).trans (if_pos rfl)
          exact (h.put he QueueEntry.continues_cancel).erase he' TransferStatus.noConfusion

theorem cancelEntry (h : Counted free s) (i : Nat) : Counted free (s.cancelEntry i) := by
  unfold Queues.cancelEntry
  split
  · exact h
  · next e he => exact h.put he QueueEntry.continues_cancel

theorem cancelEntries (h : Counted free s) (l : List Nat) :
    Counted free (l.foldl Queues.cancelEntry s) := by
  induction l generalizing s with
  | nil => exact h
  | cons i l ih => exact ih (h.cancelEntry i)

/-- A queue without queued entries is emptied. -/
theorem clear (h : Counted free s)
    (hq : ∀ i ∈ s.queue t, ∀ e, s.entries[i]? = some e → e.status ≠ .queued) :
    Counted free (s.setQueue t []) := by
  refine ⟨h.counted, h.bounded, fun t' i hi => ?_, fun i e he hq' => ?_⟩
  · simp only [Queues.setQueue] at hi
    split at hi
    · cases hi
    · exact h.placed t' i hi
  · refine (h.served i e he hq').imp_right fun ⟨hi, hfull⟩ => ⟨?_, hfull⟩
    simp only [Queues.setQueue]
    split
    · next ht => exact absurd hq' (hq i (ht ▸ hi) e he)
    · exact hi

theorem cancelAllInQueue (h : Counted free s) : Counted free (s.cancelAllInQueue t) := by
  obtain ⟨hqueue, -⟩ := Queues.cancelEntries_same (s.queue t) s
  refine (h.cancelEntries (s.queue t)).clear fun i hi e he hq => ?_
  rw [hqueue] at hi
  rcases Queues.cancelEntries_cases he with ⟨hno, -⟩ | ⟨-, e', -, rfl⟩
  · exact hno hi
  · exact TransferStatus.noConfusion hq

/-- With no call outstanding the counters are zero anyway. -/
theorem cancelAll (h : Counted free s) (hidle : ∀ t, s.outstanding t = 0) :
    Counted free s.cancelAll := by
  have hall : Counted free ((s.cancelAllInQueue .upload).cancelAllInQueue .download) :=
    h.cancelAllInQueue.cancelAllInQueue
  have hzero : ∀ t, ((s.cancelAllInQueue .upload).cancelAllInQueue .download).active t = 0 := by
    intro t
    have hactive : ((s.cancelAllInQueue .upload).cancelAllInQueue .download).active t
        = s.active t := by
      unfold Queues.cancelAllInQueue
      simp only [Queues.setQueue, (Queues.cancelEntries_same _ _).2]
    rw [hactive, h.counted, hidle]
    rfl
  rw [Queues.cancelAll, Queues.setActive_self (hzero _), Queues.setActive_self (hzero _)]
  exact hall

/-- The `finally` of a call, up to its drain. -/
theorem released (h : Counted (fun _ => False) s) (he : s.entries[i]? = some e)
    (hcall : e.calls[k]? = some call) (hpoint : call.point = .returned) :
    Counted (· = call.queue) (s.released i k e call.queue) := by
  have hcalls := QueueEntry.calls_goesTo hcall .finalized
  have hout : ∀ t, (s.put i (e.goesTo k .finalized)).outstanding t
      + (call.outstanding t).toNat = s.outstanding t := by
    intro t
    have hput := Queues.outstanding_put he (e.goesTo k .finalized) (t := t)
    have hturn := countP_turn (Call.outstanding t) hcall { call with point := .finalized }
    rw [← hcalls] at hturn
    have hzero : Call.outstanding t { call with point := .finalized } = false := by
      simp [Call.outstanding]
    rw [hzero] at hturn
    simp only [QueueEntry.outstanding, Bool.toNat_false] at hput hturn
    omega
  refine ⟨fun t => ?_, fun t => ?_, fun t j hj => ?_, fun j f hf hq => ?_⟩
  · have hcounted := h.counted t
    have hone := hout t
    simp only [Queues.released, Queues.setActive]
    change _ = ((s.put i (e.goesTo k .finalized)).outstanding t : Int)
    split
    · next ht =>
        have htrue : call.outstanding t = true := by simp [Call.outstanding, ht, hpoint]
        rw [htrue, Bool.toNat_true] at hone
        rw [← ht]
        omega
    · next ht =>
        have hfalse : call.outstanding t = false := by simp [Call.outstanding, Ne.symm ht]
        rw [hfalse, Bool.toNat_false] at hone
        exact hcounted.trans (by omega)
  · have hle := h.bounded t
    simp only [Queues.released, Queues.setActive]
    split
    · next ht =>
        rw [← ht]
        omega
    · exact hle
  · obtain ⟨f, hf, htype⟩ := h.placed t j hj
    rw [Queues.released, Queues.setActive, Queues.getElem?_put he]
    split
    · next hij =>
        subst hij
        obtain rfl := Option.some.inj (he.symm.trans hf)
        exact ⟨_, rfl, htype⟩
    · exact ⟨f, hf, htype⟩
  · rw [Queues.released, Queues.setActive, Queues.getElem?_put he] at hf
    have hfull : ∀ t, maxConcurrent t ≤ s.active t → t = call.queue
        ∨ maxConcurrent t ≤ (s.released i k e call.queue).active t := by
      intro t hle
      simp only [Queues.released, Queues.setActive]
      split
      · next ht => exact .inl ht
      · exact .inr hle
    split at hf
    · next hij =>
        subst hij
        obtain rfl := Option.some.inj hf
        rcases h.served i e he hq with ⟨c, hc, attempt, hsleep⟩ | ⟨hi, hno⟩
        · refine .inl ⟨c, ?_, attempt, hsleep⟩
          obtain ⟨j, hj⟩ := List.mem_iff_getElem?.mp hc
          have hne : k ≠ j := by
            rintro rfl
            obtain rfl := Option.some.inj (hcall.symm.trans hj)
            rw [hpoint] at hsleep
            cases hsleep
          rw [hcalls]
          exact List.mem_of_getElem? ((List.getElem?_set_ne hne).trans hj)
        · exact .inr ⟨hi, hfull e.type (hno.resolve_left id)⟩
    · exact (h.served j f hf hq).imp_right fun ⟨hj, hno⟩ =>
        ⟨hj, hfull f.type (hno.resolve_left id)⟩

end Counted

theorem perm_insertByPriority (queue : List Nat) (i priority : Nat) :
    (s.insertByPriority queue i priority).Perm (i :: queue) := by
  unfold Queues.insertByPriority
  split
  · exact List.perm_append_singleton i queue
  · next idx hidx =>
      have hlt : idx < queue.length := (List.findIdx?_eq_some_iff_findIdx_eq.mp hidx).1
      exact List.perm_insertIdx i queue (Nat.le_of_lt hlt)

theorem call?_eq_some : s.call? i k = some (e, call) ↔
    s.entries[i]? = some e ∧ e.calls[k]? = some call := by
  simp only [Queues.call?, Option.bind_eq_some_iff, Option.map_eq_some_iff, Prod.mk.injEq]
  constructor
  · rintro ⟨_, he, _, hcall, rfl, rfl⟩
    exact ⟨he, hcall⟩
  · rintro ⟨he, hcall⟩
    exact ⟨e, he, call, hcall, rfl, rfl⟩

/-- What a callback does to the queues. -/
theorem step_cases {s' : Queues} {event : Event} (h : step s event = some s') :
    (event = .enqueueUpload ∧ s' = s.enqueueUpload)
      ∨ (∃ priority, (event = .enqueueDownload ∧ priority = PRIORITY_NORMAL
          ∨ event = .enqueueThumbnailDownload ∧ priority = PRIORITY_THUMBNAIL)
        ∧ s' = s.enqueueDownloadInternal priority)
      ∨ (∃ transferId, event = .cancel transferId ∧ s' = s.cancel transferId)
      ∨ (event = .cancelAll ∧ s' = s.cancelAll)
      ∨ (∃ i percent e, event = .progress i percent ∧ s.entries[i]? = some e
        ∧ s' = s.put i { e with progress := percent })
      ∨ (∃ i k e call attempt, event = .slept i k ∧ s.entries[i]? = some e
        ∧ e.calls[k]? = some call ∧ call.point = .sleeping attempt
        ∧ s' = s.put i (e.wake k attempt))
      ∨ (∃ i k result e call attempt, event = .executed i k result ∧ s.entries[i]? = some e
        ∧ e.calls[k]? = some call ∧ call.point = .executing attempt
        ∧ s' = s.goOn i (e.executes k attempt result))
      ∨ (∃ i k e call, event = .finalized i k ∧ s.entries[i]? = some e
        ∧ e.calls[k]? = some call ∧ call.point = .returned
        ∧ s' = (s.released i k e call.queue).drain call.queue) := by
  cases event with
  | enqueueUpload => exact .inl ⟨rfl, (Option.some.inj h).symm⟩
  | enqueueDownload => exact .inr (.inl ⟨_, .inl ⟨rfl, rfl⟩, (Option.some.inj h).symm⟩)
  | enqueueThumbnailDownload => exact .inr (.inl ⟨_, .inr ⟨rfl, rfl⟩, (Option.some.inj h).symm⟩)
  | cancel transferId => exact .inr (.inr (.inl ⟨_, rfl, (Option.some.inj h).symm⟩))
  | cancelAll => exact .inr (.inr (.inr (.inl ⟨rfl, (Option.some.inj h).symm⟩)))
  | progress i percent =>
      obtain ⟨e, he, h⟩ := Option.bind_eq_some_iff.mp h
      split at h
      · exact .inr (.inr (.inr (.inr (.inl ⟨i, percent, e, rfl, he, (Option.some.inj h).symm⟩))))
      · cases h
  | slept i k =>
      obtain ⟨⟨e, call⟩, hcall, h⟩ := Option.bind_eq_some_iff.mp h
      obtain ⟨he, hcall⟩ := call?_eq_some.mp hcall
      dsimp only at h
      split at h
      · next attempt hpoint =>
          exact .inr (.inr (.inr (.inr (.inr (.inl
            ⟨i, k, e, call, attempt, rfl, he, hcall, hpoint, (Option.some.inj h).symm⟩)))))
      · cases h
  | executed i k result =>
      obtain ⟨⟨e, call⟩, hcall, h⟩ := Option.bind_eq_some_iff.mp h
      obtain ⟨he, hcall⟩ := call?_eq_some.mp hcall
      dsimp only at h
      split at h
      · next attempt hpoint =>
          exact .inr (.inr (.inr (.inr (.inr (.inr (.inl
            ⟨i, k, result, e, call, attempt, rfl, he, hcall, hpoint, (Option.some.inj h).symm⟩))))))
      · cases h
  | finalized i k =>
      obtain ⟨⟨e, call⟩, hcall, h⟩ := Option.bind_eq_some_iff.mp h
      obtain ⟨he, hcall⟩ := call?_eq_some.mp hcall
      dsimp only at h
      split at h
      · next hpoint =>
          exact .inr (.inr (.inr (.inr (.inr (.inr (.inr
            ⟨i, k, e, call, rfl, he, hcall, hpoint, (Option.some.inj h).symm⟩))))))
      · cases h

/-- `cancelAll` finds no call of `processEntry` whose `finally` is outstanding. -/
def Idle (c : Conf Queues Empty) : Action Empty Event → Prop
  | .env .cancelAll => ∀ e ∈ c.store.entries, ∀ call ∈ e.calls, call.point = .finalized
  | _ => True

theorem outstanding_eq (t : TransferType) (s : Queues) :
    s.outstanding t = (s.entries.flatMap (·.calls)).countP (Call.outstanding t) := by
  rw [Queues.outstanding, List.countP_flatMap]
  rfl

theorem counted_preserved :
    transfers.Preserves Idle fun c => Counted (fun _ => False) c.store := by
  refine ⟨fun _ p => p.elim, fun _ _ p => p.elim, fun c event s' hi hg he => ?_⟩
  rcases step_cases he with ⟨-, rfl⟩ | ⟨priority, -, rfl⟩ | ⟨transferId, -, rfl⟩ | ⟨rfl, rfl⟩
    | ⟨i, percent, e, -, hf, rfl⟩ | ⟨i, k, e, call, attempt, -, hf, hcall, hpoint, rfl⟩
    | ⟨i, k, result, e, call, attempt, -, hf, hcall, hpoint, rfl⟩
    | ⟨i, k, e, call, -, hf, hcall, hpoint, rfl⟩
  · exact (hi.enqueue _ (List.perm_append_singleton ..)).drain
  · exact (hi.enqueue _ (perm_insertByPriority ..)).drain
  · exact (hi.cancelInQueue _).cancelInQueue _
  · refine hi.cancelAll fun t => ?_
    rw [outstanding_eq, List.countP_eq_zero]
    intro call hcall
    obtain ⟨e, hmem, hcall⟩ := List.mem_flatMap.mp hcall
    simp [Call.outstanding, hg e hmem call hcall]
  · exact hi.put hf (QueueEntry.continues_progress percent)
  · exact hi.put hf (QueueEntry.continues_wake hcall hpoint)
  · exact hi.goOn hf (QueueEntry.continues_executes hcall hpoint result)
      (QueueEntry.executes_leaves k attempt result)
  · exact (hi.released hf hcall hpoint).drain

/-- In every state that is reached while `cancelAll` is called only when nothing
is running, the counters agree with the calls whose `finally` has not run and
keep to their maxima, and what is queued without a call waits for a free slot. -/
theorem limits_hold {c : Conf Queues Empty} (h : transfers.Run Idle ⟨.empty, []⟩ c) :
    (∀ t, c.store.active t
        = ((c.store.entries.flatMap (·.calls)).countP (Call.outstanding t) : Int)
      ∧ 0 ≤ c.store.active t ∧ c.store.active t ≤ maxConcurrent t)
    ∧ ∀ e ∈ c.store.entries, e.status = .queued →
      (∃ call ∈ e.calls, call.active = true) ∨ maxConcurrent e.type ≤ c.store.active e.type := by
  have hempty : Counted (fun _ => False) Queues.empty :=
    ⟨fun _ => rfl, fun _ => Int.natCast_nonneg _, fun _ _ hi => absurd hi List.not_mem_nil,
      fun _ _ he => by cases he⟩
  have hi := h.invariant counted_preserved hempty
  refine ⟨fun t => ⟨?_, ?_, hi.bounded t⟩, fun e he hq => ?_⟩
  · rw [hi.counted, outstanding_eq]
  · rw [hi.counted]
    exact Int.natCast_nonneg _
  · obtain ⟨i, hi'⟩ := List.mem_iff_getElem?.mp he
    rcases hi.served i e hi' hq with ⟨call, hcall, attempt, hpoint⟩ | ⟨-, hfull⟩
    · exact .inl ⟨call, hcall, by simp [Call.active, hpoint]⟩
    · exact .inr (hfull.resolve_left id)

/-- Two uploads, of which the first is completed. -/
def uploading : List (Action Empty Event) :=
  [.env .enqueueUpload, .env .enqueueUpload, .env (.executed 0 0 (.ok ())), .env (.finalized 0 0)]

def noCancelAll : Action Empty Event → Bool
  | .env .cancelAll => false
  | _ => true

theorem idle_of_noCancelAll (c : Conf Queues Empty) {a : Action Empty Event}
    (h : noCancelAll a = true) : Idle c a := by
  cases a with
  | env event => cases event <;> trivial
  | _ => trivial

/-- The second upload runs alone after the first. -/
theorem limits_hold_uploading : ∃ c, transfers.Run Idle ⟨.empty, []⟩ c
    ∧ c.store.entries.map (·.status) = [.completed, .in_progress]
    ∧ c.store.active .upload ≤ maxConcurrent .upload := by
  obtain ⟨c, hrun, hq⟩ : ∃ c, transfers.Run Idle ⟨.empty, []⟩ c
      ∧ decide (c.store.entries.map (·.status) = [.completed, .in_progress]) = true :=
    transfers.exists_run_of_execWhile (fun _ => noCancelAll) ⟨.empty, []⟩ uploading _
      (fun c _ => idle_of_noCancelAll c) (by decide)
  exact ⟨c, hrun, of_decide_eq_true hq, ((limits_hold hrun).1 .upload).2.2⟩

/-- An upload that is still running when `cancelAll` resets the counters takes
them below zero. -/
theorem counter_below_zero : ¬ ∀ c, transfers.Reach ⟨.empty, []⟩ c →
    (∀ t, c.store.active t
        = ((c.store.entries.flatMap (·.calls)).countP (Call.outstanding t) : Int)
      ∧ 0 ≤ c.store.active t ∧ c.store.active t ≤ maxConcurrent t)
    ∧ ∀ e ∈ c.store.entries, e.status = .queued →
      (∃ call ∈ e.calls, call.active = true) ∨ maxConcurrent e.type ≤ c.store.active e.type := by
  intro hall
  obtain ⟨c, hrun, hq⟩ := transfers.exists_reach_of_exec ⟨.empty, []⟩
    [.env .enqueueUpload, .env .cancelAll,
      .env (.executed 0 0 (.error (.domException "AbortError" "aborted"))), .env (.finalized 0 0)]
    (fun c => c.store.active .upload < 0) (by decide)
  have hle := ((hall c hrun).1 .upload).2.1
  exact absurd hle (Int.not_le.mpr (of_decide_eq_true hq))

/-! ## One call for an entry, and one end -/

def TransferStatus.isFinal : TransferStatus → Bool
  | .completed | .failed | .cancelled => true
  | _ => false

/-- How the promise of an entry of this status has settled. -/
def resultOf : TransferStatus → Option Settled
  | .completed => some .resolved
  | .failed | .cancelled => some .rejected
  | _ => none

/-- The call has returned. -/
def Call.over (call : Call) : Bool := call.point = .returned || call.point = .finalized

namespace Queues

/-- What a drain picks: the first queued entries, as many as slots are free. -/
def picks (t : TransferType) (s : Queues) : List Nat :=
  ((s.queue t).filter s.isQueued).take (maxConcurrent t - s.active t).toNat

/-- No entry that the drain picks has a call that has not returned. -/
def freshPicks (t : TransferType) (s : Queues) : Bool :=
  (s.picks t).all fun i => s.entries[i]?.all fun e => e.calls.all Call.over

end Queues

/-- The drains pick no entry that waits for its retry, and no `execute` of a
cancelled entry succeeds. -/
def orderly (s : Queues) : Event → Bool
  | .enqueueUpload => s.enqueuedUpload.freshPicks .upload
  | .enqueueDownload => (s.enqueuedDownload PRIORITY_NORMAL).freshPicks .download
  | .enqueueThumbnailDownload => (s.enqueuedDownload PRIORITY_THUMBNAIL).freshPicks .download
  | .finalized i k => (s.call? i k).all fun (e, call) =>
      (s.released i k e call.queue).freshPicks call.queue
  | .executed i _ (.ok _) => s.entries[i]?.all fun e => !e.isCancelled
  | _ => true

/-- What the one call of an entry has come to, if there is one. -/
def Stands (e : QueueEntry) : Option Call → Prop
  | none => e.executed = 0 ∧ (e.status = .queued ∨ e.status = .cancelled)
  | some call =>
      match call.point with
      | .executing n => n ≤ MAX_RETRIES ∧ e.executed = n + 1
          ∧ (e.status = .in_progress ∨ e.status = .cancelled)
      | .sleeping n => n ≤ MAX_RETRIES ∧ e.executed = n
          ∧ (e.status = .queued ∨ e.status = .cancelled)
      | _ => e.executed ≤ MAX_RETRIES + 1 ∧ e.status.isFinal = true

structure Once (e : QueueEntry) : Prop where
  single : e.calls.length ≤ 1
  result : e.result = resultOf e.status
  stands : Stands e e.calls.head?

/-- The statuses that have become final have stayed. -/
structure Persists (s s' : Queues) : Prop where
  length : s.entries.length ≤ s'.entries.length
  status : ∀ (i : Nat) (e e' : QueueEntry), s.entries[i]? = some e → s'.entries[i]? = some e' →
    e.status.isFinal = true → e'.status = e.status

structure Sound (s : Queues) : Prop where
  once : ∀ (i : Nat) (e : QueueEntry), s.entries[i]? = some e → Once e
  live : ∀ t, ∀ i ∈ s.queue t, ∃ e, s.entries[i]? = some e ∧ e.type = t ∧ e.status.isFinal = false
  nodup : ∀ t, (s.queue t).Nodup

theorem Persists.refl (s : Queues) : Persists s s :=
  ⟨Nat.le_refl _, fun _ _ _ he he' _ => by rw [Option.some.inj (he.symm.trans he')]⟩

theorem Persists.trans {s₁ s₂ s₃ : Queues} (h : Persists s₁ s₂) (h' : Persists s₂ s₃) :
    Persists s₁ s₃ := by
  refine ⟨Nat.le_trans h.length h'.length, fun i e₁ e₃ he₁ he₃ hf => ?_⟩
  obtain ⟨hlt, -⟩ := List.getElem?_eq_some_iff.mp he₁
  obtain ⟨e₂, he₂⟩ : ∃ e₂, s₂.entries[i]? = some e₂ :=
    ⟨_, List.getElem?_eq_getElem (Nat.lt_of_lt_of_le hlt h.length)⟩
  have hsame := h.status i e₁ e₂ he₁ he₂ hf
  exact (h'.status i e₂ e₃ he₂ he₃ (hsame ▸ hf)).trans hsame

/-- Where an entry has a call, it is the only one. -/
theorem Once.calls (h : Once e) (hcall : e.calls[k]? = some call) :
    k = 0 ∧ e.calls = [call] := by
  obtain ⟨hlt, -⟩ := List.getElem?_eq_some_iff.mp hcall
  have hk : k = 0 := by
    have := h.single
    omega
  subst hk
  obtain ⟨c, hc⟩ := List.length_eq_one_iff.mp (Nat.le_antisymm h.single hlt)
  rw [hc] at hcall ⊢
  exact ⟨rfl, congrArg (fun c => [c]) (Option.some.inj hcall)⟩

/-- The one call goes on. -/
theorem Once.goesTo (h : Once e) (hcall : e.calls[k]? = some call) {point : Point}
    (hcalls : e'.calls = e.calls) (hresult : e'.result = resultOf e'.status)
    (hstands : Stands e' (some { call with point })) : Once (e'.goesTo k point) := by
  obtain ⟨rfl, hone⟩ := h.calls hcall
  have hcall' : e'.calls[0]? = some call := by rw [hcalls, hcall]
  have hset : (e'.goesTo 0 point).calls = [{ call with point }] := by
    rw [QueueEntry.calls_goesTo hcall', hcalls, hone]
    rfl
  refine ⟨by rw [hset]; exact Nat.le_refl _, hresult, ?_⟩
  rw [hset]
  exact hstands

/-- Where the one call stands, with the point it is at. -/
theorem Once.standsAt (h : Once e) (hcall : e.calls[k]? = some call) : Stands e (some call) := by
  obtain ⟨-, hone⟩ := h.calls hcall
  have hstands := h.stands
  rw [hone] at hstands
  exact hstands

theorem Once.wake (h : Once e) (hcall : e.calls[k]? = some call) {attempt : Nat}
    (hpoint : call.point = .sleeping attempt) : Once (e.wake k attempt)
      ∧ (e.status.isFinal = true → (e.wake k attempt).status = e.status) := by
  have hstands := h.standsAt hcall
  simp only [Stands, hpoint] at hstands
  obtain ⟨hle, hexec, hstatus⟩ := hstands
  have hresult := h.result
  unfold QueueEntry.wake
  split
  · next hc =>
      rw [QueueEntry.isCancelled_iff] at hc
      refine ⟨h.goesTo hcall rfl h.result ?_, fun _ => rfl⟩
      exact ⟨by omega, by rw [hc]; rfl⟩
  · next hc =>
      rw [QueueEntry.isCancelled_iff] at hc
      have hq := hstatus.resolve_right hc
      rw [hq] at hresult
      refine ⟨h.goesTo hcall rfl hresult ?_, fun hf => ?_⟩
      · exact ⟨hle, by rw [← hexec], .inl rfl⟩
      · rw [hq] at hf
        cases hf

theorem Once.executes (h : Once e) (hcall : e.calls[k]? = some call) {attempt : Nat}
    (hpoint : call.point = .executing attempt) (result : Except TransferError Unit)
    (hok : result = .ok () → e.status ≠ .cancelled) : Once (e.executes k attempt result).1
      ∧ (e.status.isFinal = true → (e.executes k attempt result).1.status = e.status) := by
  have hstands := h.standsAt hcall
  simp only [Stands, hpoint] at hstands
  obtain ⟨hle, hexec, hstatus⟩ := hstands
  have hresult := h.result
  -- unless it was cancelled the entry is in progress and its promise open
  have hopen : e.status ≠ .cancelled → e.status = .in_progress ∧ e.result = none := fun hc => by
    have hq := hstatus.resolve_right hc
    rw [hq] at hresult
    exact ⟨hq, hresult⟩
  rcases QueueEntry.executes_cases k attempt result with ⟨hr, heq⟩ | ⟨hc, heq⟩
    | ⟨hc, status, progress, hs, heq⟩ | ⟨hc, hle', heq⟩
  · obtain ⟨hq, hnone⟩ := hopen (hok hr)
    rw [heq]
    refine ⟨h.goesTo hcall rfl ?_ ⟨hexec ▸ Nat.succ_le_succ hle, rfl⟩, fun hf => ?_⟩
    · simp [QueueEntry.resolve, hnone, resultOf]
    · rw [hq] at hf
      cases hf
  · rw [heq]
    exact ⟨h.goesTo hcall rfl h.result ⟨by omega, by rw [hc]; rfl⟩, fun _ => rfl⟩
  · obtain ⟨hq, hnone⟩ := hopen hc
    rw [heq]
    refine ⟨h.goesTo hcall rfl ?_ ⟨?_, ?_⟩, fun hf => ?_⟩
    · rcases hs with rfl | rfl <;> simp [QueueEntry.reject, hnone, resultOf]
    · simp only [QueueEntry.reject]
      omega
    · rcases hs with rfl | rfl <;> rfl
    · rw [hq] at hf
      cases hf
  · obtain ⟨hq, hnone⟩ := hopen hc
    rw [heq]
    refine ⟨h.goesTo hcall rfl hnone ⟨hle', hexec, .inl rfl⟩, fun hf => ?_⟩
    rw [hq] at hf
    cases hf

theorem Once.finalize (h : Once e) (hcall : e.calls[k]? = some call)
    (hpoint : call.point = .returned) : Once (e.goesTo k .finalized) := by
  have hstands := h.standsAt hcall
  simp only [Stands, hpoint] at hstands
  exact h.goesTo hcall rfl h.result hstands

theorem Once.cancel (h : Once e) (hlive : e.status.isFinal = false) : Once e.cancel := by
  have hnone : e.result = none := by
    rw [h.result]
    cases hs : e.status <;> rw [hs] at hlive <;> first | rfl | cases hlive
  refine ⟨h.single, by simp [QueueEntry.cancel, QueueEntry.reject, hnone, resultOf], ?_⟩
  have hstands := h.stands
  have hcalls : e.cancel.calls = e.calls := rfl
  rw [hcalls]
  cases hcall : e.calls.head? with
  | none =>
      rw [hcall] at hstands
      exact ⟨hstands.1, .inr rfl⟩
  | some call =>
      rw [hcall] at hstands
      simp only [Stands] at hstands ⊢
      split at hstands
      · exact ⟨hstands.1, hstands.2.1, .inr rfl⟩
      · exact ⟨hstands.1, hstands.2.1, .inr rfl⟩
      · exact ⟨hstands.1, rfl⟩

/-- An entry that is picked while no call of it is running has had none. -/
theorem Once.started (h : Once e) (hq : e.status = .queued) (hover : e.calls.all Call.over = true) :
    Once (Queues.started t e) := by
  have hnil : e.calls = [] := by
    cases hcalls : e.calls with
    | nil => rfl
    | cons call calls =>
        have hstands := h.stands
        rw [hcalls] at hstands hover
        simp only [List.all_cons, Bool.and_eq_true, Call.over, Bool.or_eq_true,
          decide_eq_true_eq] at hover
        simp only [List.head?_cons, Stands] at hstands
        rcases hover.1 with hp | hp
        · rw [hp] at hstands
          rw [hq] at hstands
          cases hstands.2
        · rw [hp] at hstands
          rw [hq] at hstands
          cases hstands.2
  have hstands := h.stands
  have hresult := h.result
  rw [hnil] at hstands
  rw [hq] at hresult
  refine ⟨by simp [Queues.started, hnil], hresult, ?_⟩
  simp only [Queues.started, hnil, List.nil_append, List.head?_cons]
  exact ⟨Nat.zero_le _, congrArg (· + 1) hstands.1, .inl rfl⟩

theorem Once.executed_le (h : Once e) : e.executed ≤ MAX_RETRIES + 1 := by
  have hstands := h.stands
  cases hcall : e.calls.head? with
  | none =>
      rw [hcall] at hstands
      exact hstands.1 ▸ Nat.zero_le _
  | some call =>
      rw [hcall] at hstands
      simp only [Stands] at hstands
      split at hstands <;> omega

namespace Sound

theorem persists_put (he : s.entries[i]? = some e)
    (hf : e.status.isFinal = true → e'.status = e.status) : Persists s (s.put i e') := by
  refine ⟨by simp [Queues.put], fun j f f' hj hj' hfinal => ?_⟩
  rw [Queues.getElem?_put he] at hj'
  split at hj'
  · next hij =>
      subst hij
      obtain rfl := Option.some.inj (he.symm.trans hj)
      obtain rfl := Option.some.inj hj'
      exact hf hfinal
  · rw [Option.some.inj (hj.symm.trans hj')]

/-- An entry goes on; if it has ended it is in no queue. -/
theorem put (h : Sound s) (he : s.entries[i]? = some e) (hone : Once e')
    (htype : e'.type = e.type) (hlive : ∀ t, i ∈ s.queue t → e'.status.isFinal = false) :
    Sound (s.put i e') := by
  refine ⟨fun j f hf => ?_, fun t j hj => ?_, h.nodup⟩
  · rw [Queues.getElem?_put he] at hf
    split at hf
    · exact Option.some.inj hf ▸ hone
    · exact h.once j f hf
  · obtain ⟨f, hf, htype', hfinal⟩ := h.live t j hj
    rw [Queues.getElem?_put he]
    split
    · next hij =>
        subst hij
        obtain rfl := Option.some.inj (he.symm.trans hf)
        exact ⟨e', rfl, htype.trans htype', hlive t hj⟩
    · exact ⟨f, hf, htype', hfinal⟩

theorem live_of_mem (h : Sound s) (he : s.entries[i]? = some e) (hi : i ∈ s.queue t) :
    e.type = t ∧ e.status.isFinal = false := by
  obtain ⟨f, hf, htype, hfinal⟩ := h.live t i hi
  obtain rfl := Option.some.inj (he.symm.trans hf)
  exact ⟨htype, hfinal⟩

/-- An entry leaves its queue, and is in no other. -/
theorem erase (h : Sound s) (he : s.entries[i]? = some e) :
    Sound (s.setQueue e.type ((s.queue e.type).erase i))
      ∧ ∀ t, i ∉ (s.setQueue e.type ((s.queue e.type).erase i)).queue t := by
  refine ⟨⟨h.once, fun t j hj => ?_, fun t => ?_⟩, fun t hi => ?_⟩
  · simp only [Queues.setQueue] at hj
    split at hj
    · next ht => exact h.live t j (ht ▸ List.mem_of_mem_erase hj)
    · exact h.live t j hj
  · simp only [Queues.setQueue]
    split
    · exact (h.nodup _).erase i
    · exact h.nodup t
  · simp only [Queues.setQueue] at hi
    split at hi
    · exact (h.nodup e.type).not_mem_erase hi
    · next ht => exact ht (h.live_of_mem he hi).1.symm

theorem goOn (h : Sound s) (he : s.entries[i]? = some e) {r : QueueEntry × Bool}
    (hone : Once r.1) (htype : r.1.type = e.type)
    (hlive : r.2 = false → e.status.isFinal = false → r.1.status.isFinal = false) :
    Sound (s.goOn i r) := by
  unfold Queues.goOn
  split
  · obtain ⟨herase, hgone⟩ := h.erase he
    rw [Queues.removeFromQueue, htype]
    exact herase.put he hone htype fun t hi => absurd hi (hgone t)
  · next hstays =>
      exact h.put he hone htype fun t hi =>
        hlive (by simpa using hstays) (h.live_of_mem he hi).2

theorem isQueued_put (he : s.entries[i]? = some e) (hq : e'.status ≠ .queued) :
    (s.put i e').isQueued = fun j => j != i && s.isQueued j := by
  funext j
  rw [Queues.isQueued, Queues.getElem?_put he]
  split
  · next hij =>
      subst hij
      simp [hq]
  · next hij => simp [Queues.isQueued, Ne.symm hij]

theorem start (h : Sound s) (he : s.entries[i]? = some e) (hq : e.status = .queued)
    (hover : e.calls.all Call.over = true) :
    Sound ((s.setActive t (s.active t + 1)).put i (Queues.started t e))
      ∧ Persists s ((s.setActive t (s.active t + 1)).put i (Queues.started t e)) := by
  have hactive : Sound (s.setActive t (s.active t + 1)) := ⟨h.once, h.live, h.nodup⟩
  refine ⟨hactive.put he ((h.once i e he).started hq hover) rfl fun _ _ => rfl, ?_⟩
  have hput : Persists (s.setActive t (s.active t + 1))
      ((s.setActive t (s.active t + 1)).put i (Queues.started t e)) := by
    refine persists_put he fun hf => ?_
    rw [hq] at hf
    cases hf
  exact ⟨hput.length, hput.status⟩

theorem drainLoop {n : Nat} (h : Sound s)
    (hpicks : ∀ i ∈ ((s.queue t).filter s.isQueued).take n, ∀ e, s.entries[i]? = some e →
      e.calls.all Call.over = true) :
    Sound (Queues.drainLoop t n s) ∧ Persists s (Queues.drainLoop t n s) := by
  induction n generalizing s with
  | zero => exact ⟨h, .refl s⟩
  | succ n ih =>
      rcases Queues.drainLoop_succ t n s with ⟨heq, -⟩ | ⟨i, e, hfind, he, hq, heq⟩
      · rw [heq]
        exact ⟨h, .refl s⟩
      · obtain ⟨rest, hrest⟩ : ∃ rest, (s.queue t).filter s.isQueued = i :: rest := by
          rw [← List.head?_filter] at hfind
          exact List.head?_eq_some_iff.mp hfind
        have hnodup := (h.nodup t).filter s.isQueued
        rw [hrest] at hpicks hnodup
        obtain ⟨hsound, hpersists⟩ := h.start (t := t) he hq (hpicks i (by simp) e he)
        have hpicks' : (((s.setActive t (s.active t + 1)).put i (Queues.started t e)).queue t).filter
            ((s.setActive t (s.active t + 1)).put i (Queues.started t e)).isQueued = rest := by
          rw [@isQueued_put (s.setActive t (s.active t + 1)) e (Queues.started t e) i he
            TransferStatus.noConfusion]
          have hsplit : (s.queue t).filter (fun j => j != i && s.isQueued j)
              = ((s.queue t).filter s.isQueued).filter (· != i) := List.filter_filter.symm
          refine hsplit.trans ?_
          rw [hrest, List.filter_cons_of_neg (by simp)]
          refine List.filter_eq_self.mpr fun j hj => ?_
          have hne : j ≠ i := fun hji => (List.nodup_cons.mp hnodup).1 (hji ▸ hj)
          simpa using hne
        rw [heq]
        obtain ⟨hsound', hpersists'⟩ := ih hsound fun j hj f hf => by
          rw [hpicks'] at hj
          have hne : i ≠ j := by
            rintro rfl
            exact (List.nodup_cons.mp hnodup).1 (List.mem_of_mem_take hj)
          have he' : (s.setActive t (s.active t + 1)).entries[i]? = some e := he
          rw [Queues.getElem?_put he', if_neg hne] at hf
          exact hpicks j (List.mem_cons_of_mem _ hj) f hf
        exact ⟨hsound', hpersists.trans hpersists'⟩

theorem drain (h : Sound s) (hfresh : s.freshPicks t = true) :
    Sound (s.drain t) ∧ Persists s (s.drain t) := by
  refine h.drainLoop fun i hi e he => ?_
  have hall := List.all_eq_true.mp hfresh i hi
  rw [he] at hall
  exact hall

/-- A new entry at some place of its queue. -/
theorem enqueue (h : Sound s) (priority : Nat) {queue : List Nat}
    (hqueue : queue.Perm (s.entries.length :: s.queue t)) :
    Sound ({ s with entries := s.entries ++ [Queues.newEntry t priority] }.setQueue t queue)
      ∧ Persists s
        ({ s with entries := s.entries ++ [Queues.newEntry t priority] }.setQueue t queue) := by
  have hlt : ∀ t' i, i ∈ s.queue t' → i < s.entries.length := fun t' i hi => by
    obtain ⟨e, he, -⟩ := h.live t' i hi
    exact (List.getElem?_eq_some_iff.mp he).1
  have hold : ∀ t' i, i ∈ s.queue t' → ∃ e,
      (s.entries ++ [Queues.newEntry t priority])[i]? = some e ∧ e.type = t'
        ∧ e.status.isFinal = false := fun t' i hi => by
    rw [List.getElem?_append_left (hlt t' i hi)]
    exact h.live t' i hi
  refine ⟨⟨fun i e he => ?_, fun t' i hi => ?_, fun t' => ?_⟩, ?_, fun i e e' he he' _ => ?_⟩
  · rcases getElem?_concat_cases he with he | ⟨-, rfl⟩
    · exact h.once i e he
    · exact ⟨Nat.zero_le _, rfl, rfl, .inl rfl⟩
  · simp only [Queues.setQueue] at hi
    split at hi
    · next ht =>
        rcases List.mem_cons.mp (hqueue.mem_iff.mp hi) with rfl | hi
        · exact ⟨_, List.getElem?_concat_length, ht.symm, rfl⟩
        · exact hold t' i (ht ▸ hi)
    · exact hold t' i hi
  · simp only [Queues.setQueue]
    split
    · refine hqueue.nodup_iff.mpr (List.nodup_cons.mpr ⟨fun hmem => ?_, h.nodup t⟩)
      exact Nat.lt_irrefl _ (hlt t _ hmem)
    · exact h.nodup t'
  · simp [Queues.setQueue]
  · have hsame := (List.getElem?_append_left (List.getElem?_eq_some_iff.mp he).1).symm.trans he'
    rw [Option.some.inj (he.symm.trans hsame)]

theorem cancelInQueue (h : Sound s) (transferId : TransferId) :
    Sound (s.cancelInQueue t transferId) ∧ Persists s (s.cancelInQueue t transferId) := by
  unfold Queues.cancelInQueue
  split
  · exact ⟨h, .refl s⟩
  · next i hfind =>
      split
      · exact ⟨h, .refl s⟩
      · next e he =>
          obtain ⟨rfl, hlive⟩ := h.live_of_mem he (List.mem_of_find?_eq_some hfind)
          obtain ⟨herase, hgone⟩ := h.erase he
          have hput : Persists s (s.put i e.cancel) := persists_put he fun hf => by
            rw [hlive] at hf
            cases hf
          exact ⟨herase.put he ((h.once i e he).cancel hlive) rfl
            fun t hi => absurd hi (hgone t), hput.length, hput.status⟩

theorem cancelAllInQueue (h : Sound s) :
    Sound (s.cancelAllInQueue t) ∧ Persists s (s.cancelAllInQueue t) := by
  have hlength := Queues.cancelEntries_length (s.queue t) s
  obtain ⟨hqueue, -⟩ := Queues.cancelEntries_same (s.queue t) s
  refine ⟨⟨fun i e he => ?_, fun t' i hi => ?_, fun t' => ?_⟩, Nat.le_of_eq hlength.symm,
    fun i e e' he he' hf => ?_⟩
  · rcases Queues.cancelEntries_cases he with ⟨-, he'⟩ | ⟨hi, e', he', rfl⟩
    · exact h.once i e he'
    · exact (h.once i e' he').cancel (h.live_of_mem he' hi).2
  · simp only [Queues.cancelAllInQueue, Queues.setQueue, hqueue] at hi ⊢
    split at hi
    · cases hi
    · next ht =>
        obtain ⟨e, he, htype, hlive⟩ := h.live t' i hi
        have hlt := (List.getElem?_eq_some_iff.mp he).1
        rw [← hlength] at hlt
        rcases Queues.cancelEntries_cases (List.getElem?_eq_getElem hlt) with ⟨-, he'⟩ | ⟨hi', -⟩
        · exact ⟨e, (List.getElem?_eq_getElem hlt).trans (he'.symm.trans he), htype, hlive⟩
        · exact absurd (htype.symm.trans (h.live_of_mem he hi').1) ht
  · simp only [Queues.cancelAllInQueue, Queues.setQueue, hqueue]
    split
    · exact List.nodup_nil
    · exact h.nodup t'
  · rcases Queues.cancelEntries_cases he' with ⟨-, he'⟩ | ⟨hi, -⟩
    · rw [Option.some.inj (he.symm.trans he')]
    · rw [(h.live_of_mem he hi).2] at hf
      cases hf

end Sound

theorem step_sound (h : Sound s) {s' : Queues} {event : Event} (ho : orderly s event = true)
    (hs : step s event = some s') : Sound s' ∧ Persists s s' := by
  rcases step_cases hs with ⟨rfl, rfl⟩ | ⟨priority, hpriority, rfl⟩ | ⟨transferId, -, rfl⟩
    | ⟨-, rfl⟩ | ⟨i, percent, e, -, he, rfl⟩
    | ⟨i, k, e, call, attempt, -, he, hcall, hpoint, rfl⟩
    | ⟨i, k, result, e, call, attempt, rfl, he, hcall, hpoint, rfl⟩
    | ⟨i, k, e, call, rfl, he, hcall, hpoint, rfl⟩
  · obtain ⟨hsound, hpersists⟩ := h.enqueue PRIORITY_NORMAL (t := .upload)
      (List.perm_append_singleton ..)
    obtain ⟨hsound', hpersists'⟩ := hsound.drain ho
    exact ⟨hsound', hpersists.trans hpersists'⟩
  · obtain ⟨hsound, hpersists⟩ := h.enqueue priority (t := .download)
      (perm_insertByPriority (s.queue .download) s.entries.length priority)
    have hfresh : (s.enqueuedDownload priority).freshPicks .download = true := by
      rcases hpriority with ⟨rfl, rfl⟩ | ⟨rfl, rfl⟩ <;> exact ho
    obtain ⟨hsound', hpersists'⟩ := hsound.drain hfresh
    exact ⟨hsound', hpersists.trans hpersists'⟩
  · obtain ⟨hsound, hpersists⟩ := h.cancelInQueue transferId (t := .upload)
    obtain ⟨hsound', hpersists'⟩ := hsound.cancelInQueue transferId (t := .download)
    exact ⟨hsound', hpersists.trans hpersists'⟩
  · obtain ⟨hsound, hpersists⟩ := h.cancelAllInQueue (t := .upload)
    obtain ⟨hsound', hpersists'⟩ := hsound.cancelAllInQueue (t := .download)
    have hall := hpersists.trans hpersists'
    exact ⟨⟨hsound'.once, hsound'.live, hsound'.nodup⟩, hall.length, hall.status⟩
  · obtain ⟨hsingle, hresult, hstands⟩ := h.once i e he
    exact ⟨h.put he ⟨hsingle, hresult, hstands⟩ rfl fun t hi => (h.live_of_mem he hi).2,
      Sound.persists_put he fun _ => rfl⟩
  · obtain ⟨hone, hf⟩ := (h.once i e he).wake hcall hpoint
    have htype := (QueueEntry.continues_wake hcall hpoint).type
    refine ⟨h.put he hone htype fun t hi => ?_, Sound.persists_put he hf⟩
    have hlive := (h.live_of_mem he hi).2
    unfold QueueEntry.wake
    split
    · next hc =>
        rw [QueueEntry.isCancelled_iff.mp hc] at hlive
        cases hlive
    · rfl
  · have hok : result = .ok () → e.status ≠ .cancelled := by
      rintro rfl
      simpa [orderly, he, QueueEntry.isCancelled] using ho
    obtain ⟨hone, hf⟩ := (h.once i e he).executes hcall hpoint result hok
    have htype := (QueueEntry.continues_executes hcall hpoint result).type
    refine ⟨h.goOn he hone htype fun hstays hlive => ?_, ?_⟩
    · rcases QueueEntry.executes_cases k attempt result with ⟨-, heq⟩ | ⟨hc, -⟩
        | ⟨-, status, progress, -, heq⟩ | ⟨-, -, heq⟩
      · rw [heq] at hstays
        cases hstays
      · rw [hc] at hlive
        cases hlive
      · rw [heq] at hstays
        cases hstays
      · rw [heq]
        rfl
    · have hput := Sound.persists_put he hf
      unfold Queues.goOn
      split
      · exact ⟨hput.length, hput.status⟩
      · exact hput
  · have hone := (h.once i e he).finalize hcall hpoint
    have hput : Sound (s.put i (e.goesTo k .finalized)) :=
      h.put he hone rfl fun t hi => (h.live_of_mem he hi).2
    have hpersists : Persists s (s.put i (e.goesTo k .finalized)) :=
      Sound.persists_put he fun _ => rfl
    have hreleased : Sound (s.released i k e call.queue) := ⟨hput.once, hput.live, hput.nodup⟩
    have hpersists' : Persists s (s.released i k e call.queue) :=
      ⟨hpersists.length, hpersists.status⟩
    have hfresh : (s.released i k e call.queue).freshPicks call.queue = true := by
      simpa [orderly, call?_eq_some.mpr ⟨he, hcall⟩] using ho
    obtain ⟨hsound, hdrained⟩ := hreleased.drain hfresh
    exact ⟨hsound, hpersists'.trans hdrained⟩

/-- The condition on the steps of a run. -/
def Orderly (c : Conf Queues Empty) : Action Empty Event → Prop
  | .env event => orderly c.store event = true
  | _ => True

theorem sound_preserved : transfers.Preserves Orderly fun c => Sound c.store :=
  ⟨fun _ p => p.elim, fun _ _ p => p.elim, fun _ _ _ hi hg he => (step_sound hi hg he).1⟩

theorem run_persists {c c' : Conf Queues Empty} (hsound : Sound c.store)
    (h : transfers.Run Orderly c c') : Persists c.store c'.store := by
  induction h with
  | refl => exact .refl _
  | tail hrun hg hs ih =>
      have hi := hrun.invariant sound_preserved hsound
      rcases Server.next_cases hs with ⟨p, -⟩ | ⟨i, p, -⟩ | ⟨event, s', rfl, he, rfl⟩
      · exact p.elim
      · exact p.elim
      · exact ih.trans (step_sound hi hg he).2

/-- In every run in which no drain picks an entry that waits for its retry and
no `execute` of a cancelled entry succeeds: an entry has one call at most, is
executed four times at most, and once it has ended keeps its status, which its
promise agrees with. -/
theorem ends_once {c c' : Conf Queues Empty}
    (h : transfers.Run Orderly ⟨.empty, []⟩ c) (h' : transfers.Run Orderly c c') :
    (∀ e ∈ c.store.entries, e.calls.countP Call.active ≤ 1 ∧ e.executed ≤ 4
      ∧ (e.status.isFinal = true →
        e.result.isSome ∧ (e.result = some .resolved ↔ e.status = .completed)))
    ∧ ∀ (i : Nat) (e e' : QueueEntry), c.store.entries[i]? = some e →
      c'.store.entries[i]? = some e' → e.status.isFinal = true → e'.status = e.status := by
  have hempty : Sound Queues.empty :=
    ⟨fun _ _ he => (by cases he), fun _ _ hi => absurd hi List.not_mem_nil,
      fun _ => List.nodup_nil⟩
  have hi := h.invariant sound_preserved hempty
  refine ⟨fun e he => ?_, (run_persists hi h').status⟩
  obtain ⟨i, hget⟩ := List.mem_iff_getElem?.mp he
  have hone := hi.once i e hget
  refine ⟨Nat.le_trans List.countP_le_length hone.single, hone.executed_le, fun hf => ?_⟩
  rw [hone.result]
  cases hs : e.status <;> simp [hs, TransferStatus.isFinal, resultOf] at hf ⊢

def networkError : TransferError := .fileTransferError .network true

/-- A download that fails once, is tried again and succeeds. -/
def retrying : List (Action Empty Event) :=
  [.env .enqueueDownload, .env (.executed 0 0 (.error networkError)), .env (.slept 0 0),
    .env (.executed 0 0 (.ok ())), .env (.finalized 0 0)]

def isOrderly (c : Conf Queues Empty) : Action Empty Event → Bool
  | .env event => orderly c.store event
  | _ => true

theorem orderly_of_isOrderly (c : Conf Queues Empty) {a : Action Empty Event}
    (h : isOrderly c a = true) : Orderly c a := by
  cases a with
  | env event => exact h
  | _ => trivial

theorem ends_once_retrying : ∃ c, transfers.Run Orderly ⟨.empty, []⟩ c
    ∧ c.store.entries.map (·.status) = [.completed] ∧ ∀ e ∈ c.store.entries, e.executed ≤ 4 := by
  obtain ⟨c, hrun, hq⟩ : ∃ c, transfers.Run Orderly ⟨.empty, []⟩ c
      ∧ decide (c.store.entries.map (·.status) = [.completed]) = true :=
    transfers.exists_run_of_execWhile isOrderly ⟨.empty, []⟩ retrying _
      (fun c _ => orderly_of_isOrderly c) (by decide)
  exact ⟨c, hrun, of_decide_eq_true hq, fun e he => ((ends_once hrun (.refl c)).1 e he).2.1⟩

/-- A download that waits for its retry is picked by the drain of the next one. -/
theorem processed_twice : ¬ ∀ c c', transfers.Reach ⟨.empty, []⟩ c → transfers.Reach c c' →
    (∀ e ∈ c.store.entries, e.calls.countP Call.active ≤ 1 ∧ e.executed ≤ 4
      ∧ (e.status.isFinal = true →
        e.result.isSome ∧ (e.result = some .resolved ↔ e.status = .completed)))
    ∧ ∀ (i : Nat) (e e' : QueueEntry), c.store.entries[i]? = some e →
      c'.store.entries[i]? = some e' → e.status.isFinal = true → e'.status = e.status := by
  intro hall
  obtain ⟨c, hrun, hq⟩ := transfers.exists_reach_of_exec ⟨.empty, []⟩
    [.env .enqueueDownload, .env (.executed 0 0 (.error networkError)), .env .enqueueDownload]
    (fun c => c.store.entries.any fun e => 1 < e.calls.countP Call.active) (by decide)
  obtain ⟨e, he, htwo⟩ := List.any_eq_true.mp hq
  exact absurd ((hall c c hrun (.refl c)).1 e he).1 (Nat.not_le.mpr (of_decide_eq_true htwo))

-- A thumbnail that arrives after it was cancelled is reported as completed.
example : (transfers.exec ⟨.empty, []⟩ [.env .enqueueThumbnailDownload,
      .env (.cancel ⟨.download, 0⟩), .env (.executed 0 0 (.ok ()))]).map
        (fun c => c.store.entries.map fun e => (e.status, e.result))
    = some [(.completed, some .rejected)] := by decide

end TransferQueue

end BurnedChats

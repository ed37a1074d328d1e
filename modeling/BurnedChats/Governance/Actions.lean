import BurnedChats.Governance.Timelock
import BurnedChats.World

/-!
# What the timelock does

Every accepted execution of the timelock (`receive_acted`): an action is queued,
dispatched, relayed or cancelled. A dispatched body is the queued one with the
proposal id in place of its query id (`rewriteArgs_eq_ok`), and a returned body
re-arms the entry it names, whatever else it holds (`bounced_eq`).
-/

namespace BurnedChats

namespace Timelock

variable {ctx : Ctx} {s s' : Timelock} {b : Body} {out : List Msg}

/-! ## Bodies -/

/-- A body with its 64 bits of query id replaced. -/
def withQueryId (c : Cell) (id : Nat) : Cell :=
  .mk (c.bits.take 32 ++ natToBits 64 id ++ c.bits.drop 96) c.refs

theorem rewriteArgs_eq_ok {a : PendingAction} {c : Cell} :
    rewriteArgs a = .ok c ↔ 96 ≤ a.args.bits.length
      ∧ bitsToNat (a.args.bits.take 32) = a.method ∧ a.proposalId < 2 ^ 64
      ∧ c = withQueryId a.args a.proposalId := by
  have hop : 32 ≤ a.args.bits.length →
      natToBits 32 (bitsToNat (a.args.bits.take 32)) = a.args.bits.take 32 := by
    intro h
    have hlen : (a.args.bits.take 32).length = 32 := by
      rw [List.length_take]
      omega
    have hback := natToBits_bitsToNat (a.args.bits.take 32)
    rwa [hlen] at hback
  simp only [rewriteArgs, bind_eq_ok, Prod.exists, Slice.loadUint_eq_ok, require_eq_ok,
    exists_const, Slice.skipBits_eq_ok, Slice.storeUint_eq_ok, Except.ok.injEq, Cell.beginParse]
  constructor
  · rintro ⟨op, t, ⟨h32, rfl, rfl⟩, hm, u, ⟨h64, rfl⟩, b₁, ⟨-, -, rfl⟩, b₂, ⟨-, hid, rfl⟩, rfl⟩
    simp only [List.length_drop] at h64
    refine ⟨by omega, hm, by exact_mod_cast hid, ?_⟩
    simp only [Slice.storeSlice, Slice.storeBits, Slice.empty, Slice.endCell, withQueryId,
      Int.toNat_natCast, hop h32, List.nil_append, List.drop_drop]
  · rintro ⟨h96, hm, hid, rfl⟩
    have hlt : bitsToNat (a.args.bits.take 32) < 2 ^ 32 := by
      refine lt_of_lt_of_le (bitsToNat_lt _) (Nat.pow_le_pow_right (by omega) ?_)
      rw [List.length_take]
      omega
    refine ⟨_, _, ⟨by omega, rfl, rfl⟩, hm, _, ⟨?_, rfl⟩, _, ⟨by omega, by exact_mod_cast hlt, rfl⟩,
      _, ⟨by omega, by exact_mod_cast hid, rfl⟩, ?_⟩
    · simp only [List.length_drop]
      omega
    · simp only [Slice.storeSlice, Slice.storeBits, Slice.empty, Slice.endCell, withQueryId,
        Int.toNat_natCast, hop (by omega), List.nil_append, List.drop_drop]

/-- The entry a returned body names. -/
def named : Body → Option Nat
  | .raw c =>
      if 96 ≤ c.bits.length ∧ highValue (bitsToNat (c.bits.take 32)) = true then
        some (bitsToNat ((c.bits.drop 32).take 64))
      else none
  | _ => none

/-- A dispatched body names its entry. -/
theorem named_dispatched {a : PendingAction} {c : Cell} (hv : highValue a.method = true)
    (h : rewriteArgs a = .ok c) : named (.raw c) = some a.proposalId := by
  obtain ⟨hlen, hop, hid, rfl⟩ := rewriteArgs_eq_ok.mp h
  have h32 : (a.args.bits.take 32).length = 32 := by
    rw [List.length_take]
    omega
  have hbits : (withQueryId a.args a.proposalId).bits
      = a.args.bits.take 32 ++ (natToBits 64 a.proposalId ++ a.args.bits.drop 96) := by
    simp [withQueryId, Cell.bits]
  have htake : (withQueryId a.args a.proposalId).bits.take 32 = a.args.bits.take 32 := by
    rw [hbits, List.take_left' h32]
  have hdrop : ((withQueryId a.args a.proposalId).bits.drop 32).take 64
      = natToBits 64 a.proposalId := by
    rw [hbits, List.drop_left' h32, List.take_left' (natToBits_length 64 _)]
  have hlen' : 96 ≤ (withQueryId a.args a.proposalId).bits.length := by
    rw [hbits, List.length_append, List.length_append, h32, natToBits_length]
    omega
  simp only [named, htake, hdrop, hop, hv, hlen', and_self, if_true, bitsToNat_natToBits hid]

theorem bounced_eq (b : Body) :
    s.bounced ctx b = .ok (match named b with
      | some id => s.rearm ctx.sender id
      | none => s) := by
  cases b with
  | raw c =>
      simp only [bounced, named]
      have htake : ∀ {n : Nat}, n ≤ 256 → (c.bits.take 256).take n = c.bits.take n := by
        intro n hn
        rw [List.take_take, Nat.min_eq_left hn]
      have hdrop : (((c.bits.take 256).drop 32).take 64) = (c.bits.drop 32).take 64 := by
        rw [List.drop_take, List.take_take]
        rfl
      by_cases h96 : 96 ≤ c.bits.length
      · have hlong : ¬ (c.bits.take 256).length < 96 := by
          rw [List.length_take]
          omega
        have h32 : (⟨c.bits.take 256, []⟩ : Slice).loadUint 32
            = .ok (bitsToNat (c.bits.take 32), ⟨(c.bits.take 256).drop 32, []⟩) := by
          refine Slice.loadUint_eq_ok.mpr ⟨?_, ?_, rfl⟩
          · simp only
            omega
          · rw [htake (by omega)]
        have h64 : (⟨(c.bits.take 256).drop 32, []⟩ : Slice).loadUint 64
            = .ok (bitsToNat ((c.bits.drop 32).take 64), ⟨((c.bits.take 256).drop 32).drop 64, []⟩)
            := by
          refine Slice.loadUint_eq_ok.mpr ⟨?_, ?_, rfl⟩
          · simp only [List.length_drop]
            omega
          · rw [hdrop]
        rw [if_neg hlong, h32, ok_bind]
        simp only [h64, ok_bind, h96, true_and]
        cases hv : highValue (bitsToNat (c.bits.take 32)) with
        | true =>
            simp only [highValue, Bool.or_eq_true, decide_eq_true_eq] at hv
            rw [if_neg (by tauto), if_pos rfl]
        | false =>
            simp only [highValue, Bool.or_eq_false_iff, decide_eq_false_iff_not] at hv
            rw [if_pos hv]
            rfl
      · have hshort : (c.bits.take 256).length < 96 := by
          rw [List.length_take]
          omega
        rw [if_pos hshort, if_neg fun h => h96 h.1]
  | _ => rfl

section Rearm

variable {sender : Address} {n k : Nat}

theorem rearm_other (h : n ≠ k) :
    (s.rearm sender k).pendingActions.lookup n = s.pendingActions.lookup n := by
  unfold rearm
  split
  · rfl
  · split
    · rfl
    · simp [h]

theorem rearm_fixed : (s.rearm sender k).governor = s.governor
    ∧ (s.rearm sender k).highValueDelayFloorSec = s.highValueDelayFloorSec := by
  unfold rearm
  split
  · exact ⟨rfl, rfl⟩
  · split <;> exact ⟨rfl, rfl⟩

theorem rearm_none (h : s.pendingActions.lookup k = none) : s.rearm sender k = s := by
  simp only [rearm, h]

/-- The flagged entry is re-armed by its own target. -/
theorem rearm_self {a : PendingAction} (h : s.pendingActions.lookup k = some a)
    (ht : sender = a.target) (hex : a.executed = true) :
    (s.rearm sender k).pendingActions.lookup k = some { a with executed := false } := by
  simp [rearm, h, ht, hex]

/-- All else of an entry stays. -/
theorem rearm_from {a' : PendingAction}
    (h : (s.rearm sender k).pendingActions.lookup n = some a') :
    ∃ a, s.pendingActions.lookup n = some a ∧ (a' = a ∨ a' = { a with executed := false }) := by
  by_cases hnk : n = k
  · subst hnk
    cases ha : s.pendingActions.lookup n with
    | none =>
        rw [rearm_none ha, ha] at h
        cases h
    | some a =>
        refine ⟨a, rfl, ?_⟩
        simp only [rearm, ha] at h
        split at h
        · rw [ha] at h
          exact .inl (Option.some.inj h).symm
        · rw [AList.lookup_insert] at h
          exact .inr (Option.some.inj h).symm
  · rw [rearm_other hnk] at h
    exact ⟨a', h, .inl rfl⟩

end Rearm

/-! ## Executions -/

/-- The entry a queue request stores. -/
def entryOf (now : Nat) (msg : TimelockQueue) : PendingAction :=
  { proposalId := msg.proposalId, proposalContract := msg.proposalContract
    target := msg.target, method := msg.method, args := msg.args
    scheduledTime := now + msg.delay, executed := false }

/-- Everything an accepted execution of the timelock can be. -/
inductive Acted (ctx : Ctx) (s : Timelock) : Body → Timelock → List Msg → Prop where
  | queue {msg : TimelockQueue} :
      ctx.sender = s.governor → s.pendingActions.lookup msg.proposalId = none →
      (highValue msg.method = true → 0 < msg.delay ∧ s.highValueDelayFloorSec ≤ msg.delay) →
      Acted ctx s (.timelockQueue msg)
        { s with
          pendingActions := s.pendingActions.insert msg.proposalId (entryOf ctx.now msg) } []
  | dispatch {queryId id : Nat} {a : PendingAction} {c : Cell} :
      s.pendingActions.lookup id = some a → a.scheduledTime ≤ ctx.now → a.executed = false →
      highValue a.method = true → rewriteArgs a = .ok c →
      Acted ctx s (.timelockExecutePending queryId id)
        { s with pendingActions := s.pendingActions.insert id { a with executed := true } }
        [markExecuted ctx a queryId, ctx.message a.target ctx.remaining true (.raw c)]
  | relay {queryId id : Nat} {a : PendingAction} :
      s.pendingActions.lookup id = some a → a.scheduledTime ≤ ctx.now → a.executed = false →
      highValue a.method = false →
      Acted ctx s (.timelockExecutePending queryId id)
        { s with pendingActions := s.pendingActions.erase id }
        [markExecuted ctx a queryId,
         ctx.message a.target TIMELOCK_TARGET_GAS false (.raw a.args),
         ctx.cashback ctx.sender]
  | cancel {queryId id : Nat} {a : PendingAction} :
      ctx.sender = s.governor → s.pendingActions.lookup id = some a →
      Acted ctx s (.timelockCancel queryId id)
        { s with pendingActions := s.pendingActions.erase id } []
  | idle {out : List Msg} : (∀ r ∈ out, r = ctx.cashback ctx.sender) → Acted ctx s .empty s out

theorem scheduled_eq {now delay t : Nat} (h : uintField 64 (now + delay) = .ok t) :
    t = now + delay := by
  have := (uintField_eq_ok h).1
  omega

theorem receive_acted (h : s.receive ctx b = .ok (s', out)) : Acted ctx s b s' out := by
  unfold receive at h
  split at h
  · obtain ⟨rfl, rfl⟩ := Prod.mk.inj (Except.ok.inj h)
    refine .idle fun r hr => ?_
    split at hr
    · exact List.mem_singleton.mp hr
    · cases hr
  · simp only [receiveQueue, bind_eq_ok, require_eq_ok, exists_const,
      Option.isNone_iff_eq_none] at h
    obtain ⟨hgov, hnone, h⟩ := h
    split at h
    · simp only [bind_eq_ok, require_eq_ok, exists_const, Except.ok.injEq, Prod.mk.injEq] at h
      obtain ⟨hdelay, t, ht, rfl, rfl⟩ := h
      obtain rfl := scheduled_eq ht
      exact Acted.queue hgov hnone fun _ => hdelay
    · rename_i hv
      simp only [bind_eq_ok, require_eq_ok, exists_const, Except.ok.injEq, Prod.mk.injEq] at h
      obtain ⟨-, t, ht, rfl, rfl⟩ := h
      obtain rfl := scheduled_eq ht
      exact Acted.queue hgov hnone fun hv' => absurd hv' hv
  · simp only [receiveExecutePending] at h
    split at h
    · cases h
    · rename_i a ha
      simp only [bind_eq_ok, require_eq_ok, exists_const] at h
      obtain ⟨htime, hex, h⟩ := h
      split at h
      · rename_i hv
        simp only [executeHighValue, bind_eq_ok, require_eq_ok, exists_const, Except.ok.injEq,
          Prod.mk.injEq] at h
        obtain ⟨-, c, hc, rfl, rfl⟩ := h
        exact Acted.dispatch ha htime hex hv hc
      · rename_i hv
        obtain ⟨rfl, rfl⟩ := Prod.mk.inj (Except.ok.inj h)
        exact Acted.relay ha htime hex (by simpa using hv)
  · simp only [receiveCancel, bind_eq_ok, require_eq_ok, exists_const, Except.ok.injEq,
      Prod.mk.injEq] at h
    obtain ⟨hgov, hsome, rfl, rfl⟩ := h
    obtain ⟨a, ha⟩ := Option.isSome_iff_exists.mp hsome
    exact Acted.cancel hgov ha
  · cases h

end Timelock

end BurnedChats

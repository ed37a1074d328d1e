import BurnedChats.Governance.Actions
import BurnedChats.Governance.Proposal
import BurnedChats.Treasury

/-!
# From payload to dispatched body

A payload is parsed four times on its way: by the governor's check, by the
proposal, by the timelock (which rewrites the query id) and by the target. Here
the parsers are shown to agree. A payload that passes the check is decoded by the
proposal (`queueRequest_ok`); what the timelock dispatches for the decoded
request is what the payload says (`voted_of_dispatch`, `voted_of_relay`).
-/

namespace BurnedChats

open Timelock

/-! ## Spends -/

namespace TreasurySpend

def bits (m : TreasurySpend) : List Bool :=
  natToBits 32 opcode ++ (natToBits 64 m.queryId ++ (Slice.addressBits m.recipient
    ++ (Slice.coinBits m.amount ++ natToBits 64 m.proposalId)))

theorem toCell_eq_ok {m : TreasurySpend} {c : Cell} :
    m.toCell = .ok c ↔ m.queryId < 2 ^ 64 ∧ m.amount < 2 ^ 120 ∧ m.proposalId < 2 ^ 64
      ∧ c = .mk m.bits [m.reason] := by
  simp only [toCell, bind_eq_ok, Slice.storeUint_eq_ok, Slice.storeCoins_eq_ok, Except.ok.injEq]
  constructor
  · rintro ⟨b₁, ⟨-, -, rfl⟩, b₂, ⟨-, hq, rfl⟩, b₃, ⟨ha, rfl⟩, b₄, ⟨-, hp, rfl⟩, rfl⟩
    refine ⟨by exact_mod_cast hq, ha, by exact_mod_cast hp, ?_⟩
    simp [Slice.endCell, Slice.storeBits, Slice.storeAddress, Slice.storeRef, Slice.empty, bits]
  · rintro ⟨hq, ha, hp, rfl⟩
    refine ⟨_, ⟨by omega, by decide, rfl⟩, _, ⟨by omega, by exact_mod_cast hq, rfl⟩, _, ⟨ha, rfl⟩, _,
      ⟨by omega, by exact_mod_cast hp, rfl⟩, ?_⟩
    simp [Slice.endCell, Slice.storeBits, Slice.storeAddress, Slice.storeRef, Slice.empty, bits]

/-- The treasury reads what the proposal wrote. -/
theorem load_toCell {m : TreasurySpend} {c : Cell} (h : m.toCell = .ok c)
    (hr : m.recipient.Standard) :
    ∃ s, c.beginParse.loadUint 32 = .ok (opcode, s) ∧ load s = .ok m := by
  obtain ⟨hq, ha, hp, rfl⟩ := toCell_eq_ok.mp h
  refine ⟨_, Slice.loadUint_append (by decide) _ _, ?_⟩
  simp only [load, Cell.refs, Slice.loadUint_append hq, ok_bind, Slice.loadAddress_append,
    Address.wrap_of_standard hr, Slice.loadCoins_append ha, Slice.loadRef_cons,
    Slice.loadUint_self hp]

/-- Rewriting the query id of a spend gives the spend with that query id. -/
theorem withQueryId_toCell {m : TreasurySpend} {c : Cell} {id : Nat} (h : m.toCell = .ok c)
    (hid : id < 2 ^ 64) : toCell { m with queryId := id } = .ok (withQueryId c id) := by
  obtain ⟨-, ha, hp, rfl⟩ := toCell_eq_ok.mp h
  refine toCell_eq_ok.mpr ⟨hid, ha, hp, ?_⟩
  have h32 : (natToBits 32 opcode).length = 32 := natToBits_length ..
  have h64 : (natToBits 64 m.queryId).length = 64 := natToBits_length ..
  have htake : (bits m).take 32 = natToBits 32 opcode := List.take_left' h32
  have hdrop : (bits m).drop 96 = Slice.addressBits m.recipient
      ++ (Slice.coinBits m.amount ++ natToBits 64 m.proposalId) := by
    rw [bits, ← List.append_assoc]
    exact List.drop_left' (by rw [List.length_append, h32, h64])
  simp only [withQueryId, Cell.bits, Cell.refs, htake, hdrop, List.append_assoc]
  rfl

end TreasurySpend

/-! ## Requests -/

/-- What a payload of type ParameterChange or Emergency asks for: target, method and
arguments. -/
def payloadAction (payload : Cell) : Tx (Address × Nat × Cell) := do
  let (target, s) ← payload.beginParse.loadAddress
  let (method, s) ← s.loadUint 32
  let (args, _) ← s.loadRef
  .ok (target, method, args)

/-- What a payload of type TreasurySpend asks for: treasury, recipient, amount and
reason. -/
def payloadSpend (payload : Cell) : Tx (Address × Address × Nat × Cell) := do
  let (treasury, s) ← payload.beginParse.loadAddress
  let (recipient, s) ← s.loadAddress
  let (amount, s) ← s.loadCoins
  let (reason, _) ← s.loadRef
  .ok (treasury, recipient, amount, reason)

/-- The request `q` says what the payload of `i` says. -/
def Requested (treasury : Address) (i : ProposalInit) (q : QueueRequest) : Prop :=
  ((i.proposalType = 0 ∨ i.proposalType = 3)
      ∧ payloadAction i.payload = .ok (q.target, q.method, q.args))
    ∨ (i.proposalType = 2 ∧ ∃ (recipient : Address) (amount : Nat) (reason : Cell),
      payloadSpend i.payload = .ok (treasury, recipient, amount, reason) ∧ recipient.Standard
        ∧ q.target = treasury ∧ q.method = TreasurySpend.opcode
        ∧ TreasurySpend.toCell
          { queryId := 0, recipient, amount, reason, proposalId := i.id } = .ok q.args)

/-- A payload that passed the governor's check is decoded by the proposal, and what
is decoded is what the payload says. A feature priority asks for nothing. -/
theorem queueRequest_ok {p : Proposal} {treasury : Address}
    (h : validateProposalPayloadShape p.proposalType p.payload treasury = .ok ())
    (hid : p.id < 2 ^ 64) :
    ∃ q, p.queueRequest = .ok q ∧ (q.active = true → Requested treasury p.toProposalInit q) := by
  simp only [validateProposalPayloadShape, bind_eq_ok, require_eq_ok, exists_const] at h
  obtain ⟨hle, h⟩ := h
  unfold Proposal.queueRequest
  split at h
  · rename_i h0
    simp only [validateParameterChangePayload, bind_eq_ok, Prod.exists] at h
    obtain ⟨target, s₁, h1, method, s₂, h2, args, s₃, h3, -⟩ := h
    rw [if_pos h0]
    refine ⟨⟨target, method, args, true⟩, by simp only [h1, h2, h3, ok_bind],
      fun _ => .inl ⟨.inl h0, by simp only [payloadAction, h1, h2, h3, ok_bind]⟩⟩
  · rename_i h0
    rw [if_neg h0]
    split at h
    · rename_i h1
      rw [if_pos h1]
      exact ⟨_, rfl, fun hact => absurd hact Bool.false_ne_true⟩
    · rename_i h1
      rw [if_neg h1]
      split at h
      · rename_i h2
        simp only [validateTreasurySpendPayload, bind_eq_ok, require_eq_ok, exists_const,
          Prod.exists] at h
        obtain ⟨target, s₁, e1, rfl, recipient, s₂, e2, amount, s₃, e3, reason, s₄, e4, -⟩ := h
        have hcell := TreasurySpend.toCell_eq_ok
          (m := { queryId := 0, recipient, amount, reason, proposalId := p.id })
          |>.mpr ⟨by simp, Slice.loadCoins_lt e3, hid, rfl⟩
        rw [if_pos h2]
        refine ⟨⟨target, Proposal.TREASURY_SPEND_OPCODE, _, true⟩,
          by simp only [e1, e2, e3, e4, ok_bind, hcell], fun _ => .inr ⟨h2, recipient, amount,
            reason, by simp only [payloadSpend, e1, e2, e3, e4, ok_bind],
            Slice.loadAddress_standard e2, rfl, rfl, hcell⟩⟩
      · rename_i h2
        have h3 : p.proposalType = 3 := by omega
        simp only [validateEmergencyPayload, bind_eq_ok, Prod.exists] at h
        obtain ⟨target, s₁, e1, method, s₂, e2, args, s₃, e3, reason, s₄, e4, -⟩ := h
        rw [if_neg h2, if_pos h3]
        refine ⟨⟨target, method, args, true⟩, by simp only [e1, e2, e3, e4, ok_bind],
          fun _ => .inl ⟨.inr h3, by simp only [payloadAction, e1, e2, e3, ok_bind]⟩⟩

/-- A passing proposal with a checked payload finalizes. -/
theorem finalize_ok {p : Proposal} {treasury : Address} {ctx : Ctx}
    (h : validateProposalPayloadShape p.proposalType p.payload treasury = .ok ())
    (hid : p.id < 2 ^ 64) (hbps : p.thresholdBps ≤ 10000) (ht : p.endTime < ctx.now)
    (hs : p.state = .active) (hp : p.passes = true) :
    ∃ p' out, p.receive ctx .proposalFinalize = .ok (p', out) ∧ p'.state = .succeeded := by
  have hpass := hp
  simp only [Proposal.passes, Bool.and_eq_true, decide_eq_true_eq] at hpass
  obtain ⟨⟨hq, h0⟩, -⟩ := hpass
  obtain ⟨q, hreq, -⟩ :=
    queueRequest_ok (p := { p with state := .succeeded, succeededAt := ctx.now }) h hid
  refine ⟨{ p with state := .succeeded, succeededAt := ctx.now },
    [Proposal.reportStateEx ctx p .succeeded p.timelockDelaySec q, ctx.cashback ctx.sender],
    ?_, rfl⟩
  simp only [Proposal.receive, Proposal.receiveFinalize]
  rw [require_pos ht, ok_bind, require_pos hs, ok_bind, if_neg (by omega), if_neg h0,
    require_pos hbps, ok_bind, if_neg (not_not.mpr hp), hreq, ok_bind]
  rfl

/-! ## Dispatches -/

/-- The message says what the payload of `i` says. The 64 bits of query id are the
proposal id when the method is a high-value one. -/
def Voted (treasury : Address) (i : ProposalInit) (m : Msg) : Prop :=
  ((i.proposalType = 0 ∨ i.proposalType = 3) ∧ ∃ (target : Address) (method : Nat) (args : Cell),
      payloadAction i.payload = .ok (target, method, args) ∧ m.dst = target
        ∧ m.body = .raw (if highValue method then withQueryId args i.id else args))
    ∨ (i.proposalType = 2 ∧ ∃ (recipient : Address) (amount : Nat) (reason cell : Cell) (s : Slice),
      payloadSpend i.payload = .ok (treasury, recipient, amount, reason) ∧ m.dst = treasury
        ∧ m.body = .raw cell ∧ cell.beginParse.loadUint 32 = .ok (TreasurySpend.opcode, s)
        ∧ TreasurySpend.load s
          = .ok { queryId := i.id, recipient, amount, reason, proposalId := i.id })

section Dispatches

variable {treasury : Address} {i : ProposalInit} {q : QueueRequest} {a : PendingAction} {m : Msg}

theorem voted_of_dispatch {c : Cell} (h : Requested treasury i q) (ht : a.target = q.target)
    (hm : a.method = q.method) (ha : a.args = q.args) (hid : a.proposalId = i.id)
    (hv : highValue a.method = true) (hc : rewriteArgs a = .ok c) (hdst : m.dst = a.target)
    (hbody : m.body = .raw c) : Voted treasury i m := by
  obtain ⟨-, -, hlt, rfl⟩ := rewriteArgs_eq_ok.mp hc
  rw [ha, hid] at hbody
  rcases h with ⟨hty, hact⟩ | ⟨hty, recipient, amount, reason, hspend, hstd, htgt, -, hcell⟩
  · refine .inl ⟨hty, q.target, q.method, q.args, hact, hdst.trans ht, ?_⟩
    rw [hm] at hv
    rw [if_pos hv, hbody]
  · rw [hid] at hlt
    have hcell' := TreasurySpend.withQueryId_toCell hcell hlt
    obtain ⟨s, hop, hload⟩ := TreasurySpend.load_toCell hcell' hstd
    exact .inr ⟨hty, recipient, amount, reason, _, s, hspend, (hdst.trans ht).trans htgt, hbody,
      hop, hload⟩

theorem voted_of_relay (h : Requested treasury i q) (ht : a.target = q.target)
    (hm : a.method = q.method) (ha : a.args = q.args) (hv : highValue a.method = false)
    (hdst : m.dst = a.target) (hbody : m.body = .raw a.args) : Voted treasury i m := by
  rcases h with ⟨hty, hact⟩ | ⟨-, _, _, _, -, -, -, hmeth, -⟩
  · refine .inl ⟨hty, q.target, q.method, q.args, hact, hdst.trans ht, ?_⟩
    rw [hm] at hv
    rw [hv, if_neg Bool.false_ne_true, hbody, ha]
  · rw [hm, hmeth] at hv
    exact absurd hv (by decide)

end Dispatches

end BurnedChats

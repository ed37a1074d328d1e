import BurnedChats.Frontend.TransactionBuilder
import BurnedChats.Governance.Floor

/-!
# Governance and staking messages of the client

Every message that `transactionBuilder.ts` writes besides jetton transfers, and what the
contract it is addressed to reads in it. The client throws exactly on fields that are out
of range; otherwise the contract finds the fields that the client wrote, and the attached
TON is enough: no outcome changes when more is attached (`requests_understood`).

Enough for the contract that is written to, that is. The timelock passes on what is left of
the TON attached to an execution, and its two high-value targets ask for more than the
client attaches: whatever else happens, nothing is spent or revoked in this way
(`nothing_executed`).
-/

namespace BurnedChats

open Network

/-! ## The contracts' reading -/

namespace JettonBurn

def opcode : Nat := 0x595f07bc

def load (s : Slice) : Tx JettonBurn := do
  let (queryId, s) ← s.loadUint 64
  let (amount, s) ← s.loadCoins
  let (responseDestination, s) ← s.loadMaybeAddress
  let (customPayload, _) ← s.loadMaybeRef
  .ok { queryId, amount, responseDestination, customPayload }

end JettonBurn

namespace UnstakeJetton

def opcode : Nat := 0x5a020002

def load (s : Slice) : Tx UnstakeJetton := do
  let (queryId, s) ← s.loadUint 64
  let (tier, s) ← s.loadUint 8
  let (amount, _) ← s.loadCoins
  .ok { queryId, tier, amount }

end UnstakeJetton

namespace ClaimRewards

def opcode : Nat := 0x5a020003

def load (s : Slice) : Tx ClaimRewards := do
  let (queryId, s) ← s.loadUint 64
  let (tier, _) ← s.loadUint 8
  .ok { queryId, tier }

end ClaimRewards

namespace CreateProposal

def opcode : Nat := 0x5a040101

def load (s : Slice) : Tx CreateProposal := do
  let (queryId, s) ← s.loadUint 64
  let (proposalType, s) ← s.loadUint 32
  let (payload, s) ← s.loadRef
  let (claimedVp, _) ← s.loadInt 257
  .ok { queryId, proposalType, payload, claimedVp }

end CreateProposal

namespace CastVote

def opcode : Nat := 0x5a040102

def load (s : Slice) : Tx CastVote := do
  let (queryId, s) ← s.loadUint 64
  let (proposalId, s) ← s.loadUint 64
  let (support, s) ← s.loadBit
  let (claimedVp, _) ← s.loadInt 257
  .ok { queryId, proposalId, support, claimedVp }

end CastVote

/-- `ExecuteProposal` and `TimelockExecutePending`: a query id and a proposal id. -/
def loadIds (s : Slice) : Tx (Nat × Nat) := do
  let (queryId, s) ← s.loadUint 64
  let (proposalId, _) ← s.loadUint 64
  .ok (queryId, proposalId)

def executeProposalOpcode : Nat := 0x5a040103
def timelockExecutePendingOpcode : Nat := 0x5a040202
def proposalFinalizeOpcode : Nat := 0x5a040012
def proposalCancelOpcode : Nat := 0x5a040014

/-- A body of one of these kinds, as the contract that receives it unpacks it. -/
def Body.fromCell (c : Cell) : Tx Body := do
  let (op, s) ← c.beginParse.loadUint 32
  if op = JettonBurn.opcode then do
    let m ← JettonBurn.load s
    .ok (.jettonBurn m)
  else if op = UnstakeJetton.opcode then do
    let m ← UnstakeJetton.load s
    .ok (.unstakeJetton m)
  else if op = ClaimRewards.opcode then do
    let m ← ClaimRewards.load s
    .ok (.claimRewards m)
  else if op = CreateProposal.opcode then do
    let m ← CreateProposal.load s
    .ok (.createProposal m)
  else if op = CastVote.opcode then do
    let m ← CastVote.load s
    .ok (.castVote m)
  else if op = executeProposalOpcode then do
    let (queryId, proposalId) ← loadIds s
    .ok (.executeProposal queryId proposalId)
  else if op = timelockExecutePendingOpcode then do
    let (queryId, proposalId) ← loadIds s
    .ok (.timelockExecutePending queryId proposalId)
  else if op = proposalFinalizeOpcode then .ok .proposalFinalize
  else if op = proposalCancelOpcode then .ok .proposalCancel
  else .error unknownMessage

/-! ## The contracts' prices -/

section Value

variable (ctx : Ctx) {value : Nat}

/-- A receiver looks at the value of a message in one gate only: any two values that pass
it have the same outcome. -/
theorem BurnJettonWallet.receiveBurn_value (self : BurnJettonWallet) (msg : JettonBurn)
    (h : ctx.fwdFee + 2 * ctx.computeFee < ctx.value) (hv : ctx.value ≤ value) :
    receiveBurn { ctx with value } self msg = receiveBurn ctx self msg := by
  have h' : ctx.fwdFee + 2 * ctx.computeFee < value := lt_of_lt_of_le h hv
  simp only [receiveBurn, require_pos h, require_pos h']
  rfl

theorem StakingMaster.receiveUnstakeJetton_value (self : StakingMaster) (msg : UnstakeJetton)
    (h : GasPayRewards + GasToPool + milliTon 80 ≤ ctx.value) (hv : ctx.value ≤ value) :
    receiveUnstakeJetton { ctx with value } self msg = receiveUnstakeJetton ctx self msg := by
  have h' : GasPayRewards + GasToPool + milliTon 80 ≤ value := h.trans hv
  simp only [receiveUnstakeJetton, require_pos h, require_pos h']
  rfl

theorem StakingMaster.receiveClaimRewards_value (self : StakingMaster) (msg : ClaimRewards)
    (h : GasPayRewards + milliTon 60 ≤ ctx.value) (hv : ctx.value ≤ value) :
    receiveClaimRewards { ctx with value } self msg = receiveClaimRewards ctx self msg := by
  have h' : GasPayRewards + milliTon 60 ≤ value := h.trans hv
  simp only [receiveClaimRewards, require_pos h, require_pos h']
  rfl

theorem Governor.receiveCastVote_value (self : Governor) (msg : CastVote)
    (h : GasVoteAttach ≤ ctx.value) (hv : ctx.value ≤ value) :
    receiveCastVote { ctx with value } self msg = receiveCastVote ctx self msg := by
  have h' : GasVoteAttach ≤ value := h.trans hv
  simp only [receiveCastVote, require_pos h, require_pos h']
  rfl

theorem Governor.receiveCreateProposal_value (self : Governor) (msg : CreateProposal)
    (h : milliTon 450 ≤ ctx.value) (hv : ctx.value ≤ value) :
    receiveCreateProposal { ctx with value } self msg = receiveCreateProposal ctx self msg := by
  have h' : milliTon 450 ≤ value := h.trans hv
  simp only [receiveCreateProposal, require_pos h, require_pos h']
  rfl

theorem Timelock.receiveExecutePending_value (self : Timelock) (queryId proposalId : Nat)
    (h : TIMELOCK_HIGH_VALUE_EXEC_MIN ≤ ctx.value) (hv : ctx.value ≤ value) :
    receiveExecutePending { ctx with value } self queryId proposalId
      = receiveExecutePending ctx self queryId proposalId := by
  have h' : TIMELOCK_HIGH_VALUE_EXEC_MIN ≤ value := h.trans hv
  simp only [receiveExecutePending, executeHighValue, require_pos h, require_pos h']
  rfl

end Value

/-! ## The client's writing -/

namespace TransactionBuilder

open Builder

def UNSTAKE_JETTON_OP : Nat := 0x5a020002
def CLAIM_REWARDS_OP : Nat := 0x5a020003
def CREATE_PROPOSAL_OP : Nat := 0x5a040101
def CAST_VOTE_OP : Nat := 0x5a040102
def PROPOSAL_FINALIZE_OP : Nat := 0x5a040012
def PROPOSAL_CANCEL_OP : Nat := 0x5a040014
def EXECUTE_PROPOSAL_OP : Nat := 0x5a040103
def TIMELOCK_EXECUTE_OP : Nat := 0x5a040202
def JETTON_BURN_OP : Nat := 0x595f07bc

def JETTON_BURN_ATTACHED_TON : Nat := milliTon 80
def VOTE_ATTACHED_TON : Nat := milliTon 180
def CLAIM_ATTACHED_TON : Nat := milliTon 2000
def UNSTAKE_ATTACHED_TON : Nat := milliTon 2100

def buildJettonBurnMsg (jettonWallet : Address) (amount : Nat) (responseAddress : Address)
    (queryId attachedTon : Option Nat) : Tx TransactionMessage := do
  let b ← beginCell.storeUint JETTON_BURN_OP 32
  let b ← b.storeUint (queryId.getD 0) 64
  let b ← b.storeCoins amount
  let b ← b.storeAddress (some responseAddress)
  let b ← b.storeBit false
  .ok { address := jettonWallet, amount := attachedTon.getD JETTON_BURN_ATTACHED_TON
        payload := b.endCell }

def buildUnstakeMsg (stakingMaster : Address) (tier amount : Nat) (queryId : Option Nat) :
    Tx TransactionMessage := do
  let b ← beginCell.storeUint UNSTAKE_JETTON_OP 32
  let b ← b.storeUint (queryId.getD 0) 64
  let b ← b.storeUint tier 8
  let b ← b.storeCoins amount
  .ok { address := stakingMaster, amount := UNSTAKE_ATTACHED_TON, payload := b.endCell }

def buildClaimMsg (stakingMaster : Address) (tier : Nat) (queryId : Option Nat) :
    Tx TransactionMessage := do
  let b ← beginCell.storeUint CLAIM_REWARDS_OP 32
  let b ← b.storeUint (queryId.getD 0) 64
  let b ← b.storeUint tier 8
  .ok { address := stakingMaster, amount := CLAIM_ATTACHED_TON, payload := b.endCell }

def buildVoteMsg (governor : Address) (proposalId : Nat) (support : Bool) (claimedVp : Int)
    (queryId : Option Nat) : Tx TransactionMessage := do
  let b ← beginCell.storeUint CAST_VOTE_OP 32
  let b ← b.storeUint (queryId.getD 0) 64
  let b ← b.storeUint proposalId 64
  let b ← b.storeBit support
  let b ← b.storeInt claimedVp 257
  .ok { address := governor, amount := VOTE_ATTACHED_TON, payload := b.endCell }

def buildCreateProposalMsg (governor : Address) (proposalType : Nat) (payload : Cell)
    (claimedVp : Int) (queryId : Option Nat) : Tx TransactionMessage := do
  let b ← beginCell.storeUint CREATE_PROPOSAL_OP 32
  let b ← b.storeUint (queryId.getD 0) 64
  let b ← b.storeUint proposalType 32
  let b ← b.storeRef payload
  let b ← b.storeInt claimedVp 257
  .ok { address := governor, amount := milliTon 500, payload := b.endCell }

def buildCancelProposalMsg (proposalAddress : Address) : Tx TransactionMessage := do
  let b ← beginCell.storeUint PROPOSAL_CANCEL_OP 32
  .ok { address := proposalAddress, amount := milliTon 50, payload := b.endCell }

def buildQueueMsg (proposalAddress : Address) : Tx TransactionMessage := do
  let b ← beginCell.storeUint PROPOSAL_FINALIZE_OP 32
  .ok { address := proposalAddress, amount := milliTon 60, payload := b.endCell }

def buildExecuteMsg (governor : Address) (proposalId : Nat) (queryId : Option Nat) :
    Tx TransactionMessage := do
  let b ← beginCell.storeUint EXECUTE_PROPOSAL_OP 32
  let b ← b.storeUint (queryId.getD 0) 64
  let b ← b.storeUint proposalId 64
  .ok { address := governor, amount := milliTon 110, payload := b.endCell }

def buildTimelockExecuteMsg (timelock : Address) (proposalId : Nat) (queryId : Option Nat) :
    Tx TransactionMessage := do
  let b ← beginCell.storeUint TIMELOCK_EXECUTE_OP 32
  let b ← b.storeUint (queryId.getD 0) 64
  let b ← b.storeUint proposalId 64
  .ok { address := timelock, amount := milliTon 250, payload := b.endCell }

/-! ## Requests -/

/-- What a user asks of the client. -/
inductive Request where
  | burn (jettonWallet : Address) (amount : Nat) (responseAddress : Address)
      (queryId attachedTon : Option Nat)
  | unstake (stakingMaster : Address) (tier amount : Nat) (queryId : Option Nat)
  | claim (stakingMaster : Address) (tier : Nat) (queryId : Option Nat)
  | vote (governor : Address) (proposalId : Nat) (support : Bool) (claimedVp : Int)
      (queryId : Option Nat)
  | createProposal (governor : Address) (proposalType : Nat) (payload : Cell) (claimedVp : Int)
      (queryId : Option Nat)
  | cancel (proposalAddress : Address)
  | queue (proposalAddress : Address)
  | execute (governor : Address) (proposalId : Nat) (queryId : Option Nat)
  | timelockExecute (timelock : Address) (proposalId : Nat) (queryId : Option Nat)

namespace Request

def build : Request → Tx TransactionMessage
  | .burn w amount response queryId attachedTon =>
      buildJettonBurnMsg w amount response queryId attachedTon
  | .unstake s tier amount queryId => buildUnstakeMsg s tier amount queryId
  | .claim s tier queryId => buildClaimMsg s tier queryId
  | .vote g id support vp queryId => buildVoteMsg g id support vp queryId
  | .createProposal g ty payload vp queryId => buildCreateProposalMsg g ty payload vp queryId
  | .cancel a => buildCancelProposalMsg a
  | .queue a => buildQueueMsg a
  | .execute g id queryId => buildExecuteMsg g id queryId
  | .timelockExecute t id queryId => buildTimelockExecuteMsg t id queryId

/-- What the contract is to be told. -/
def body : Request → Body
  | .burn _ amount response queryId _ =>
      .jettonBurn ⟨queryId.getD 0, amount, some response, none⟩
  | .unstake _ tier amount queryId => .unstakeJetton ⟨queryId.getD 0, tier, amount⟩
  | .claim _ tier queryId => .claimRewards ⟨queryId.getD 0, tier⟩
  | .vote _ id support vp queryId => .castVote ⟨queryId.getD 0, id, support, vp⟩
  | .createProposal _ ty payload vp queryId => .createProposal ⟨queryId.getD 0, ty, payload, vp⟩
  | .cancel _ => .proposalCancel
  | .queue _ => .proposalFinalize
  | .execute _ id queryId => .executeProposal (queryId.getD 0) id
  | .timelockExecute _ id queryId => .timelockExecutePending (queryId.getD 0) id

/-- The fields are in range. -/
def InRange : Request → Prop
  | .burn _ amount _ queryId _ => queryId.getD 0 < 2 ^ 64 ∧ amount < 2 ^ 120
  | .unstake _ tier amount queryId => queryId.getD 0 < 2 ^ 64 ∧ tier < 2 ^ 8 ∧ amount < 2 ^ 120
  | .claim _ tier queryId => queryId.getD 0 < 2 ^ 64 ∧ tier < 2 ^ 8
  | .vote _ id _ vp queryId =>
      queryId.getD 0 < 2 ^ 64 ∧ id < 2 ^ 64 ∧ -2 ^ 256 ≤ vp ∧ vp < 2 ^ 256
  | .createProposal _ ty _ vp queryId =>
      queryId.getD 0 < 2 ^ 64 ∧ ty < 2 ^ 32 ∧ -2 ^ 256 ≤ vp ∧ vp < 2 ^ 256
  | .cancel _ => True
  | .queue _ => True
  | .execute _ id queryId => queryId.getD 0 < 2 ^ 64 ∧ id < 2 ^ 64
  | .timelockExecute _ id queryId => queryId.getD 0 < 2 ^ 64 ∧ id < 2 ^ 64

def contract : Request → Address
  | .burn a .. => a
  | .unstake a .. => a
  | .claim a .. => a
  | .vote a .. => a
  | .createProposal a .. => a
  | .cancel a => a
  | .queue a => a
  | .execute a .. => a
  | .timelockExecute a .. => a

/-- The TON that is attached. -/
def attached : Request → Nat
  | .burn _ _ _ _ attachedTon => attachedTon.getD JETTON_BURN_ATTACHED_TON
  | .unstake .. => UNSTAKE_ATTACHED_TON
  | .claim .. => CLAIM_ATTACHED_TON
  | .vote .. => VOTE_ATTACHED_TON
  | .createProposal .. => milliTon 500
  | .cancel _ => milliTon 50
  | .queue _ => milliTon 60
  | .execute .. => milliTon 110
  | .timelockExecute .. => milliTon 250

/-- The address among the fields is a standard one. -/
def Standard : Request → Prop
  | .burn _ _ responseAddress _ _ => responseAddress.Standard
  | _ => True

/-- The address is that of the contract that the request is for. -/
def Addressed (D : Deployment) : Request → Prop
  | .burn w .. => ∃ owner master, w = D.addr (.jettonWallet owner master)
  | .unstake s .. => s = D.S
  | .claim s .. => s = D.S
  | .vote g .. => g = D.G
  | .createProposal g .. => g = D.G
  | .cancel a => ∃ i, a = D.addr (.proposal i)
  | .queue a => ∃ i, a = D.addr (.proposal i)
  | .execute g .. => g = D.G
  | .timelockExecute t .. => t = D.T

end Request

/-! ## What is written and read -/

namespace Request

/-- The fields in the order of the body. -/
def slice : Request → Slice
  | .burn _ amount response queryId _ =>
      ⟨natToBits 32 JETTON_BURN_OP ++ (natToBits 64 (queryId.getD 0) ++ (Slice.coinBits amount
        ++ (maybeAddressBits (some response) ++ [false]))), []⟩
  | .unstake _ tier amount queryId =>
      ⟨natToBits 32 UNSTAKE_JETTON_OP ++ (natToBits 64 (queryId.getD 0)
        ++ (natToBits 8 tier ++ Slice.coinBits amount)), []⟩
  | .claim _ tier queryId =>
      ⟨natToBits 32 CLAIM_REWARDS_OP ++ (natToBits 64 (queryId.getD 0) ++ natToBits 8 tier), []⟩
  | .vote _ id support vp queryId =>
      ⟨natToBits 32 CAST_VOTE_OP ++ (natToBits 64 (queryId.getD 0) ++ (natToBits 64 id
        ++ ([support] ++ intBits 257 vp))), []⟩
  | .createProposal _ ty payload vp queryId =>
      ⟨natToBits 32 CREATE_PROPOSAL_OP ++ (natToBits 64 (queryId.getD 0) ++ (natToBits 32 ty
        ++ intBits 257 vp)), [payload]⟩
  | .cancel _ => ⟨natToBits 32 PROPOSAL_CANCEL_OP, []⟩
  | .queue _ => ⟨natToBits 32 PROPOSAL_FINALIZE_OP, []⟩
  | .execute _ id queryId =>
      ⟨natToBits 32 EXECUTE_PROPOSAL_OP ++ (natToBits 64 (queryId.getD 0) ++ natToBits 64 id), []⟩
  | .timelockExecute _ id queryId =>
      ⟨natToBits 32 TIMELOCK_EXECUTE_OP ++ (natToBits 64 (queryId.getD 0) ++ natToBits 64 id), []⟩

variable {r : Request} {msg : TransactionMessage}

theorem slice_fits (h : r.InRange) : r.slice.Fits := by
  cases r with
  | burn a amount response queryId attached =>
      have hcoins := coinBytes_le h.2
      simp only [slice, Slice.Fits, maybeAddressBits, List.length_append, natToBits_length,
        coinBits_length, addressBits_length, List.length_nil, List.length_singleton, maxBits,
        maxRefs]
      omega
  | unstake a tier amount queryId =>
      have hcoins := coinBytes_le h.2.2
      simp only [slice, Slice.Fits, List.length_append, natToBits_length, coinBits_length,
        List.length_nil, maxBits, maxRefs]
      omega
  | _ => simp [slice, Slice.Fits, maxBits, maxRefs]

theorem inRange_of_build (h : r.build = .ok msg) : r.InRange := by
  cases r with
  | cancel => trivial
  | queue => trivial
  | burn a amount response queryId attached =>
      simp only [build, buildJettonBurnMsg, bind_eq_ok] at h
      obtain ⟨_, -, _, hquery, _, hamount, -⟩ := h
      exact ⟨storeUint_lt hquery, storeCoins_lt hamount⟩
  | unstake a tier amount queryId =>
      simp only [build, buildUnstakeMsg, bind_eq_ok] at h
      obtain ⟨_, -, _, hquery, _, htier, _, hamount, -⟩ := h
      exact ⟨storeUint_lt hquery, storeUint_lt htier, storeCoins_lt hamount⟩
  | claim a tier queryId =>
      simp only [build, buildClaimMsg, bind_eq_ok] at h
      obtain ⟨_, -, _, hquery, _, htier, -⟩ := h
      exact ⟨storeUint_lt hquery, storeUint_lt htier⟩
  | vote a id support vp queryId =>
      simp only [build, buildVoteMsg, bind_eq_ok] at h
      obtain ⟨_, -, _, hquery, _, hid, _, -, _, hvp, -⟩ := h
      exact ⟨storeUint_lt hquery, storeUint_lt hid, storeInt_bounds hvp⟩
  | createProposal a ty payload vp queryId =>
      simp only [build, buildCreateProposalMsg, bind_eq_ok] at h
      obtain ⟨_, -, _, hquery, _, hty, _, -, _, hvp, -⟩ := h
      exact ⟨storeUint_lt hquery, storeUint_lt hty, storeInt_bounds hvp⟩
  | execute a id queryId =>
      simp only [build, buildExecuteMsg, bind_eq_ok] at h
      obtain ⟨_, -, _, hquery, _, hid, -⟩ := h
      exact ⟨storeUint_lt hquery, storeUint_lt hid⟩
  | timelockExecute a id queryId =>
      simp only [build, buildTimelockExecuteMsg, bind_eq_ok] at h
      obtain ⟨_, -, _, hquery, _, hid, -⟩ := h
      exact ⟨storeUint_lt hquery, storeUint_lt hid⟩

theorem build_eq_write (h : r.InRange) :
    r.build = .ok msg
      ↔ (beginCell.write r.slice >>= fun b => .ok ⟨r.contract, r.attached, b.endCell⟩)
        = .ok msg := by
  have hop : ∀ {n : Nat} (b : Builder), n < 4294967296 →
      b.storeUint n 32 = b.write ⟨natToBits 32 n, []⟩ := fun b hn => storeUint_eq hn b
  cases r with
  | burn a amount response queryId ton =>
      simp only [build, buildJettonBurnMsg, hop _ (by decide : JETTON_BURN_OP < _),
        storeUint_eq h.1, storeCoins_eq h.2, storeAddress, storeBit, storeBits, write_bind_write]
      simp only [Slice.storeSlice, slice, contract, attached, List.append_assoc, List.nil_append]
  | unstake a tier amount queryId =>
      simp only [build, buildUnstakeMsg, hop _ (by decide : UNSTAKE_JETTON_OP < _),
        storeUint_eq h.1, storeUint_eq h.2.1, storeCoins_eq h.2.2, write_bind_write]
      simp only [Slice.storeSlice, slice, contract, attached, List.append_assoc, List.nil_append]
  | claim a tier queryId =>
      simp only [build, buildClaimMsg, hop _ (by decide : CLAIM_REWARDS_OP < _),
        storeUint_eq h.1, storeUint_eq h.2, write_bind_write]
      simp only [Slice.storeSlice, slice, contract, attached, List.append_assoc, List.nil_append]
  | vote a id support vp queryId =>
      have hvp : -2 ^ (257 - 1) ≤ vp ∧ vp < 2 ^ (257 - 1) := h.2.2
      simp only [build, buildVoteMsg, hop _ (by decide : CAST_VOTE_OP < _), storeUint_eq h.1,
        storeUint_eq h.2.1, storeInt_eq hvp, storeBit, storeBits, write_bind_write]
      simp only [Slice.storeSlice, slice, contract, attached, List.append_assoc, List.nil_append]
  | createProposal a ty payload vp queryId =>
      have hvp : -2 ^ (257 - 1) ≤ vp ∧ vp < 2 ^ (257 - 1) := h.2.2
      simp only [build, buildCreateProposalMsg, hop _ (by decide : CREATE_PROPOSAL_OP < _),
        storeUint_eq h.1, storeUint_eq h.2.1, storeInt_eq hvp, storeRef, write_bind_write]
      simp only [Slice.storeSlice, slice, contract, attached, List.append_assoc, List.nil_append,
        List.append_nil]
  | cancel a => exact Iff.rfl
  | queue a => exact Iff.rfl
  | execute a id queryId =>
      simp only [build, buildExecuteMsg, hop _ (by decide : EXECUTE_PROPOSAL_OP < _),
        storeUint_eq h.1, storeUint_eq h.2, write_bind_write]
      simp only [Slice.storeSlice, slice, contract, attached, List.append_assoc, List.nil_append]
  | timelockExecute a id queryId =>
      simp only [build, buildTimelockExecuteMsg, hop _ (by decide : TIMELOCK_EXECUTE_OP < _),
        storeUint_eq h.1, storeUint_eq h.2, write_bind_write]
      simp only [Slice.storeSlice, slice, contract, attached, List.append_assoc, List.nil_append]

/-- The client throws exactly on fields out of range. -/
theorem build_eq_ok :
    r.build = .ok msg ↔ r.InRange ∧ msg = ⟨r.contract, r.attached, r.slice.endCell⟩ := by
  constructor
  · intro h
    have hrange := inRange_of_build h
    rw [build_eq_write hrange, beginCell_write_bind] at h
    obtain ⟨hfits, hmsg⟩ := h
    exact ⟨hrange, (Except.ok.inj hmsg).symm⟩
  · rintro ⟨hrange, rfl⟩
    rw [build_eq_write hrange, beginCell_write_bind]
    exact ⟨slice_fits hrange, rfl⟩

/-- The contract takes the branch of the opcode. -/
theorem fromCell_op {op : Nat} (h : op < 2 ^ 32) (rest : List Bool) (refs : List Cell) :
    Body.fromCell (.mk (natToBits 32 op ++ rest) refs) = (do
      let s : Slice := ⟨rest, refs⟩
      if op = JettonBurn.opcode then do
        let m ← JettonBurn.load s
        .ok (.jettonBurn m)
      else if op = UnstakeJetton.opcode then do
        let m ← UnstakeJetton.load s
        .ok (.unstakeJetton m)
      else if op = ClaimRewards.opcode then do
        let m ← ClaimRewards.load s
        .ok (.claimRewards m)
      else if op = CreateProposal.opcode then do
        let m ← CreateProposal.load s
        .ok (.createProposal m)
      else if op = CastVote.opcode then do
        let m ← CastVote.load s
        .ok (.castVote m)
      else if op = executeProposalOpcode then do
        let (queryId, proposalId) ← loadIds s
        .ok (.executeProposal queryId proposalId)
      else if op = timelockExecutePendingOpcode then do
        let (queryId, proposalId) ← loadIds s
        .ok (.timelockExecutePending queryId proposalId)
      else if op = proposalFinalizeOpcode then .ok .proposalFinalize
      else if op = proposalCancelOpcode then .ok .proposalCancel
      else .error unknownMessage) := by
  simp only [Body.fromCell, Cell.beginParse, Cell.bits, Cell.refs, Slice.loadUint_append h, ok_bind]

theorem fromCell_slice (h : r.InRange) (hstd : r.Standard) :
    Body.fromCell r.slice.endCell = .ok r.body := by
  cases r with
  | burn a amount response queryId ton =>
      refine (fromCell_op (by decide) _ _).trans ?_
      show (JettonBurn.load _ >>= _) = _
      simp only [JettonBurn.load, Slice.loadUint_append h.1, Slice.loadCoins_append h.2,
        Slice.loadMaybeAddress_append, ok_bind, Option.map_some, Address.wrap_of_standard hstd]
      rfl
  | unstake a tier amount queryId =>
      refine (fromCell_op (by decide) _ _).trans ?_
      show (UnstakeJetton.load _ >>= _) = _
      simp only [UnstakeJetton.load, Slice.loadUint_append h.1, Slice.loadUint_append h.2.1,
        Slice.loadCoins_self h.2.2, ok_bind]
      rfl
  | claim a tier queryId =>
      refine (fromCell_op (by decide) _ _).trans ?_
      show (ClaimRewards.load _ >>= _) = _
      simp only [ClaimRewards.load, Slice.loadUint_append h.1, Slice.loadUint_self h.2, ok_bind]
      rfl
  | vote a id support vp queryId =>
      have hvp : (Slice.mk (intBits 257 vp) []).loadInt 257 = .ok (vp, ⟨[], []⟩) := by
        simpa using Slice.loadInt_append (by decide) h.2.2.1 h.2.2.2 [] []
      refine (fromCell_op (by decide) _ _).trans ?_
      show (CastVote.load _ >>= _) = _
      simp only [CastVote.load, Slice.loadUint_append h.1, Slice.loadUint_append h.2.1,
        List.singleton_append, Slice.loadBit_cons, slice, hvp, ok_bind]
      rfl
  | createProposal a ty payload vp queryId =>
      have hvp : (Slice.mk (intBits 257 vp) []).loadInt 257 = .ok (vp, ⟨[], []⟩) := by
        simpa using Slice.loadInt_append (by decide) h.2.2.1 h.2.2.2 [] []
      refine (fromCell_op (by decide) _ _).trans ?_
      show (CreateProposal.load _ >>= _) = _
      simp only [CreateProposal.load, Slice.loadUint_append h.1, Slice.loadUint_append h.2.1,
        slice, Slice.loadRef_cons, hvp, ok_bind]
      rfl
  | cancel a => rfl
  | queue a => rfl
  | execute a id queryId =>
      refine (fromCell_op (by decide) _ _).trans ?_
      show (loadIds _ >>= _) = _
      simp only [loadIds, Slice.loadUint_append h.1, Slice.loadUint_self h.2, ok_bind]
      rfl
  | timelockExecute a id queryId =>
      refine (fromCell_op (by decide) _ _).trans ?_
      show (loadIds _ >>= _) = _
      simp only [loadIds, Slice.loadUint_append h.1, Slice.loadUint_self h.2, ok_bind]
      rfl

/-! ## The attached TON -/

/-- The message as it arrives from the user's wallet with `value` attached. -/
def arrival (user : Address) (value : Nat) (r : Request) : Msg :=
  { src := user, dst := r.contract, value, bounce := true, bounced := false, deploy := false
    body := r.body }

/-- What the attached TON has to exceed where the price is the network's. -/
def Covered (g : Gas) : Request → Prop
  | .burn _ _ _ _ attachedTon =>
      g.fwdFee + 2 * g.computeFee < attachedTon.getD JETTON_BURN_ATTACHED_TON
  | _ => True

section Arrival

variable {D : Deployment} {g : Gas} {now value : Nat} {user : Address} {w : World}

theorem opened_body : D.opened r.body = r.body :=
  opened_of_not_raw fun c => by cases r <;> exact Body.noConfusion

/-- A contract that does not tell two values apart runs the same on both. -/
theorem run_arrival {σ : Type} {rcv : Ctx → σ → Body → Tx (σ × List Msg)}
    {bnc : Ctx → σ → Body → Tx σ} {s : σ}
    (h : rcv (Ctx.of g now (r.arrival user value)) s r.body
      = rcv (Ctx.of g now (r.arrival user r.attached)) s r.body) :
    World.run D rcv bnc g now (r.arrival user value) s
      = World.run D rcv bnc g now (r.arrival user r.attached) s := by
  have hopen : D.opened (r.arrival user value).body = r.body := opened_body
  have hopen' : D.opened (r.arrival user r.attached).body = r.body := opened_body
  simp only [World.run, hopen, hopen', h]
  rfl

theorem receive_at_sm (hd : r.contract = D.S)
    (h : w.sm.receive (Ctx.of g now (r.arrival user value)) r.body
      = w.sm.receive (Ctx.of g now (r.arrival user r.attached)) r.body) :
    World.receive D g now (r.arrival user value) w
      = World.receive D g now (r.arrival user r.attached) w := by
  have hrun : World.run D StakingMaster.receive World.absorb g now (r.arrival user value) w.sm
      = World.run D StakingMaster.receive World.absorb g now (r.arrival user r.attached) w.sm :=
    run_arrival h
  simp only [World.receive, arrival, hd, Deployment.partAt_addr] at hrun ⊢
  rw [hrun]

theorem receive_at_governor (hd : r.contract = D.G)
    (h : w.governor.receive (fun i => D.addr (.proposal i))
        (Ctx.of g now (r.arrival user value)) r.body
      = w.governor.receive (fun i => D.addr (.proposal i))
        (Ctx.of g now (r.arrival user r.attached)) r.body) :
    World.receive D g now (r.arrival user value) w
      = World.receive D g now (r.arrival user r.attached) w := by
  have hrun : World.run D (Governor.receive fun i => D.addr (.proposal i))
        (fun _ s b => .ok (s.bounced b)) g now (r.arrival user value) w.governor
      = World.run D (Governor.receive fun i => D.addr (.proposal i))
        (fun _ s b => .ok (s.bounced b)) g now (r.arrival user r.attached) w.governor :=
    run_arrival h
  simp only [World.receive, arrival, hd, Deployment.partAt_addr] at hrun ⊢
  rw [hrun]

theorem receive_at_proposal {i : ProposalInit} (hd : r.contract = D.addr (.proposal i))
    (h : ∀ p : Proposal, p.receive (Ctx.of g now (r.arrival user value)) r.body
      = p.receive (Ctx.of g now (r.arrival user r.attached)) r.body) :
    World.receive D g now (r.arrival user value) w
      = World.receive D g now (r.arrival user r.attached) w := by
  have hrun : ∀ p, World.run D Proposal.receive World.absorb g now (r.arrival user value) p
      = World.run D Proposal.receive World.absorb g now (r.arrival user r.attached) p :=
    fun p => run_arrival (h p)
  simp only [arrival, hd] at hrun
  simp only [World.receive, arrival, hd, Deployment.partAt_addr, hrun]
  rfl

theorem receive_at_timelock (hd : r.contract = D.T)
    (h : w.timelock.receive (Ctx.of g now (r.arrival user value)) r.body
      = w.timelock.receive (Ctx.of g now (r.arrival user r.attached)) r.body) :
    World.receive D g now (r.arrival user value) w
      = World.receive D g now (r.arrival user r.attached) w := by
  have hrun : World.run D Timelock.receive Timelock.bounced g now (r.arrival user value) w.timelock
      = World.run D Timelock.receive Timelock.bounced g now (r.arrival user r.attached)
        w.timelock :=
    run_arrival h
  simp only [World.receive, arrival, hd, Deployment.partAt_addr] at hrun ⊢
  rw [hrun]

theorem receive_at_wallet {owner master : Address}
    (hd : r.contract = D.addr (.jettonWallet owner master))
    (h : ∀ s : BurnJettonWallet,
      s.receive D.wallets (Ctx.of g now (r.arrival user value)) r.body
        = s.receive D.wallets (Ctx.of g now (r.arrival user r.attached)) r.body) :
    World.receive D g now (r.arrival user value) w
      = World.receive D g now (r.arrival user r.attached) w := by
  have hopen : D.opened r.body = r.body := opened_body
  have hJ : D.addr (.jettonWallet owner master) ≠ D.J := by simp
  simp only [arrival, hd] at h
  simp only [World.receive, arrival, hd, Deployment.partAt_addr, JettonState.receive, hJ, if_false,
    JettonState.receiveWallet, Bool.false_eq_true, hopen, h]
  rfl

/-- Whatever is attached above the client's amount changes nothing. -/
theorem receive_arrival (ha : r.Addressed D) (hg : r.Covered g) (hv : r.attached ≤ value) :
    World.receive D g now (r.arrival user value) w
      = World.receive D g now (r.arrival user r.attached) w := by
  cases r with
  | burn a amount response queryId attachedTon =>
      obtain ⟨owner, master, rfl⟩ := ha
      refine receive_at_wallet rfl fun s => ?_
      exact BurnJettonWallet.receiveBurn_value (Ctx.of g now (arrival user _
        (burn (D.addr (.jettonWallet owner master)) amount response queryId attachedTon))) s
        ⟨queryId.getD 0, amount, some response, none⟩ hg hv
  | unstake a tier amount queryId =>
      obtain rfl : a = D.S := ha
      have hgate : StakingMaster.GasPayRewards + StakingMaster.GasToPool + milliTon 80
          ≤ UNSTAKE_ATTACHED_TON := by decide
      refine receive_at_sm rfl ?_
      exact StakingMaster.receiveUnstakeJetton_value
        (Ctx.of g now (arrival user UNSTAKE_ATTACHED_TON (unstake D.S tier amount queryId))) w.sm
        ⟨queryId.getD 0, tier, amount⟩ hgate hv
  | claim a tier queryId =>
      obtain rfl : a = D.S := ha
      have hgate : StakingMaster.GasPayRewards + milliTon 60 ≤ CLAIM_ATTACHED_TON := by decide
      refine receive_at_sm rfl ?_
      exact StakingMaster.receiveClaimRewards_value
        (Ctx.of g now (arrival user CLAIM_ATTACHED_TON (claim D.S tier queryId))) w.sm
        ⟨queryId.getD 0, tier⟩ hgate hv
  | vote a id support vp queryId =>
      obtain rfl : a = D.G := ha
      have hgate : Governor.GasVoteAttach ≤ VOTE_ATTACHED_TON := by decide
      refine receive_at_governor rfl ?_
      exact Governor.receiveCastVote_value
        (Ctx.of g now (arrival user VOTE_ATTACHED_TON (vote D.G id support vp queryId))) w.governor
        ⟨queryId.getD 0, id, support, vp⟩ hgate hv
  | createProposal a ty payload vp queryId =>
      obtain rfl : a = D.G := ha
      have hgate : milliTon 450 ≤ milliTon 500 := by decide
      refine receive_at_governor rfl ?_
      exact Governor.receiveCreateProposal_value
        (Ctx.of g now (arrival user (milliTon 500) (createProposal D.G ty payload vp queryId)))
        w.governor ⟨queryId.getD 0, ty, payload, vp⟩ hgate hv
  | cancel a =>
      obtain ⟨i, rfl⟩ := ha
      exact receive_at_proposal rfl fun p => rfl
  | queue a =>
      obtain ⟨i, rfl⟩ := ha
      exact receive_at_proposal rfl fun p => rfl
  | execute a id queryId =>
      obtain rfl : a = D.G := ha
      exact receive_at_governor rfl rfl
  | timelockExecute a id queryId =>
      obtain rfl : a = D.T := ha
      have hgate : TIMELOCK_HIGH_VALUE_EXEC_MIN ≤ milliTon 250 := by decide
      refine receive_at_timelock rfl ?_
      exact Timelock.receiveExecutePending_value
        (Ctx.of g now (arrival user (milliTon 250) (timelockExecute D.T id queryId))) w.timelock
        (queryId.getD 0) id hgate hv

end Arrival

end Request

/-! ## Executing what was queued -/

section Executing

variable {D : Deployment} {modelled : Part → Bool} {ordered : Address → Address → Bool}

/-- Executions are sent with the client's TON, and the timelock passes on at most `own`
of its balance on top. -/
def ByClient (D : Deployment) (own : Nat) (_ : World) (_ : Nat) (g : Gas) (m : Msg) : Prop :=
  match D.opened m.body with
  | .timelockExecutePending queryId id =>
      m.dst = D.T → m.bounced = false →
        m.value = (Request.timelockExecute D.T id (some queryId)).attached
          ∧ g.remaining ≤ own + m.value
  | _ => True

/-- The two targets trust the timelock, and what it sends them is worth too little. -/
structure Underfunded (D : Deployment) (spent : Nat) (c : WorldConf) : Prop where
  treasury : c.st.treasury.timelock = D.T
  vesting : c.st.vesting.timelock = D.T
  spent : c.st.treasury.total_spent ≤ spent
  flight : ∀ m ∈ c.flight, m.src = D.T → m.bounced = false →
    m.value < MIN_SPEND_FORWARD ∨ m.body = .empty

section Steps

variable {own spent : Nat} {c : WorldConf} {m : Msg} {pre post out : List Msg} {w' : World}
  {g : Gas}

theorem Underfunded.rest (h : Underfunded D spent c) (hf : c.flight = pre ++ m :: post)
    {st : World} (hR : st.treasury.timelock = D.T) (hV : st.vesting.timelock = D.T)
    (hspent : st.treasury.total_spent ≤ spent)
    (hout : ∀ r ∈ out, r.src = D.T → r.bounced = false →
      r.value < MIN_SPEND_FORWARD ∨ r.body = .empty) :
    Underfunded D spent ⟨st, pre ++ post ++ out, c.now⟩ := by
  refine ⟨hR, hV, hspent, fun r hr hs hb => ?_⟩
  rcases List.mem_append.mp hr with hr | hr
  · exact h.flight r (mem_rest hf hr) hs hb
  · exact hout r hr hs hb

/-- An original message from the timelock is worth too little for a spend. -/
theorem Underfunded.refused (h : Underfunded D spent c) (hm : m ∈ c.flight) (hs : m.src = D.T)
    (hb : m.bounced = false) (hv : MIN_SPEND_FORWARD ≤ m.value) {cell : Cell}
    (hraw : D.opened m.body = .raw cell) : False := by
  rcases h.flight m hm hs hb with hlow | hempty
  · exact absurd hv (Nat.not_le.mpr hlow)
  · rw [hempty] at hraw
    cases hraw

/-- No message in flight raises `total_spent`. -/
theorem Underfunded.not_spent (h : Underfunded D spent c) (hm : m ∈ c.flight)
    (hr : World.receive D g c.now m c.st = .ok (w', out)) :
    w'.treasury.total_spent ≤ c.st.treasury.total_spent := by
  by_cases hd : m.dst = D.R
  · rcases World.run_eq_ok (World.receive_treasury hr hd) with ⟨-, hs, -⟩ | ⟨hb, out', hs, -⟩
    · exact (Treasury.bounced_eq_ok hs).2
    · refine Nat.not_lt.mp fun hlt => ?_
      obtain ⟨hsrc, hvalue, cell, hcell⟩ := (Treasury.receive_eq_ok hs).2 hlt
      exact h.refused hm (hsrc.trans h.treasury) hb hvalue hcell
  · rw [(World.receive_framed hr).treasury hd]

/-- No message in flight revokes. -/
theorem Underfunded.not_revoked (h : Underfunded D spent c) (hm : m ∈ c.flight)
    (hr : World.receive D g c.now m c.st = .ok (w', out)) : ¬ Revokes D m := by
  rintro ⟨hd, hb, cell, hcell, -⟩
  rcases World.run_eq_ok (World.receive_vesting hr hd) with ⟨hb', -, -⟩ | ⟨-, out', hs, -⟩
  · rw [hb] at hb'
    cases hb'
  · obtain ⟨hsrc, hvalue⟩ := (Vesting.receive_eq_ok hs).2 ⟨cell, hcell⟩
    have hle : MIN_SPEND_FORWARD ≤ Vesting.ReleaseTon := by decide
    exact h.refused hm (hsrc.trans h.vesting) hb (hle.trans hvalue) hcell

/-- An account other than the timelock accepts a message. -/
theorem Underfunded.elsewhere (h : Underfunded D spent c) (hf : c.flight = pre ++ m :: post)
    (hd : m.dst ≠ D.T) (hr : World.receive D g c.now m c.st = .ok (w', out)) :
    Underfunded D spent ⟨w', pre ++ post ++ out, c.now⟩ := by
  have hm : m ∈ c.flight := hf ▸ List.mem_append_right _ (List.mem_cons_self ..)
  have hframe := World.receive_framed hr
  refine h.rest hf ?_ ?_ ((h.not_spent hm hr).trans h.spent) fun r hr' hs _ => ?_
  · by_cases hR : m.dst = D.R
    · rcases World.run_eq_ok (World.receive_treasury hr hR) with ⟨-, hb, -⟩ | ⟨-, _, hb, -⟩
      · exact (Treasury.bounced_eq_ok hb).1.trans h.treasury
      · exact (Treasury.receive_eq_ok hb).1.trans h.treasury
    · rw [hframe.treasury hR]
      exact h.treasury
  · by_cases hV : m.dst = D.V
    · rcases World.run_eq_ok (World.receive_vesting hr hV) with ⟨-, hb, -⟩ | ⟨-, _, hb, -⟩
      · exact (Vesting.bounced_timelock hb).trans h.vesting
      · exact (Vesting.receive_eq_ok hb).1.trans h.vesting
    · rw [hframe.vesting hV]
      exact h.vesting
  · rw [(hframe.out r hr').1] at hs
    exact absurd hs hd

/-- What the timelock sends when the client executes. -/
theorem acted_value (hown : own + milliTon 250 < MIN_SPEND_FORWARD)
    (hg : ByClient D own c.st c.now g m) (hd : m.dst = D.T) (hb : m.bounced = false)
    {s' : Timelock}
    (hact : Timelock.Acted (Ctx.of g c.now m) c.st.timelock (D.opened m.body) s' out) :
    ∀ r ∈ out, r.value < MIN_SPEND_FORWARD ∨ r.body = .empty := by
  unfold ByClient at hg
  generalize D.opened m.body = b at hact hg
  have hmark : TIMELOCK_MARK_EXECUTED_GAS < MIN_SPEND_FORWARD := by decide
  have htarget : TIMELOCK_TARGET_GAS < MIN_SPEND_FORWARD := by decide
  cases hact with
  | queue => exact fun r hr => absurd hr List.not_mem_nil
  | cancel => exact fun r hr => absurd hr List.not_mem_nil
  | dispatch =>
      obtain ⟨hvalue, hrem⟩ := hg hd hb
      have hlow : g.remaining < MIN_SPEND_FORWARD :=
        lt_of_le_of_lt hrem (by rw [hvalue]; exact hown)
      intro r hr
      simp only [List.mem_cons, List.not_mem_nil, or_false] at hr
      rcases hr with rfl | rfl
      · exact .inl hmark
      · exact .inl hlow
  | relay =>
      intro r hr
      simp only [List.mem_cons, List.not_mem_nil, or_false] at hr
      rcases hr with rfl | rfl | rfl
      · exact .inl hmark
      · exact .inl htarget
      · exact .inr rfl
  | idle hcash =>
      intro r hr
      rw [hcash r hr]
      exact .inr rfl

theorem Underfunded.rejected (h : Underfunded D spent c) (hf : c.flight = pre ++ m :: post) :
    Underfunded D spent ⟨c.st, pre ++ post ++ bounceOf m, c.now⟩ := by
  refine h.rest hf h.treasury h.vesting h.spent fun r hr _ hb => ?_
  rw [(mem_bounceOf hr).2.2.2.2.1] at hb
  cases hb

end Steps

theorem underfunded_preserved {own spent : Nat}
    (hT : (network D modelled ordered).owns D.T = true)
    (hown : own + milliTon 250 < MIN_SPEND_FORWARD) :
    (network D modelled ordered).Preserves (Meets (ByClient D own)) (Underfunded D spent) := by
  refine ⟨?send, ?ok, ?error, ?outside, ?returned, ?wait⟩
  case send =>
    intro c m h _ hsrc _
    refine ⟨h.treasury, h.vesting, h.spent, fun r hr hs hb => ?_⟩
    rcases List.mem_append.mp hr with hr | hr
    · exact h.flight r hr hs hb
    · obtain rfl := List.mem_singleton.mp hr
      exact absurd hs (owns_of_modelled hT hsrc)
  case ok =>
    intro c i g accept m pre post w' out h hg hm hf _ _ hr
    by_cases hd : m.dst = D.T
    · have hframe := World.receive_framed hr
      have hR : w'.treasury = c.st.treasury := hframe.treasury (by simp [hd])
      have hV : w'.vesting = c.st.vesting := hframe.vesting (by simp [hd])
      refine h.rest hf (hR ▸ h.treasury) (hV ▸ h.vesting) (hR ▸ h.spent) fun r hr' _ _ => ?_
      rcases World.run_eq_ok (World.receive_timelock hr hd) with
        ⟨-, -, rfl⟩ | ⟨hb, out', hs, rfl⟩
      · cases hr'
      · obtain ⟨sent, hsent, rfl⟩ := List.mem_map.mp hr'
        exact acted_value hown (hg.at hm) hd hb (Timelock.receive_acted hs) sent hsent
    · exact h.elsewhere hf hd hr
  case error =>
    intro c i g accept m pre post err h _ _ hf _ _ _
    exact h.rejected hf
  case outside =>
    intro c m pre post h hf _
    exact ⟨h.treasury, h.vesting, h.spent, fun r hr => h.flight r (mem_rest hf hr)⟩
  case returned =>
    intro c m pre post h hf _ _
    exact h.rejected hf
  case wait =>
    intro c d h _
    exact ⟨h.treasury, h.vesting, h.spent, h.flight⟩

/-- **The client executes no high-value action.** As long as the timelock itself holds less
than 2.05 TON, no run in which actions are executed with the client's message spends from
the treasury or revokes the vesting. -/
theorem nothing_executed {own : Nat} {c₀ c : WorldConf}
    (hT : (network D modelled ordered).owns D.T = true) (hR : c₀.st.treasury.timelock = D.T)
    (hV : c₀.st.vesting.timelock = D.T) (hf₀ : c₀.flight = [])
    (hown : own + milliTon 250 < MIN_SPEND_FORWARD)
    (h : (network D modelled ordered).Run (Meets (ByClient D own)) c₀ c) :
    c.st.treasury.total_spent ≤ c₀.st.treasury.total_spent
      ∧ ∀ m ∈ c.flight, ∀ g w' out, World.receive D g c.now m c.st = .ok (w', out) →
        w'.treasury.total_spent ≤ c.st.treasury.total_spent ∧ ¬ Revokes D m := by
  have hstart : Underfunded D c₀.st.treasury.total_spent c₀ := by
    refine ⟨hR, hV, Nat.le_refl _, fun m hm => ?_⟩
    rw [hf₀] at hm
    cases hm
  have hU := h.invariant (underfunded_preserved hT hown) hstart
  exact ⟨hU.spent, fun m hm g w' out hr => ⟨hU.not_spent hm hr, hU.not_revoked hm hr⟩⟩

instance (D : Deployment) (own : Nat) (w : World) (now : Nat) (g : Gas) (m : Msg) :
    Decidable (ByClient D own w now g m) := by
  unfold ByClient
  split <;> infer_instance

/-- A spend of 300 nano is queued, executed with the client's message, and comes back. -/
def clientExecutes : List (Action Address Body Gas) :=
  [.send (external (D₀.addr (.jettonWallet D₀.R D₀.J)) D₀.R (milliTon 100)
     (.jettonNotification { queryId := 0, amount := 1000, sender := account 7
                            forwardPayload := noForwardPayload })),
   .deliver 0 (freeGas 0) true,
   .send (external D₀.G D₀.T (milliTon 1000)
     (.timelockQueue { queryId := 0, proposalId := 4, proposalContract := account 8, target := D₀.R
                       method := TREASURY_SPEND_METHOD, args := spendBody, delay := 172800 })),
   .deliver 0 (freeGas 0) true,
   .wait 172800,
   .send (external (account 9) D₀.T (milliTon 250) (.timelockExecutePending 0 4)),
   .deliver 0 (freeGas (milliTon 200)) true,
   .deliver 1 (freeGas 0) true,
   .deliver 1 (freeGas 0) true]

theorem nothing_executed_spend :
    ∃ c, (network D₀ highValueContracts fun _ _ => false).Run (Meets (ByClient D₀ 0))
        (bootstrapAt 1000) c
      ∧ c.st.treasury.total_received = 1000 ∧ c.st.treasury.total_spent ≤ 0
      ∧ (c.st.timelock.pendingActions.lookup 4).map (·.executed) = some false := by
  have hrun : ((network D₀ highValueContracts fun _ _ => false).execWhile
      (fun c a => decide (Meets (ByClient D₀ 0) c a)) .silent (bootstrapAt 1000) ()
      clientExecutes).map (fun r => (r.1.st.treasury.total_received,
        (r.1.st.timelock.pendingActions.lookup 4).map (·.executed)))
      = some (1000, some false) := by
    decide +kernel
  obtain ⟨⟨c, l⟩, hc, hrun⟩ := Option.map_eq_some_iff.mp hrun
  have hlogged := (Machine.logged_of_execWhile (G := Meets (ByClient D₀ 0))
    (fun _ _ h => of_decide_eq_true h) hc).run
  obtain ⟨hreceived, hpending⟩ := Prod.mk.inj hrun
  have hown : 0 + milliTon 250 < MIN_SPEND_FORWARD := by decide
  have hspent := (nothing_executed (by decide +kernel) rfl rfl rfl hown hlogged).1
  exact ⟨c, hlogged, hreceived, hspent, hpending⟩

end Executing

end TransactionBuilder

end BurnedChats

import BurnedChats.Governance.Payload
import BurnedChats.Lib.Table

/-!
# Proposals

`Proposal` (`proposal.tact`): one contract per proposal. It counts the votes the
vote relayer hands it, decides after the end of the voting window, and on
success reports to the governor what is to be queued.
-/

namespace BurnedChats

inductive ProposalState where
  | active
  | succeeded
  | defeated
  | queued
  | executed
  | cancelled
  deriving DecidableEq, Repr

/-- The number a state is stored and reported as. -/
def ProposalState.code : ProposalState → Nat
  | .active => 0
  | .succeeded => 1
  | .defeated => 2
  | .queued => 3
  | .executed => 4
  | .cancelled => 5

def zeroAddr : Address := ⟨.basechain, 0⟩

/-- What a proposal is created with. The rest of its initial data is fixed: no
votes, active. -/
structure ProposalInit where
  id : Nat
  governor : Address
  voteRelayer : Address
  proposer : Address
  proposalType : Nat
  payload : Cell
  startTime : Nat
  endTime : Nat
  totalVpSnapshot : Int
  quorumRequired : Int
  thresholdBps : Nat
  timelockDelaySec : Nat
  timelockAddr : Address

structure Proposal extends ProposalInit where
  forVotes : Int
  againstVotes : Int
  state : ProposalState
  succeededAt : Nat
  voted : Table Address Nat

/-- What a successful proposal asks to be queued. -/
structure QueueRequest where
  target : Address
  method : Nat
  args : Cell
  active : Bool

namespace Proposal

def TREASURY_SPEND_OPCODE : Nat := 0x5a1c9010

def reportStateEx (ctx : Ctx) (self : Proposal) (ns : ProposalState) (queueDelay : Nat)
    (q : QueueRequest) : Msg :=
  ctx.message self.governor (milliTon 30) false
    (.proposalStateReportToGovernor
      { proposalId := self.id, newState := ns.code, queueDelay
        queueTarget := q.target, queueMethod := q.method, queueArgs := q.args
        queueActive := q.active })

def noRequest : QueueRequest := ⟨zeroAddr, 0, .empty, false⟩

def receiveVoteRelay (ctx : Ctx) (self : Proposal) (msg : ProposalVoteRelay) :
    Tx (Proposal × List Msg) := do
  require (ctx.sender = self.voteRelayer) "Only vote relay"
  require (self.state = .active) "Not active"
  require (self.startTime ≤ ctx.now) "Not started"
  require (ctx.now ≤ self.endTime) "Voting ended"
  require (0 < msg.vp) "Zero vp"
  require (self.voted.lookup msg.voter = none) "Already voted"
  let self := { self with voted := self.voted.insert msg.voter 1 }
  let self := if msg.support then { self with forVotes := self.forVotes + msg.vp }
    else { self with againstVotes := self.againstVotes + msg.vp }
  .ok (self, [ctx.message msg.voter ctx.remaining false .empty])

/-- Decodes the payload of a successful proposal. -/
def queueRequest (self : Proposal) : Tx QueueRequest :=
  let s := self.payload.beginParse
  if self.proposalType = 0 then do
    let (target, s) ← s.loadAddress
    let (method, s) ← s.loadUint 32
    let (args, _) ← s.loadRef
    .ok { target, method, args, active := true }
  else if self.proposalType = 1 then .ok noRequest
  else if self.proposalType = 2 then do
    let (target, s) ← s.loadAddress
    let (recipient, s) ← s.loadAddress
    let (amount, s) ← s.loadCoins
    let (reason, _) ← s.loadRef
    let args ← TreasurySpend.toCell
      { queryId := 0, recipient, amount, reason, proposalId := self.id }
    .ok { target, method := TREASURY_SPEND_OPCODE, args, active := true }
  else if self.proposalType = 3 then do
    let (target, s) ← s.loadAddress
    let (method, s) ← s.loadUint 32
    let (args, s) ← s.loadRef
    let _ ← s.loadRef
    .ok { target, method, args, active := true }
  else .ok noRequest

/-- Quorum and threshold. -/
def passes (self : Proposal) : Bool :=
  let total := self.forVotes + self.againstVotes
  decide (self.quorumRequired ≤ total) && decide (total ≠ 0)
    && decide ((self.thresholdBps : Int) * total ≤ self.forVotes * 10000)

def defeat (ctx : Ctx) (self : Proposal) : Proposal × List Msg :=
  let self := { self with state := .defeated }
  (self, [reportStateEx ctx self .defeated 0 noRequest, ctx.cashback ctx.sender])

def receiveFinalize (ctx : Ctx) (self : Proposal) : Tx (Proposal × List Msg) := do
  require (self.endTime < ctx.now) "Still voting"
  require (self.state = .active) "Not active"
  let total := self.forVotes + self.againstVotes
  if total < self.quorumRequired then .ok (defeat ctx self)
  else if total = 0 then .ok (defeat ctx self)
  else do
    require (self.thresholdBps ≤ 10000) "Bad threshold"
    if ¬ self.passes = true then .ok (defeat ctx self)
    else do
      let self := { self with state := .succeeded, succeededAt := ctx.now }
      let q ← self.queueRequest
      .ok (self, [reportStateEx ctx self .succeeded self.timelockDelaySec q,
        ctx.cashback ctx.sender])

def receiveExecute (ctx : Ctx) (self : Proposal) : Tx (Proposal × List Msg) := do
  require (ctx.sender = self.governor) "Only governor"
  require (self.state = .succeeded) "Not succeeded"
  require (self.proposalType = 1) "Use timelock path"
  let self := { self with state := .executed }
  .ok (self, [reportStateEx ctx self .executed 0 noRequest])

def receiveMarkExecuted (ctx : Ctx) (self : Proposal) : Tx (Proposal × List Msg) := do
  require (ctx.sender = self.timelockAddr) "Only timelock"
  require (self.state = .succeeded) "Not succeeded"
  let self := { self with state := .executed }
  .ok (self, [reportStateEx ctx self .executed 0 noRequest])

def receiveCancel (ctx : Ctx) (self : Proposal) : Tx (Proposal × List Msg) := do
  require (ctx.sender = self.proposer) "Only proposer"
  require (ctx.now < self.startTime) "Too late"
  require (self.state = .active) "Not active"
  let self := { self with state := .cancelled }
  .ok (self, [reportStateEx ctx self .cancelled 0 noRequest, ctx.cashback ctx.sender])

def receive (ctx : Ctx) (self : Proposal) : Body → Tx (Proposal × List Msg)
  | .empty => .ok (self,
      if ctx.sender ≠ self.voteRelayer ∧ ctx.sender ≠ self.governor
          ∧ ctx.sender ≠ self.timelockAddr then [ctx.cashback ctx.sender]
      else [])
  | .proposalVoteRelay msg => receiveVoteRelay ctx self msg
  | .proposalFinalize => receiveFinalize ctx self
  | .proposalExecute => receiveExecute ctx self
  | .proposalMarkExecuted _ => receiveMarkExecuted ctx self
  | .proposalCancel => receiveCancel ctx self
  | _ => .error unknownMessage

/-- A fresh proposal. -/
def init (i : ProposalInit) : Proposal :=
  { i with forVotes := 0, againstVotes := 0, state := .active, succeededAt := 0, voted := ∅ }

end Proposal

end BurnedChats

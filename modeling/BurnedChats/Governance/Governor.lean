import BurnedChats.Governance.Proposal

/-!
# The governor

`Governor` (`governor.tact`): creates proposals in two phases around a snapshot
of the total voting power taken by the staking master, relays votes to it, and
passes the requests of successful proposals on to the timelock.
-/

namespace BurnedChats

structure Governor where
  proposalCount : Nat
  proposals : Table Nat Address
  proposalStateById : Table Nat Nat
  proposalEndTimeById : Table Nat Nat
  knownProposals : Table Address Bool
  proposalConfigs : Table Nat ProposalConfig
  minProposalVp : Int
  stakingMaster : Address
  stakingLock : Address
  timelock : Address
  timelockDelaySec : Nat
  cancelLagSec : Nat
  treasury : Address

namespace Governor

def GasVoteAttach : Nat := milliTon 180

def isKnownProposal (self : Governor) (a : Address) : Bool := (self.knownProposals.lookup a).isSome

def quorumAbsFromSnapshot (totalVp : Int) (quorumPct : Nat) : Int := totalVp * quorumPct / 100

def receiveCreateProposal (ctx : Ctx) (self : Governor) (msg : CreateProposal) :
    Tx (Governor × List Msg) := do
  validateProposalPayloadShape msg.proposalType msg.payload self.treasury
  match self.proposalConfigs.lookup msg.proposalType with
  | none => .error "Unknown proposal cfg"
  | some cfg => do
      require (0 ≤ cfg.thresholdPercent ∧ cfg.thresholdPercent ≤ 100) "Bad threshold pct"
      let thresholdBps ← uintField 16 (cfg.thresholdPercent * 100)
      require (thresholdBps ≤ 10000) "Bad threshold bps"
      require (self.minProposalVp ≤ msg.claimedVp) "Insufficient proposal vp"
      require (milliTon 450 ≤ ctx.value) "Need TON for deploy"
      let id := self.proposalCount
      let proposalCount ← uintField 64 (id + 1)
      let quorumPercent ← uintField 16 cfg.quorumPercent
      .ok ({ self with proposalCount },
        [ctx.message self.stakingMaster ctx.remaining true
          (.requestTotalVpSnapshot
            { queryId := msg.queryId, proposalId := id, proposer := ctx.sender
              proposalType := msg.proposalType, payload := msg.payload
              period := cfg.period, quorumPercent, thresholdBps
              timelockDelay := cfg.timelockDelay })])

/-- The initial data of the proposal deployed for a snapshot. -/
def proposalInit (ctx : Ctx) (self : Governor) (msg : TotalVpSnapshotReply)
    (quorumRequired : Int) : ProposalInit :=
  let startTime := ctx.now + self.cancelLagSec
  { id := msg.proposalId, governor := ctx.myAddress, voteRelayer := self.stakingMaster
    proposer := msg.proposer, proposalType := msg.proposalType, payload := msg.payload
    startTime, endTime := startTime + msg.period
    totalVpSnapshot := msg.totalVp, quorumRequired
    thresholdBps := msg.thresholdBps, timelockDelaySec := msg.timelockDelay
    timelockAddr := self.timelock }

/-- `proposalAddr` derives a contract's address from its initial data. -/
def receiveTotalVpSnapshotReply (proposalAddr : ProposalInit → Address) (ctx : Ctx)
    (self : Governor) (msg : TotalVpSnapshotReply) : Tx (Governor × List Msg) := do
  require (ctx.sender = self.stakingMaster) "Bad snapshot source"
  require (0 < msg.totalVp) "Bad totalVp snapshot"
  let id := msg.proposalId
  if msg.proposerVp < self.minProposalVp then
    .ok ({ self with
      proposalStateById := self.proposalStateById.insert id ProposalState.cancelled.code }, [])
  else do
    let quorumRequired := quorumAbsFromSnapshot msg.totalVp msg.quorumPercent
    require (0 < quorumRequired) "Vp snapshot too low for quorum"
    let ini := proposalInit ctx self msg quorumRequired
    let endTime ← uintField 64 ini.endTime
    let propAddr := proposalAddr ini
    .ok ({ self with
        proposals := self.proposals.insert id propAddr
        proposalStateById := self.proposalStateById.insert id ProposalState.active.code
        proposalEndTimeById := self.proposalEndTimeById.insert id endTime
        knownProposals := self.knownProposals.insert propAddr true },
      [ctx.deploy propAddr (milliTon 180) false .empty])

def receiveCastVote (ctx : Ctx) (self : Governor) (msg : CastVote) : Tx (Governor × List Msg) := do
  require (0 < msg.claimedVp) "Zero vp"
  require (GasVoteAttach ≤ ctx.value) "Need TON for vote"
  match self.proposals.lookup msg.proposalId with
  | none => .error "Unknown proposal"
  | some propAddr =>
      match self.proposalEndTimeById.lookup msg.proposalId with
      | none => .error "Unknown proposal end"
      | some voteEndTime =>
          .ok (self, [ctx.message self.stakingMaster ctx.remaining true
            (.governorVoteRelay
              { queryId := msg.queryId, proposal := propAddr, voter := ctx.sender
                support := msg.support, claimedVp := msg.claimedVp, voteEndTime })])

def receiveExecuteProposal (ctx : Ctx) (self : Governor) (proposalId : Nat) :
    Tx (Governor × List Msg) :=
  match self.proposals.lookup proposalId with
  | none => .error "Unknown proposal"
  | some a => .ok (self,
      [ctx.message a (milliTon 70) true .proposalExecute, ctx.cashback ctx.sender])

def receiveStateReport (ctx : Ctx) (self : Governor) (msg : ProposalStateReportToGovernor) :
    Tx (Governor × List Msg) := do
  require (self.proposals.lookup msg.proposalId = some ctx.sender) "Bad caller"
  let self := { self with
    proposalStateById := self.proposalStateById.insert msg.proposalId msg.newState }
  if msg.newState = 1 ∧ msg.queueActive = true then do
    require (msg.queueDelay = 0 ∨ 86400 ≤ msg.queueDelay) "Bad queue delay"
    .ok (self, [ctx.message self.timelock (milliTon 150) true
      (.timelockQueue
        { queryId := 0, proposalId := msg.proposalId, proposalContract := ctx.sender
          target := msg.queueTarget, method := msg.queueMethod, args := msg.queueArgs
          delay := msg.queueDelay })])
  else .ok (self, [])

def receiveSetProposalConfig (ctx : Ctx) (self : Governor) (msg : TimelockSetProposalConfig) :
    Tx (Governor × List Msg) := do
  require (ctx.sender = self.timelock) "Only timelock"
  require (5 ≤ msg.config.quorumPercent ∧ msg.config.quorumPercent ≤ 100) "Cfg quorum"
  require (51 ≤ msg.config.thresholdPercent ∧ msg.config.thresholdPercent ≤ 100) "Cfg thresh"
  require (0 < msg.config.period) "Cfg period"
  .ok ({ self with proposalConfigs := self.proposalConfigs.insert msg.proposalType msg.config },
    [ctx.cashback ctx.sender])

def receive (proposalAddr : ProposalInit → Address) (ctx : Ctx) (self : Governor) :
    Body → Tx (Governor × List Msg)
  | .empty => .ok (self,
      if ctx.sender ≠ self.stakingMaster ∧ ctx.sender ≠ self.timelock
          ∧ self.isKnownProposal ctx.sender = false then [ctx.cashback ctx.sender]
      else [])
  | .createProposal msg => receiveCreateProposal ctx self msg
  | .totalVpSnapshotReply msg => receiveTotalVpSnapshotReply proposalAddr ctx self msg
  | .castVote msg => receiveCastVote ctx self msg
  | .executeProposal _ proposalId => receiveExecuteProposal ctx self proposalId
  | .proposalStateReportToGovernor msg => receiveStateReport ctx self msg
  | .timelockSetProposalConfig msg => receiveSetProposalConfig ctx self msg
  | _ => .error unknownMessage

/-- A returned snapshot request cancels the reserved id; other returns are
absorbed. -/
def bounced (self : Governor) : Body → Governor
  | .requestTotalVpSnapshot msg => { self with
      proposalStateById :=
        self.proposalStateById.insert msg.proposalId ProposalState.cancelled.code }
  | _ => self

/-- 255 stands for an id without a state. -/
def get_proposal_state (self : Governor) (id : Nat) : Nat :=
  if self.proposalCount ≤ id then 255
  else match self.proposalStateById.lookup id with
    | none => 255
    | some s => s

/-- Quorum, threshold, voting period and timelock delay of the four types at
deployment. -/
def defaultProposalConfigs : Table Nat ProposalConfig :=
  (((∅ : Table Nat ProposalConfig).insert 0 ⟨10, 51, 3 * 86400, 2 * 86400⟩).insert 1
    ⟨5, 51, 7 * 86400, 2 * 86400⟩ |>.insert 2 ⟨20, 66, 7 * 86400, 2 * 86400⟩).insert 3
    ⟨30, 75, 86400, 0⟩

/-- The state a deployment starts in. -/
def prepareInit (minProposalVp : Int) (stakingMaster stakingLock timelock treasury : Address) :
    Governor :=
  { proposalCount := 0, proposals := ∅, proposalStateById := ∅, proposalEndTimeById := ∅
    knownProposals := ∅, proposalConfigs := defaultProposalConfigs, minProposalVp
    stakingMaster, stakingLock, timelock, timelockDelaySec := 2 * 86400, cancelLagSec := 3600
    treasury }

end Governor

end BurnedChats

import BurnedChats.Jetton.Wallet
import BurnedChats.Staking.Lock

/-!
# The staking master

`StakingMaster` (`staking-master.tact`): positions per tier and owner, the
accumulated reward per share of each tier, the linear emission, and the voting
power of stakes. Jettons arrive with a notification from the master's own wallet
and are passed on to the pool; everything the pool has to know of travels in
messages.

The source keeps one map per tier for positions and for debts; here a position
is keyed by tier and owner. Every access is behind a check of the tier.
-/

namespace BurnedChats

structure StakeInfoView where
  amount : Nat
  tier : Nat
  startTime : Nat
  lastClaimTime : Nat
  unlockTime : Nat
  deriving DecidableEq, Repr

def tierVotingPowerFromAmount (stakeAmount multiplierX100 : Nat) : Nat :=
  stakeAmount * multiplierX100 / 100

structure StakingMaster where
  pool : Address
  jettonMaster : Address
  stakingLock : Address
  bootstrapOwner : Address
  governorAddr : Address
  stakingJettonWallet : Address
  jwConfigured : Bool
  stakes : Table (Nat × Address) StakeInfoView
  rewardPerShare : Table Nat Nat
  debts : Table (Nat × Address) Nat
  totalStakeByTier : Table Nat Nat
  emissionStartTime : Nat
  lastEmitTime : Nat
  emittedSoFar : Nat
  emissionFunded : Nat
  tierConfigs : TierTable

/-- Opcodes of the forward payloads. -/
def StakeForward.opcode : Nat := 0x5a020010
def EmissionFundForward.opcode : Nat := 0x5a020011

/-- A forward payload that is one reference to a cell starting with `opcode`
(`hasStakeForwardPayload`, `hasEmissionFundForwardPayload`). -/
def hasForwardPayload (opcode : Nat) (forwardPayload : Slice) : Tx Bool := do
  let b ← forwardPayload.preloadUint 1
  if b ≠ 1 then .ok false
  else if forwardPayload.refs.length ≠ 1 ∨ forwardPayload.bits.length ≠ 1 then .ok false
  else do
    let (inner, _) ← forwardPayload.loadRef
    let op ← inner.beginParse.preloadUint 32
    .ok (decide (op = opcode))

namespace StakingMaster

def RewardScale : Nat := 10 ^ 18
def TotalEmissionNano : Nat := 300000000000
def EmissionNanoPerSec : Nat := 3170
def EmitMinIntervalSec : Nat := 60
def MinStakeNano : Nat := 10000000
def GasToPool : Nat := milliTon 60
def GasForwardStakeJetton : Nat := milliTon 1500
def GasPayRewards : Nat := milliTon 1500

/-! ## Reading and writing the maps -/

def tierCfg (self : StakingMaster) (tier : Nat) : Tx TierConfig := do
  assertTier tier
  match self.tierConfigs.lookup tier with
  | some c => .ok c
  | none => .error "Missing tier cfg"

def rewardPerShareForTier (self : StakingMaster) (tier : Nat) : Nat :=
  (self.rewardPerShare.lookup tier).getD 0

def tierTotalStake (self : StakingMaster) (tier : Nat) : Nat :=
  (self.totalStakeByTier.lookup tier).getD 0

def stakesMapGet (self : StakingMaster) (tier : Nat) (who : Address) : Option StakeInfoView :=
  self.stakes.lookup (tier, who)

def stakesMapSet (self : StakingMaster) (tier : Nat) (who : Address) (info : StakeInfoView) :
    StakingMaster :=
  { self with stakes := self.stakes.insert (tier, who) info }

def stakesMapDel (self : StakingMaster) (tier : Nat) (who : Address) : StakingMaster :=
  { self with stakes := self.stakes.erase (tier, who) }

def debtMapGet (self : StakingMaster) (tier : Nat) (who : Address) : Nat :=
  (self.debts.lookup (tier, who)).getD 0

def debtMapSet (self : StakingMaster) (tier : Nat) (who : Address) (debt : Nat) : StakingMaster :=
  { self with debts := self.debts.insert (tier, who) debt }

def debtMapDel (self : StakingMaster) (tier : Nat) (who : Address) : StakingMaster :=
  { self with debts := self.debts.erase (tier, who) }

def addTierTotalStake (self : StakingMaster) (tier delta : Nat) : Tx StakingMaster := do
  assertTier tier
  require (0 < delta) "Bad delta"
  let prev := self.tierTotalStake tier
  let next := prev + delta
  require (prev ≤ next) "Stake overflow"
  .ok { self with totalStakeByTier := self.totalStakeByTier.insert tier next }

def subTierTotalStake (self : StakingMaster) (tier delta : Nat) : Tx StakingMaster := do
  assertTier tier
  require (0 < delta) "Bad delta"
  let prev := self.tierTotalStake tier
  require (delta ≤ prev) "Tier underflow"
  .ok { self with totalStakeByTier := self.totalStakeByTier.insert tier (prev - delta) }

/-! ## Rewards -/

/-- Accrues a slice into a tier's reward per share; an empty tier forfeits it.
Returns what was applied. -/
def accumulateTierRewardFromStakeFeeSlice (self : StakingMaster) (tier tierFeeSliceNano : Nat) :
    StakingMaster × Nat :=
  if tierFeeSliceNano = 0 then (self, 0)
  else
    let tot := self.tierTotalStake tier
    if tot = 0 then (self, 0)
    else
      let deltaRps := tierFeeSliceNano * RewardScale / tot
      let prev := self.rewardPerShareForTier tier
      ({ self with rewardPerShare := self.rewardPerShare.insert tier (prev + deltaRps) },
        tierFeeSliceNano)

/-- The loop of `applyStakeFeeSlices` over the remaining tiers. -/
def applySlices (feeAmount : Nat) : List Nat → StakingMaster → Nat → Tx (StakingMaster × Nat)
  | [], self, distributed => .ok (self, distributed)
  | t :: ts, self, distributed => do
      let cfg ← self.tierCfg t
      let slice := feeAmount * cfg.rewardShare / 100
      let (self, applied) := self.accumulateTierRewardFromStakeFeeSlice t slice
      applySlices feeAmount ts self (distributed + applied)

def applyStakeFeeSlices (self : StakingMaster) (feeAmount : Nat) : Tx (StakingMaster × Nat) := do
  require (0 < feeAmount) "Bad fee"
  applySlices feeAmount tiers self 0

def initUserRewardDebt (self : StakingMaster) (ownerAddr : Address) (tier stakeAmount : Nat) :
    StakingMaster :=
  self.debtMapSet tier ownerAddr (stakeAmount * self.rewardPerShareForTier tier / RewardScale)

def totalStakedAllTiers (self : StakingMaster) : Nat := (tiers.map self.tierTotalStake).sum

/-- Accrued minus debt, as the source computes it before clamping. -/
def unclampedReward (self : StakingMaster) (ownerAddr : Address) (tier amount : Nat) : Int :=
  (amount * self.rewardPerShareForTier tier / RewardScale : Nat) - self.debtMapGet tier ownerAddr

def calculatePendingRewardFor (self : StakingMaster) (ownerAddr : Address) (tier : Nat) : Nat :=
  match self.stakesMapGet tier ownerAddr with
  | none => 0
  | some stake =>
      if stake.amount = 0 then 0
      else
        let pend := self.unclampedReward ownerAddr tier stake.amount
        if pend < 0 then 0 else pend.toNat

/-! ## Emission -/

/-- What a tick may distribute: the elapsed share of the schedule, cut to the
remaining budget and to the remaining funding. -/
def emissionPending (self : StakingMaster) (elapsed : Int) : Int :=
  let pending := elapsed * EmissionNanoPerSec
  let budgetCap : Int := (TotalEmissionNano : Int) - self.emittedSoFar
  let pending := if budgetCap < pending then budgetCap else pending
  let fundedCap : Int := (self.emissionFunded : Int) - self.emittedSoFar
  if fundedCap < pending then fundedCap else pending

def creditPool (ctx : Ctx) (self : StakingMaster) (queryId delta : Nat) : Msg :=
  ctx.message self.pool GasToPool true (.creditPoolBalance { queryId, delta })

def tickEmission (ctx : Ctx) (self : StakingMaster) : Tx (StakingMaster × List Msg) :=
  let nowTs := ctx.now
  if self.emissionStartTime = 0 then
    .ok ({ self with emissionStartTime := nowTs, lastEmitTime := nowTs }, [])
  else
    let elapsed : Int := (nowTs : Int) - self.lastEmitTime
    if elapsed < EmitMinIntervalSec then .ok (self, [])
    else if self.totalStakedAllTiers ≤ 0 then .ok ({ self with lastEmitTime := nowTs }, [])
    else
      let pending := self.emissionPending elapsed
      if pending ≤ 0 then .ok ({ self with lastEmitTime := nowTs }, [])
      else do
        let (self, distributed) ← self.applyStakeFeeSlices pending.toNat
        if 0 < distributed then
          .ok ({ self with emittedSoFar := self.emittedSoFar + distributed, lastEmitTime := nowTs },
            [self.creditPool ctx 0 distributed])
        else .ok ({ self with lastEmitTime := nowTs }, [])

/-! ## Staking -/

def minStakeNotifyTon (self : StakingMaster) (staker : Address) (tier : Nat) : Nat :=
  let minNotify := GasForwardStakeJetton + GasToPool * 2 + milliTon 80
  match self.stakesMapGet tier staker with
  | none => minNotify
  | some _ =>
      if 0 < self.calculatePendingRewardFor staker tier then minNotify + GasPayRewards
      else minNotify

def stakeForwardTier (forwardPayload : Slice) : Tx Nat := do
  let (inner, _) ← forwardPayload.loadRef
  let s ← inner.beginParse.skipBits 32
  let (tier, _) ← s.loadUint 8
  .ok tier

/-- An outgoing jetton transfer of the master's own wallet, without notification. -/
def jettonTransferOut (ctx : Ctx) (self : StakingMaster) (queryId amount : Nat)
    (destination response : Address) : Msg :=
  ctx.message self.stakingJettonWallet GasForwardStakeJetton true
    (.jettonTransfer
      { queryId, amount, destination, responseDestination := some response
        customPayload := none, forwardTonAmount := 0, forwardPayload := noForwardPayload })

def returnSubMinStakeJettons (ctx : Ctx) (self : StakingMaster) (amount : Nat)
    (recipient : Address) (queryId : Nat) : Tx (StakingMaster × List Msg) := do
  require (GasForwardStakeJetton ≤ ctx.value) "Low TON return"
  .ok (self, [jettonTransferOut ctx self queryId amount recipient recipient,
    ctx.cashback recipient])

def forwardStakeJettonsToPool (ctx : Ctx) (self : StakingMaster) (amount queryId : Nat)
    (staker : Address) : Msg :=
  jettonTransferOut ctx self queryId amount self.pool staker

def sendPayRewards (ctx : Ctx) (self : StakingMaster) (recipient : Address)
    (amount queryId : Nat) : Tx Msg := do
  require (0 < amount) "Bad payout"
  .ok (ctx.message self.pool GasPayRewards true (.payRewards { queryId, recipient, amount }))

def sendPayUnstake (ctx : Ctx) (self : StakingMaster) (recipient : Address)
    (principal reward queryId : Nat) : Tx Msg := do
  require (0 < principal) "Bad principal"
  .ok (ctx.message self.pool GasPayRewards true
    (.payUnstake { queryId, recipient, principal, reward }))

/-- What a notification of incoming jettons amounts to: dust, a deposit to be
returned, or a stake in a tier. -/
inductive StakeVerdict where
  | ignore
  | refund
  | accept (tier : Nat)
  deriving DecidableEq

def stakeVerdict (ctx : Ctx) (self : StakingMaster) (msg : JettonNotification) :
    Tx StakeVerdict := do
  let staking ← hasForwardPayload StakeForward.opcode msg.forwardPayload
  if msg.amount < MinStakeNano then .ok (if staking then .refund else .ignore)
  else if !staking then .ok .refund
  else do
    let tier ← stakeForwardTier msg.forwardPayload
    if 3 < tier ∨ self.tierConfigs.lookup tier = none then .ok .refund
    else if ctx.value < self.minStakeNotifyTon msg.sender tier then .ok .refund
    else .ok (.accept tier)

/-- Merges an accepted stake into the existing position, paying out what it has
earned, or opens a new one. -/
def enterPosition (ctx : Ctx) (self : StakingMaster) (msg : JettonNotification)
    (tier unlockTime : Nat) : Tx (StakingMaster × List Msg) :=
  let staker := msg.sender
  match self.stakesMapGet tier staker with
  | some old => do
      let pendingOld := self.calculatePendingRewardFor staker tier
      let paid ← (if 0 < pendingOld then do
          let m ← sendPayRewards ctx self staker pendingOld msg.queryId
          .ok [m]
        else .ok [])
      let mergedAmt := old.amount + msg.amount
      let self := self.stakesMapSet tier staker
        { amount := mergedAmt, tier, startTime := old.startTime, lastClaimTime := ctx.now
          unlockTime }
      let self ← self.addTierTotalStake tier msg.amount
      .ok (self.initUserRewardDebt staker tier mergedAmt, paid)
  | none => do
      let self := self.stakesMapSet tier staker
        { amount := msg.amount, tier, startTime := ctx.now, lastClaimTime := ctx.now
          unlockTime }
      let self ← self.addTierTotalStake tier msg.amount
      .ok (self.initUserRewardDebt staker tier msg.amount, [])

def acceptStake (ctx : Ctx) (self : StakingMaster) (msg : JettonNotification) (tier : Nat) :
    Tx (StakingMaster × List Msg) := do
  let (self, ticked) ← tickEmission ctx self
  let cfg ← self.tierCfg tier
  let (self, paid) ← enterPosition ctx self msg tier (ctx.now + cfg.durationSeconds)
  .ok (self, ticked ++ paid ++
    [ctx.message self.pool GasToPool true
       (.incrementTotalStake { queryId := msg.queryId, tier, delta := msg.amount }),
     self.creditPool ctx msg.queryId msg.amount,
     forwardStakeJettonsToPool ctx self msg.amount msg.queryId msg.sender,
     ctx.cashback msg.sender])

def receiveJettonNotification (ctx : Ctx) (self : StakingMaster) (msg : JettonNotification) :
    Tx (StakingMaster × List Msg) := do
  require (self.jwConfigured = true) "JW not configured"
  require (ctx.sender = self.stakingJettonWallet) "Only master JW"
  let verdict ← stakeVerdict ctx self msg
  match verdict with
  | .ignore => .ok (self, [ctx.cashback ctx.sender])
  | .refund => returnSubMinStakeJettons ctx self msg.amount msg.sender msg.queryId
  | .accept tier => acceptStake ctx self msg tier

/-- Reduces a position, closing it when nothing remains. -/
def leavePosition (self : StakingMaster) (who : Address) (tier : Nat) (cur : StakeInfoView)
    (newAmt : Nat) : StakingMaster :=
  if newAmt = 0 then (self.stakesMapDel tier who).debtMapDel tier who
  else
    (self.stakesMapSet tier who { cur with amount := newAmt }).initUserRewardDebt who tier newAmt

def receiveUnstakeJetton (ctx : Ctx) (self : StakingMaster) (msg : UnstakeJetton) :
    Tx (StakingMaster × List Msg) := do
  require (GasPayRewards + GasToPool + milliTon 80 ≤ ctx.value) "Low TON unstake"
  let (self, ticked) ← tickEmission ctx self
  let who := ctx.sender
  assertTier msg.tier
  require (0 < msg.amount) "Bad amount"
  match self.stakesMapGet msg.tier who with
  | none => .error "No stake"
  | some cur => do
      require (0 < cur.amount) "Empty stake"
      require (msg.amount ≤ cur.amount) "Too much"
      require (cur.unlockTime ≤ ctx.now) "Still locked"
      let pending := self.calculatePendingRewardFor who msg.tier
      let pay ← sendPayUnstake ctx self who msg.amount pending msg.queryId
      let self := leavePosition self who msg.tier cur (cur.amount - msg.amount)
      let self ← self.subTierTotalStake msg.tier msg.amount
      .ok (self, ticked ++
        [pay,
         ctx.message self.pool GasToPool true
           (.decrementTotalStake { queryId := msg.queryId, tier := msg.tier, delta := msg.amount }),
         ctx.cashback who])

def receiveClaimRewards (ctx : Ctx) (self : StakingMaster) (msg : ClaimRewards) :
    Tx (StakingMaster × List Msg) := do
  require (GasPayRewards + milliTon 60 ≤ ctx.value) "Low TON claim"
  let (self, ticked) ← tickEmission ctx self
  let who := ctx.sender
  assertTier msg.tier
  match self.stakesMapGet msg.tier who with
  | none => .error "No stake"
  | some cur => do
      require (0 < cur.amount) "Empty stake"
      let pending := self.calculatePendingRewardFor who msg.tier
      require (0 < pending) "Nothing to claim"
      let pay ← sendPayRewards ctx self who pending msg.queryId
      let self := self.initUserRewardDebt who msg.tier cur.amount
      let self := self.stakesMapSet msg.tier who { cur with lastClaimTime := ctx.now }
      .ok (self, ticked ++ [pay, ctx.cashback who])

/-! ## Wiring, funding and configuration -/

def receiveSetMasterJettonWallet (ctx : Ctx) (self : StakingMaster) (wallet : Address) :
    Tx (StakingMaster × List Msg) := do
  require (ctx.sender = self.bootstrapOwner) "Only bootstrap"
  require (self.jwConfigured = false) "JW already set"
  forceBasechain wallet
  .ok ({ self with stakingJettonWallet := wallet, jwConfigured := true },
    [ctx.cashback ctx.sender])

def receiveSetGovernor (ctx : Ctx) (self : StakingMaster) (governor : Address) :
    Tx (StakingMaster × List Msg) := do
  require (ctx.sender = self.bootstrapOwner) "Only bootstrap"
  require (self.governorAddr = self.bootstrapOwner) "Governor already set"
  forceBasechain governor
  .ok ({ self with governorAddr := governor }, [ctx.cashback ctx.sender])

def receiveEmissionReserveFunded (ctx : Ctx) (self : StakingMaster) (amount : Nat) :
    Tx (StakingMaster × List Msg) := do
  require (ctx.sender = self.pool) "Only pool"
  require (0 < amount) "Bad amount"
  let next := self.emissionFunded + amount
  let next := if TotalEmissionNano < next then TotalEmissionNano else next
  .ok ({ self with emissionFunded := next }, [])

def receiveStakeFeeRewardsAccrue (ctx : Ctx) (self : StakingMaster)
    (msg : StakeFeeRewardsAccrue) : Tx (StakingMaster × List Msg) := do
  require (ctx.sender = self.pool) "Only pool"
  let (self, _) ← self.applyStakeFeeSlices msg.feeAmount
  .ok (self, [])

def receiveTierConfigSync (ctx : Ctx) (self : StakingMaster) (msg : TierConfigSync) :
    Tx (StakingMaster × List Msg) := do
  require (ctx.sender = self.stakingLock) "Only staking lock"
  assertTier msg.tier
  require (0 < msg.multiplier) "Bad multiplier"
  require (0 ≤ msg.rewardShare ∧ msg.rewardShare ≤ 100) "Bad share"
  let cfg : TierConfig :=
    { durationSeconds := msg.durationSeconds
      multiplier := msg.multiplier.toNat
      rewardShare := msg.rewardShare.toNat }
  .ok ({ self with tierConfigs := self.tierConfigs.insert msg.tier cfg }, [])

/-! ## Voting power -/

/-- The voting power of the owner's positions that `counts` admits, tier by tier. -/
def ownerVotingPower (self : StakingMaster) (ownerAddr : Address)
    (counts : StakeInfoView → Bool) : List Nat → Tx Nat
  | [] => .ok 0
  | t :: ts => do
      let vp ← (match self.stakesMapGet t ownerAddr with
        | none => .ok 0
        | some stake =>
            if 0 < stake.amount ∧ counts stake = true then do
              let cfg ← self.tierCfg stake.tier
              .ok (tierVotingPowerFromAmount stake.amount cfg.multiplier)
            else .ok 0)
      let rest ← ownerVotingPower self ownerAddr counts ts
      .ok (vp + rest)

def computeOwnerVotingPower (self : StakingMaster) (ownerAddr : Address) : Tx Nat :=
  self.ownerVotingPower ownerAddr (fun _ => true) tiers

def computeOwnerVotingPowerLockedBeyond (self : StakingMaster) (ownerAddr : Address)
    (voteEndTime : Nat) : Tx Nat :=
  self.ownerVotingPower ownerAddr (fun stake => decide (voteEndTime < stake.unlockTime)) tiers

/-- The voting power of the totals of the given tiers. -/
def totalVotingPower (self : StakingMaster) : List Nat → Tx Nat
  | [] => .ok 0
  | t :: ts => do
      let vp ← (if 0 < self.tierTotalStake t then do
          let cfg ← self.tierCfg t
          .ok (tierVotingPowerFromAmount (self.tierTotalStake t) cfg.multiplier)
        else .ok 0)
      let rest ← totalVotingPower self ts
      .ok (vp + rest)

def computeTotalVotingPower (self : StakingMaster) : Tx Nat := self.totalVotingPower tiers

def receiveGovernorVoteRelay (ctx : Ctx) (self : StakingMaster) (msg : GovernorVoteRelay) :
    Tx (StakingMaster × List Msg) := do
  require (ctx.sender = self.governorAddr) "Only governor"
  require (0 < msg.claimedVp) "Zero claimed vp"
  let onChainVp ← self.computeOwnerVotingPowerLockedBeyond msg.voter msg.voteEndTime
  let vpEff : Int := if msg.claimedVp < onChainVp then msg.claimedVp else onChainVp
  require (0 < vpEff) "Zero effective vp"
  .ok (self, [ctx.message msg.proposal ctx.remaining true
    (.proposalVoteRelay { voter := msg.voter, support := msg.support, vp := vpEff })])

def receiveRequestTotalVpSnapshot (ctx : Ctx) (self : StakingMaster)
    (msg : RequestTotalVpSnapshot) : Tx (StakingMaster × List Msg) := do
  require (ctx.sender = self.governorAddr) "Only governor"
  let totalVp ← self.computeTotalVotingPower
  let proposerVp ← self.computeOwnerVotingPower msg.proposer
  .ok (self, [ctx.message self.governorAddr ctx.remaining true
    (.totalVpSnapshotReply { msg with totalVp, proposerVp })])

/-! ## Dispatch -/

def receive (ctx : Ctx) (self : StakingMaster) : Body → Tx (StakingMaster × List Msg)
  | .empty => .ok (self,
      if ctx.sender ≠ self.governorAddr ∧ ctx.sender ≠ self.stakingLock then
        [ctx.cashback ctx.sender]
      else [])
  | .jettonExcesses _ => .ok (self, [ctx.cashback ctx.sender])
  | .setMasterJettonWallet _ wallet => receiveSetMasterJettonWallet ctx self wallet
  | .setGovernor _ governor => receiveSetGovernor ctx self governor
  | .emissionReserveFunded _ amount => receiveEmissionReserveFunded ctx self amount
  | .jettonNotification msg => receiveJettonNotification ctx self msg
  | .unstakeJetton msg => receiveUnstakeJetton ctx self msg
  | .claimRewards msg => receiveClaimRewards ctx self msg
  | .stakeFeeRewardsAccrue msg => receiveStakeFeeRewardsAccrue ctx self msg
  | .governorVoteRelay msg => receiveGovernorVoteRelay ctx self msg
  | .tierConfigSync msg => receiveTierConfigSync ctx self msg
  | .requestTotalVpSnapshot msg => receiveRequestTotalVpSnapshot ctx self msg
  | _ => .error unknownMessage

/-- The state a deployment starts in; the wallet is a placeholder until it is set. -/
def prepareInit (pool jettonMaster stakingLock bootstrapOwner governorAddr : Address) :
    StakingMaster :=
  { pool, jettonMaster, stakingLock, bootstrapOwner, governorAddr
    stakingJettonWallet := pool, jwConfigured := false
    stakes := ∅, rewardPerShare := ∅, debts := ∅, totalStakeByTier := ∅
    emissionStartTime := 0, lastEmitTime := 0, emittedSoFar := 0, emissionFunded := 0
    tierConfigs := defaultStakingTierConfigs }

end StakingMaster

end BurnedChats

import BurnedChats.Staking.Master

/-!
# The staking pool

`StakingPool` (`staking-pool.tact`): the jettons of all stakers, held in the
pool's own jetton wallet and accounted for by `pool_balance` and the stake
totals per tier. The master's instructions move these two apart for a moment, a
pair of messages at a time; payouts leave as transfers of the pool's wallet and
come back as a bounce or a commit failure when the wallet refuses them.
-/

namespace BurnedChats

structure StakingPool where
  bootstrapOwner : Address
  stakingMaster : Address
  jettonMinter : Address
  totals : Table Nat Nat
  pool_balance : Nat
  master_wired : Bool

namespace StakingPool

variable (W : WalletBook)

def PayRewardsTon : Nat := milliTon 1500

def jettonRewardsWalletAddr (ctx : Ctx) (self : StakingPool) : Address :=
  W.addr ctx.myAddress self.jettonMinter

def assertMaster (ctx : Ctx) (self : StakingPool) : Tx Unit := do
  require (self.master_wired = true) "Pool master not wired"
  require (ctx.sender = self.stakingMaster) "Only staking master"

def tierTotal (self : StakingPool) (tier : Nat) : Nat := (self.totals.lookup tier).getD 0

def totalPrincipal (self : StakingPool) : Nat := (tiers.map self.tierTotal).sum

/-- What may be paid as rewards: the balance above the staked principal. -/
def rewardFunding (self : StakingPool) : Nat :=
  if self.pool_balance ≤ self.totalPrincipal then 0 else self.pool_balance - self.totalPrincipal

def accrueToMaster (ctx : Ctx) (self : StakingPool) (queryId feeAmount : Nat) : Msg :=
  ctx.message self.stakingMaster gasPoolToMasterAccrual true
    (.stakeFeeRewardsAccrue { queryId, feeAmount })

def receiveJettonNotification (ctx : Ctx) (self : StakingPool) (msg : JettonNotification) :
    Tx (StakingPool × List Msg) := do
  require (ctx.sender = jettonRewardsWalletAddr W ctx self) "Only pool JW"
  require (0 < msg.amount) "Bad amount"
  let funding ← hasForwardPayload EmissionFundForward.opcode msg.forwardPayload
  if funding then do
    require (self.master_wired = true) "Pool master not wired"
    .ok (self, [ctx.message self.stakingMaster gasPoolToMasterAccrual true
      (.emissionReserveFunded msg.queryId msg.amount)])
  else
    .ok ({ self with pool_balance := self.pool_balance + msg.amount },
      [self.accrueToMaster ctx msg.queryId msg.amount])

def receiveWireStakingMaster (ctx : Ctx) (self : StakingPool) (stakingMaster : Address) :
    Tx (StakingPool × List Msg) := do
  require (self.master_wired = false) "Already wired"
  require (ctx.sender = self.bootstrapOwner) "Only bootstrap"
  .ok ({ self with stakingMaster, master_wired := true }, [])

def receiveRelayStakeFeeAccrual (ctx : Ctx) (self : StakingPool) (queryId feeAmount : Nat) :
    Tx (StakingPool × List Msg) := do
  assertMaster ctx self
  require (0 < feeAmount) "Bad fee"
  .ok (self, [self.accrueToMaster ctx queryId feeAmount])

def receiveIncrementTotalStake (ctx : Ctx) (self : StakingPool) (msg : TotalStakeDelta) :
    Tx (StakingPool × List Msg) := do
  assertMaster ctx self
  assertTier msg.tier
  require (0 < msg.delta) "Bad delta"
  let prev := self.tierTotal msg.tier
  let next := prev + msg.delta
  require (prev ≤ next) "Stake overflow"
  .ok ({ self with totals := self.totals.insert msg.tier next }, [])

def receiveDecrementTotalStake (ctx : Ctx) (self : StakingPool) (msg : TotalStakeDelta) :
    Tx (StakingPool × List Msg) := do
  assertMaster ctx self
  assertTier msg.tier
  require (0 < msg.delta) "Bad delta"
  let prev := self.tierTotal msg.tier
  require (msg.delta ≤ prev) "Tier underflow"
  .ok ({ self with totals := self.totals.insert msg.tier (prev - msg.delta) }, [])

def receiveCreditPoolBalance (ctx : Ctx) (self : StakingPool) (msg : CreditPoolBalance) :
    Tx (StakingPool × List Msg) := do
  assertMaster ctx self
  require (0 < msg.delta) "Bad delta"
  .ok ({ self with pool_balance := self.pool_balance + msg.delta }, [])

/-- A payout of the pool's jetton wallet. -/
def payout (ctx : Ctx) (self : StakingPool) (queryId amount : Nat) (recipient : Address) : Msg :=
  ctx.message (jettonRewardsWalletAddr W ctx self) PayRewardsTon true
    (.jettonTransfer
      { queryId, amount, destination := recipient, responseDestination := some recipient
        customPayload := none, forwardTonAmount := 1, forwardPayload := noForwardPayload })

/-- The funded part of a requested reward. -/
def cappedReward (self : StakingPool) (reward : Nat) : Nat :=
  if self.rewardFunding < reward then self.rewardFunding else reward

def receivePayRewards (ctx : Ctx) (self : StakingPool) (msg : PayRewards) :
    Tx (StakingPool × List Msg) := do
  assertMaster ctx self
  require (0 < msg.amount) "Bad amount"
  require (PayRewardsTon ≤ ctx.value) "Insufficient TON for payout"
  let pay := self.cappedReward msg.amount
  if pay ≤ 0 then .ok (self, [ctx.cashback ctx.sender])
  else
    .ok ({ self with pool_balance := self.pool_balance - pay },
      [payout W ctx self msg.queryId pay msg.recipient])

def receivePayUnstake (ctx : Ctx) (self : StakingPool) (msg : PayUnstake) :
    Tx (StakingPool × List Msg) := do
  assertMaster ctx self
  require (0 < msg.principal) "Bad principal"
  require (PayRewardsTon ≤ ctx.value) "Insufficient TON for payout"
  let total := msg.principal + self.cappedReward msg.reward
  require (total ≤ self.pool_balance) "Insufficient accounting balance"
  .ok ({ self with pool_balance := self.pool_balance - total },
    [payout W ctx self msg.queryId total msg.recipient])

def receiveJettonTransferCommitFailed (ctx : Ctx) (self : StakingPool) (amount : Nat) :
    Tx (StakingPool × List Msg) := do
  require (ctx.sender = jettonRewardsWalletAddr W ctx self) "Only pool JW"
  .ok ({ self with pool_balance := self.pool_balance + amount }, [])

def receive (ctx : Ctx) (self : StakingPool) : Body → Tx (StakingPool × List Msg)
  | .empty => .ok (self, if ctx.sender ≠ self.stakingMaster then [ctx.cashback ctx.sender] else [])
  | .jettonNotification msg => receiveJettonNotification W ctx self msg
  | .wireStakingMaster _ stakingMaster => receiveWireStakingMaster ctx self stakingMaster
  | .relayStakeFeeAccrual queryId feeAmount =>
      receiveRelayStakeFeeAccrual ctx self queryId feeAmount
  | .incrementTotalStake msg => receiveIncrementTotalStake ctx self msg
  | .decrementTotalStake msg => receiveDecrementTotalStake ctx self msg
  | .creditPoolBalance msg => receiveCreditPoolBalance ctx self msg
  | .payRewards msg => receivePayRewards W ctx self msg
  | .payUnstake msg => receivePayUnstake W ctx self msg
  | .jettonTransferCommitFailed _ amount => receiveJettonTransferCommitFailed W ctx self amount
  | _ => .error unknownMessage

/-- A returned payout is put back; other returns are absorbed. -/
def bounced (self : StakingPool) : Body → StakingPool
  | .jettonTransfer msg => { self with pool_balance := self.pool_balance + msg.amount }
  | _ => self

/-- The state a deployment starts in; the master is a placeholder until wired. -/
def prepareInit (bootstrapOwner stakingMaster jettonMinter : Address) : StakingPool :=
  { bootstrapOwner, stakingMaster, jettonMinter, totals := ∅, pool_balance := 0
    master_wired := false }

end StakingPool

end BurnedChats

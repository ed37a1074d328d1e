import BurnedChats.Chain
import BurnedChats.Lib.Network

/-!
# Messages

Every `message` declared by the contracts, field by field, under the source's
names. Unsigned and coin fields are naturals; fields the source leaves as plain
`Int` are integers, since nothing but the handlers' own checks bounds them.

`Body` is what an envelope carries. A body the sender assembled bit by bit, or
passed on without looking inside, is `raw`; a body without bits is `empty`.
-/

namespace BurnedChats

/-! ## Jetton wallet and master -/

structure JettonTransfer where
  queryId : Nat
  amount : Nat
  destination : Address
  responseDestination : Option Address
  customPayload : Option Cell
  forwardTonAmount : Nat
  forwardPayload : Slice

structure JettonTransferInternal where
  queryId : Nat
  amount : Nat
  sender : Address
  responseDestination : Option Address
  forwardTonAmount : Nat
  forwardPayload : Slice

structure JettonNotification where
  queryId : Nat
  amount : Nat
  sender : Address
  forwardPayload : Slice

structure JettonBurn where
  queryId : Nat
  amount : Nat
  responseDestination : Option Address
  customPayload : Option Cell

structure JettonBurnNotification where
  queryId : Nat
  amount : Nat
  sender : Address
  responseDestination : Option Address

structure ProvideWalletAddress where
  queryId : Nat
  ownerAddress : Address
  includeAddress : Bool

structure TakeWalletAddress where
  queryId : Nat
  walletAddress : Option Address
  ownerAddress : Option Cell

structure Mint where
  queryId : Nat
  receiver : Address
  mintMessage : JettonTransferInternal

structure SetFeeParams where
  queryId : Nat
  burn_rate_bps : Int
  staking_rate_bps : Int
  treasury_rate_bps : Int

structure SetFeeDestinations where
  queryId : Nat
  staking_pool : Address
  treasury : Address

structure PropagateFeeConfigToOwner where
  queryId : Nat
  sender_owner : Address
  recipient_owner : Address

structure ResolveJettonTransfer where
  queryId : Nat
  sender_owner : Address
  amount : Nat
  destination : Address
  responseDestination : Option Address
  forwardTonAmount : Nat
  forwardPayload : Cell

structure CommitJettonTransfer where
  queryId : Nat
  amount : Nat
  destination : Address
  responseDestination : Option Address
  forwardTonAmount : Nat
  forwardPayload : Cell
  excludedTransfer : Bool

structure JettonUpdateFeeConfig where
  queryId : Nat
  burn_rate_bps : Int
  staking_rate_bps : Int
  treasury_rate_bps : Int
  staking_pool : Address
  treasury : Address
  dynamic_burn_enabled : Bool
  large_tx_threshold : Nat
  activity_threshold : Int
  max_burn_rate_bps : Int
  tx_count_snapshot : Int
  activity_hour_bucket : Int
  low_supply_mode : Bool
  excluded_count : Int
  excluded_head : Cell
  gas_min_ton_fee_path : Nat
  gas_per_internal_deploy_ton : Nat
  gas_pool_forward_min : Nat
  gas_treasury_forward_min : Nat
  gas_burn_notify_ton : Nat
  gas_propagate_ton : Nat

structure SetDynamicBurnThresholds where
  queryId : Nat
  large_tx_threshold : Nat
  activity_threshold : Int

structure SetAutoReduceParams where
  queryId : Nat
  threshold : Nat
  low_burn_bps : Int
  low_staking_bps : Int
  low_treasury_bps : Int

structure SetGasParams where
  queryId : Nat
  min_ton_fee_path : Nat
  per_internal_deploy_ton : Nat
  gas_pool_forward_min : Nat
  gas_treasury_forward_min : Nat
  gas_burn_notify_ton : Nat
  gas_propagate_ton : Nat

/-! ## Staking -/

structure UnstakeJetton where
  queryId : Nat
  tier : Nat
  amount : Nat

structure ClaimRewards where
  queryId : Nat
  tier : Nat

/-- `IncrementTotalStake` and `DecrementTotalStake`. -/
structure TotalStakeDelta where
  queryId : Nat
  tier : Nat
  delta : Nat

structure PayRewards where
  queryId : Nat
  recipient : Address
  amount : Nat

structure PayUnstake where
  queryId : Nat
  recipient : Address
  principal : Nat
  reward : Nat

structure CreditPoolBalance where
  queryId : Nat
  delta : Nat

structure StakeFeeRewardsAccrue where
  queryId : Nat
  feeAmount : Nat

structure TierConfigSync where
  queryId : Nat
  tier : Nat
  durationSeconds : Nat
  multiplier : Int
  rewardShare : Int

structure SetLockDuration where
  queryId : Nat
  tier : Nat
  duration : Nat

structure SetTierMultiplier where
  queryId : Nat
  tier : Nat
  multiplier : Int

structure SetTierRewardShare where
  queryId : Nat
  tier : Nat
  share : Int

structure SetAllTierRewardShares where
  queryId : Nat
  share0 : Int
  share1 : Int
  share2 : Int
  share3 : Int

/-! ## Governance -/

structure ProposalConfig where
  quorumPercent : Int
  thresholdPercent : Int
  period : Nat
  timelockDelay : Nat

structure TimelockSetProposalConfig where
  queryId : Nat
  proposalType : Nat
  config : ProposalConfig

structure CreateProposal where
  queryId : Nat
  proposalType : Nat
  payload : Cell
  claimedVp : Int

structure RequestTotalVpSnapshot where
  queryId : Nat
  proposalId : Nat
  proposer : Address
  proposalType : Nat
  payload : Cell
  period : Nat
  quorumPercent : Nat
  thresholdBps : Nat
  timelockDelay : Nat

structure TotalVpSnapshotReply extends RequestTotalVpSnapshot where
  totalVp : Int
  proposerVp : Int

structure CastVote where
  queryId : Nat
  proposalId : Nat
  support : Bool
  claimedVp : Int

structure GovernorVoteRelay where
  queryId : Nat
  proposal : Address
  voter : Address
  support : Bool
  claimedVp : Int
  voteEndTime : Nat

structure ProposalStateReportToGovernor where
  proposalId : Nat
  newState : Nat
  queueDelay : Nat
  queueTarget : Address
  queueMethod : Nat
  queueArgs : Cell
  queueActive : Bool

structure TimelockQueue where
  queryId : Nat
  proposalId : Nat
  proposalContract : Address
  target : Address
  method : Nat
  args : Cell
  delay : Nat

structure ProposalVoteRelay where
  voter : Address
  support : Bool
  vp : Int

/-! ## Bodies -/

inductive Body where
  | empty
  | raw (c : Cell)
  -- jetton
  | jettonUpdateContent (queryId : Nat) (content : Cell)
  | jettonTransfer (m : JettonTransfer)
  | jettonTransferInternal (m : JettonTransferInternal)
  | jettonNotification (m : JettonNotification)
  | jettonBurn (m : JettonBurn)
  | jettonBurnNotification (m : JettonBurnNotification)
  | jettonExcesses (queryId : Nat)
  | provideWalletAddress (m : ProvideWalletAddress)
  | takeWalletAddress (m : TakeWalletAddress)
  | mint (m : Mint)
  | closeMint (queryId : Nat)
  | changeOwner (queryId : Nat) (newOwner : Address)
  | setTimelock (queryId : Nat) (newTimelock : Address)
  | setFeeParams (m : SetFeeParams)
  | setFeeDestinations (m : SetFeeDestinations)
  | syncFeeConfigToWallet (queryId : Nat) (owner : Address)
  | propagateFeeConfigToOwner (m : PropagateFeeConfigToOwner)
  | resolveJettonTransfer (m : ResolveJettonTransfer)
  | commitJettonTransfer (m : CommitJettonTransfer)
  | jettonTransferCommitFailed (queryId : Nat) (amount : Nat)
  | jettonUpdateFeeConfig (m : JettonUpdateFeeConfig)
  | addExcluded (queryId : Nat) (address : Address)
  | removeExcluded (queryId : Nat) (address : Address)
  | setDynamicBurnEnabled (queryId : Nat) (enabled : Bool)
  | setDynamicBurnThresholds (m : SetDynamicBurnThresholds)
  | setAutoReduceParams (m : SetAutoReduceParams)
  | setGasParams (m : SetGasParams)
  -- staking
  | unstakeJetton (m : UnstakeJetton)
  | claimRewards (m : ClaimRewards)
  | setMasterJettonWallet (queryId : Nat) (wallet : Address)
  | setGovernor (queryId : Nat) (governor : Address)
  | emissionReserveFunded (queryId : Nat) (amount : Nat)
  | incrementTotalStake (m : TotalStakeDelta)
  | decrementTotalStake (m : TotalStakeDelta)
  | payRewards (m : PayRewards)
  | payUnstake (m : PayUnstake)
  | creditPoolBalance (m : CreditPoolBalance)
  | wireStakingMaster (queryId : Nat) (stakingMaster : Address)
  | relayStakeFeeAccrual (queryId : Nat) (feeAmount : Nat)
  | stakeFeeRewardsAccrue (m : StakeFeeRewardsAccrue)
  | tierConfigSync (m : TierConfigSync)
  | setLockDuration (m : SetLockDuration)
  | setTierMultiplier (m : SetTierMultiplier)
  | setTierRewardShare (m : SetTierRewardShare)
  | setAllTierRewardShares (m : SetAllTierRewardShares)
  | setStakingMasterForPush (queryId : Nat) (stakingMaster : Address)
  | pushAllTierConfigs (queryId : Nat)
  -- governance
  | timelockSetProposalConfig (m : TimelockSetProposalConfig)
  | createProposal (m : CreateProposal)
  | requestTotalVpSnapshot (m : RequestTotalVpSnapshot)
  | totalVpSnapshotReply (m : TotalVpSnapshotReply)
  | castVote (m : CastVote)
  | governorVoteRelay (m : GovernorVoteRelay)
  | executeProposal (queryId : Nat) (proposalId : Nat)
  | proposalStateReportToGovernor (m : ProposalStateReportToGovernor)
  | timelockQueue (m : TimelockQueue)
  | timelockExecutePending (queryId : Nat) (proposalId : Nat)
  | timelockCancel (queryId : Nat) (proposalId : Nat)
  | proposalMarkExecuted (queryId : Nat)
  | proposalVoteRelay (m : ProposalVoteRelay)
  | proposalFinalize
  | proposalExecute
  | proposalCancel
  -- vesting
  | vestRelease (queryId : Nat)

/-- An envelope of this network. -/
abbrev Msg := Network.Envelope Address Body

/-- The context in which an envelope is executed. -/
def Ctx.of (g : Gas) (now : Nat) (m : Msg) : Ctx :=
  { g with myAddress := m.dst, sender := m.src, value := m.value, now := now }

namespace Ctx

variable (ctx : Ctx)

/-- A send with an explicit value. -/
def message (dst : Address) (value : Nat) (bounce : Bool) (body : Body) : Msg :=
  { src := ctx.myAddress, dst, value, bounce, bounced := false, deploy := false, body }

/-- A send that also carries the recipient's initial state. -/
def deploy (dst : Address) (value : Nat) (bounce : Bool) (body : Body) : Msg :=
  { ctx.message dst value bounce body with deploy := true }

/-- Returns the remaining value without a body; such a message never bounces. -/
def cashback (dst : Address) : Msg := ctx.message dst ctx.remaining false .empty

end Ctx

/-- The message of a throw on an opcode the contract does not receive. -/
def unknownMessage : String := "Invalid incoming message"

end BurnedChats

import BurnedChats.Jetton.Wallet

/-!
# The jetton master

`BurnJettonMaster` (`burn-jetton-master.tact`): the total supply, the fee and gas
configuration governed by the timelock, and the live resolution of transfers that
a wallet does not want to decide on its own snapshot.
-/

namespace BurnedChats

def BURN_MAX_SUPPLY_NANO : Nat := 1000 * 10 ^ 9
def provideAddressGasConsumption : Nat := milliTon 10

structure EffectiveFeeParams where
  burnBps : Int
  stakingBps : Int
  treasuryBps : Int

structure BurnJettonMaster where
  totalSupply : Int
  admin : Address
  timelock : Address
  content : Cell
  mintable : Bool
  burnRateBps : Int
  stakingRateBps : Int
  treasuryRateBps : Int
  stakingPoolOwner : Address
  treasuryOwner : Address
  feeDestinationsActive : Bool
  excludedHead : Cell
  excludedCount : Int
  dynamicBurnEnabled : Bool
  largeTxThreshold : Nat
  activityThreshold : Int
  maxBurnRateBps : Int
  txCountLastHour : Int
  activityHourBucket : Int
  autoReduceThreshold : Nat
  lowBurnBps : Int
  lowStakingBps : Int
  lowTreasuryBps : Int
  gas : GasParamsView

namespace BurnJettonMaster

variable (W : WalletBook)

def receiveProvideWalletAddress (ctx : Ctx) (self : BurnJettonMaster)
    (msg : ProvideWalletAddress) : Tx (BurnJettonMaster × List Msg) := do
  require (ctx.fwdFee + provideAddressGasConsumption < ctx.value)
    "Insufficient gas for wallet discovery"
  let walletAddress :=
    match msg.ownerAddress.workchain with
    | .basechain => some (W.addr msg.ownerAddress ctx.myAddress)
    | .masterchain => none
  let ownerAddress :=
    if msg.includeAddress then some (Slice.empty.storeAddress msg.ownerAddress).endCell else none
  .ok (self, [ctx.message ctx.sender ctx.remaining true
    (.takeWalletAddress { queryId := msg.queryId, walletAddress, ownerAddress })])

def receiveMint (ctx : Ctx) (self : BurnJettonMaster) (msg : Mint) :
    Tx (BurnJettonMaster × List Msg) := do
  require (ctx.sender = self.admin) "Incorrect sender"
  require (self.mintable = true) "Mint is closed"
  require (self.totalSupply + msg.mintMessage.amount ≤ BURN_MAX_SUPPLY_NANO) "Mint cap exceeded"
  checkEitherForwardPayload msg.mintMessage.forwardPayload
  require (minTonsForStorage + msg.mintMessage.forwardTonAmount + ctx.fwdFee + ctx.deployFee
    + 2 * ctx.computeFee < ctx.value) "Insufficient gas for mint"
  .ok ({ self with totalSupply := self.totalSupply + msg.mintMessage.amount },
    [ctx.deploy (W.addr msg.receiver ctx.myAddress) ctx.remaining true
      (.jettonTransferInternal msg.mintMessage)])

def receiveBurnNotification (ctx : Ctx) (self : BurnJettonMaster)
    (msg : JettonBurnNotification) : Tx (BurnJettonMaster × List Msg) := do
  require (ctx.sender = W.addr msg.sender ctx.myAddress) "Unauthorized burn"
  let hour : Int := ctx.now / 3600
  let count := if hour ≠ self.activityHourBucket then 0 else self.txCountLastHour
  .ok ({ self with
      activityHourBucket := hour
      txCountLastHour := count + 1
      totalSupply := self.totalSupply - msg.amount },
    match msg.responseDestination with
    | some r => [ctx.message r ctx.remaining false (.jettonExcesses msg.queryId)]
    | none => [])

/-- The rates in force: the low-supply ones below the threshold. -/
def lowSupply (self : BurnJettonMaster) : Bool :=
  decide (self.totalSupply < self.autoReduceThreshold)

def feeConfigMessage (self : BurnJettonMaster) (queryId : Nat) : JettonUpdateFeeConfig :=
  let low := self.lowSupply
  { queryId
    burn_rate_bps := if low then self.lowBurnBps else self.burnRateBps
    staking_rate_bps := if low then self.lowStakingBps else self.stakingRateBps
    treasury_rate_bps := if low then self.lowTreasuryBps else self.treasuryRateBps
    staking_pool := self.stakingPoolOwner
    treasury := self.treasuryOwner
    dynamic_burn_enabled := self.dynamicBurnEnabled
    large_tx_threshold := self.largeTxThreshold
    activity_threshold := self.activityThreshold
    max_burn_rate_bps := self.maxBurnRateBps
    tx_count_snapshot := self.txCountLastHour
    activity_hour_bucket := self.activityHourBucket
    low_supply_mode := low
    excluded_count := self.excludedCount
    excluded_head := self.excludedHead
    gas_min_ton_fee_path := self.gas.minTonFeePath
    gas_per_internal_deploy_ton := self.gas.perInternalDeployTon
    gas_pool_forward_min := self.gas.poolForwardMin
    gas_treasury_forward_min := self.gas.treasuryForwardMin
    gas_burn_notify_ton := self.gas.burnNotifyTon
    gas_propagate_ton := self.gas.propagateTon }

def pushFeeConfigToOwner (ctx : Ctx) (self : BurnJettonMaster) (queryId : Nat)
    (owner : Address) : Msg :=
  ctx.deploy (W.addr owner ctx.myAddress) ctx.remaining false
    (.jettonUpdateFeeConfig (self.feeConfigMessage queryId))

def receiveSync (ctx : Ctx) (self : BurnJettonMaster) (queryId : Nat) (owner : Address) :
    Tx (BurnJettonMaster × List Msg) := do
  require (ctx.sender = self.timelock) "Only timelock"
  require (self.feeDestinationsActive = true) "Fee destinations not configured on master"
  require (milliTon 30 < ctx.value) "Insufficient TON for sync"
  .ok (self, [pushFeeConfigToOwner W ctx self queryId owner])

def receivePropagate (ctx : Ctx) (self : BurnJettonMaster) (msg : PropagateFeeConfigToOwner) :
    Tx (BurnJettonMaster × List Msg) := do
  require (self.feeDestinationsActive = true) "Fee destinations not configured on master"
  require (W.addr msg.sender_owner ctx.myAddress = ctx.sender) "Unauthorized jetton wallet"
  .ok (self, [pushFeeConfigToOwner W ctx self msg.queryId msg.recipient_owner])

def cfgPushTon : Nat := milliTon 40

def receiveResolve (ctx : Ctx) (self : BurnJettonMaster) (msg : ResolveJettonTransfer) :
    Tx (BurnJettonMaster × List Msg) := do
  require (self.feeDestinationsActive = true) "Fee destinations not configured on master"
  require (W.addr msg.sender_owner ctx.myAddress = ctx.sender) "Unauthorized jetton wallet"
  let senderExcluded ← isInExcludedChain msg.sender_owner self.excludedHead
  let excludedTransfer ←
    (if senderExcluded then .ok true else isInExcludedChain msg.destination self.excludedHead)
  require (cfgPushTon + milliTon 50 < ctx.value) "Insufficient TON for resolve"
  let wallet := W.addr msg.sender_owner ctx.myAddress
  .ok (self,
    [ctx.message wallet cfgPushTon false
      (.jettonUpdateFeeConfig (self.feeConfigMessage msg.queryId)),
     ctx.message wallet ctx.remaining true
      (.commitJettonTransfer
        { queryId := msg.queryId, amount := msg.amount, destination := msg.destination,
          responseDestination := msg.responseDestination,
          forwardTonAmount := msg.forwardTonAmount, forwardPayload := msg.forwardPayload,
          excludedTransfer })])

def onlyTimelock (ctx : Ctx) (self : BurnJettonMaster) : Tx Unit :=
  require (ctx.sender = self.timelock) "Only timelock"

/-- The setters of the timelock. -/
def receiveTimelock (ctx : Ctx) (self : BurnJettonMaster) : Body → Tx BurnJettonMaster
  | .setFeeParams msg => do
      onlyTimelock ctx self
      require (0 ≤ msg.burn_rate_bps ∧ 0 ≤ msg.staking_rate_bps ∧ 0 ≤ msg.treasury_rate_bps
        ∧ msg.burn_rate_bps + msg.staking_rate_bps + msg.treasury_rate_bps ≤ MAX_TOTAL_FEE_BPS)
        "Invalid fee bps"
      .ok { self with
        burnRateBps := msg.burn_rate_bps
        stakingRateBps := msg.staking_rate_bps
        treasuryRateBps := msg.treasury_rate_bps }
  | .setFeeDestinations msg => do
      onlyTimelock ctx self
      .ok { self with
        stakingPoolOwner := msg.staking_pool
        treasuryOwner := msg.treasury
        feeDestinationsActive := true }
  | .addExcluded _ address => do
      onlyTimelock ctx self
      if ← isInExcludedChain address self.excludedHead then .ok self
      else do
        require (self.excludedCount < MAX_EXCLUDED_ADDRESSES) "Max excluded"
        .ok { self with
          excludedHead := excludedChainPrepend self.excludedHead address
          excludedCount := self.excludedCount + 1 }
  | .removeExcluded _ address => do
      onlyTimelock ctx self
      if ← isInExcludedChain address self.excludedHead then do
        let head ← excludedChainRemove address self.excludedHead
        .ok { self with excludedHead := head, excludedCount := self.excludedCount - 1 }
      else .ok self
  | .setDynamicBurnEnabled _ enabled => do
      onlyTimelock ctx self
      .ok { self with dynamicBurnEnabled := enabled }
  | .setDynamicBurnThresholds msg => do
      onlyTimelock ctx self
      .ok { self with
        largeTxThreshold := msg.large_tx_threshold
        activityThreshold := msg.activity_threshold }
  | .setAutoReduceParams msg => do
      onlyTimelock ctx self
      require (0 ≤ msg.low_burn_bps ∧ 0 ≤ msg.low_staking_bps ∧ 0 ≤ msg.low_treasury_bps
        ∧ msg.low_burn_bps + msg.low_staking_bps + msg.low_treasury_bps ≤ MAX_TOTAL_FEE_BPS)
        "Invalid low fee bps"
      .ok { self with
        autoReduceThreshold := msg.threshold
        lowBurnBps := msg.low_burn_bps
        lowStakingBps := msg.low_staking_bps
        lowTreasuryBps := msg.low_treasury_bps }
  | .setTimelock _ newTimelock => do
      onlyTimelock ctx self
      .ok { self with timelock := newTimelock }
  | .setGasParams msg => do
      onlyTimelock ctx self
      let gas : GasParamsView :=
        { minTonFeePath := msg.min_ton_fee_path
          perInternalDeployTon := msg.per_internal_deploy_ton
          poolForwardMin := msg.gas_pool_forward_min
          treasuryForwardMin := msg.gas_treasury_forward_min
          burnNotifyTon := msg.gas_burn_notify_ton
          propagateTon := msg.gas_propagate_ton }
      require (isValidGasParams gas) "Invalid gas params"
      .ok { self with gas }
  | _ => .error unknownMessage

def receive (ctx : Ctx) (self : BurnJettonMaster) : Body → Tx (BurnJettonMaster × List Msg)
  | .empty => .ok (self, if ctx.sender ≠ self.timelock then [ctx.cashback ctx.sender] else [])
  | .provideWalletAddress msg => receiveProvideWalletAddress W ctx self msg
  | .mint msg => receiveMint W ctx self msg
  | .closeMint _ => do
      require (ctx.sender = self.admin) "Incorrect sender"
      .ok ({ self with mintable := false }, [])
  | .jettonBurnNotification msg => receiveBurnNotification W ctx self msg
  | .jettonUpdateContent _ content => do
      require (ctx.sender = self.admin) "Incorrect sender"
      .ok ({ self with content }, [])
  | .changeOwner _ newOwner => do
      require (ctx.sender = self.admin) "Incorrect sender"
      .ok ({ self with admin := newOwner }, [])
  | .syncFeeConfigToWallet queryId owner => receiveSync W ctx self queryId owner
  | .propagateFeeConfigToOwner msg => receivePropagate W ctx self msg
  | .resolveJettonTransfer msg => receiveResolve W ctx self msg
  | body => do
      let self ← receiveTimelock ctx self body
      .ok (self, [])

/-- A returned mint leaves the supply; a returned commit is only reported to
off-chain observers, anything else is absorbed. -/
def bounced (self : BurnJettonMaster) : Body → BurnJettonMaster
  | .jettonTransferInternal msg => { self with totalSupply := self.totalSupply - msg.amount }
  | _ => self

def get_effective_fee_params (self : BurnJettonMaster) : EffectiveFeeParams :=
  let low := self.lowSupply
  { burnBps := if low then self.lowBurnBps else self.burnRateBps
    stakingBps := if low then self.lowStakingBps else self.stakingRateBps
    treasuryBps := if low then self.lowTreasuryBps else self.treasuryRateBps }

def get_is_excluded (self : BurnJettonMaster) (holder : Address) : Tx Bool :=
  isInExcludedChain holder self.excludedHead

/-- The state the deployment wrapper (`fromInitDeployed`) starts the master in. -/
def fromInitDeployed (admin timelock : Address) (content : Cell) : BurnJettonMaster :=
  { totalSupply := 0, admin, timelock, content, mintable := true
    burnRateBps := 50, stakingRateBps := 30, treasuryRateBps := 20
    stakingPoolOwner := admin, treasuryOwner := admin, feeDestinationsActive := false
    excludedHead := emptyExcludedHead, excludedCount := 0
    dynamicBurnEnabled := false, largeTxThreshold := 10 * 10 ^ 9
    activityThreshold := 100, maxBurnRateBps := 100
    txCountLastHour := 0, activityHourBucket := 0
    autoReduceThreshold := 100 * 10 ^ 9
    lowBurnBps := 10, lowStakingBps := 6, lowTreasuryBps := 4
    gas := defaultGasParams }

end BurnJettonMaster

end BurnedChats

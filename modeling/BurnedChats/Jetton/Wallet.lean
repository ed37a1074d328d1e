import BurnedChats.Jetton.FeeConfig

/-!
# The jetton wallet

`BurnJettonWallet` (`burn-jetton-wallet.tact`): one contract per token owner. An
outgoing transfer either executes at once on the wallet's own fee snapshot, or
takes a detour through the master (`ResolveJettonTransfer`, answered by a fresh
snapshot and `CommitJettonTransfer`) when the exclusion list matters.

Balances are integers here: the source subtracts first and checks afterwards,
and that no accepted execution ends below zero is a theorem about the model,
not a feature of its number type.
-/

namespace BurnedChats

/-! ## Fees -/

structure FeeParts where
  burn : Int
  staking : Int
  treasury : Int
  net : Int

def computeDynamicBurnBps (cfg : DecodedFeeConfig) (amount : Nat) : Int :=
  if cfg.lowSupplyMode || !cfg.dynamicBurnEnabled then cfg.burnBps
  else
    let bps0 : Int := cfg.burnBps
    let bps1 := if cfg.largeTxThreshold < amount then bps0 + 25 else bps0
    let bps2 := if cfg.activityThreshold < cfg.txCountSnapshot then bps1 + 12 else bps1
    let burnCap : Int :=
      min (cfg.maxBurnRateBps : Int) ((MAX_TOTAL_FEE_BPS : Int) - cfg.stakeBps - cfg.treasBps)
    if burnCap < bps2 then burnCap else bps2

def computeFeeParts (amount : Nat) (burnBps stakeBps treasBps : Int) : FeeParts :=
  let b := amount * burnBps / 10000
  let s := amount * stakeBps / 10000
  let t := amount * treasBps / 10000
  { burn := b, staking := s, treasury := t, net := amount - b - s - t }

structure FeeFanoutPlan where
  deliverTon : Nat
  poolFwdTon : Nat
  poolDeliverTon : Nat
  treasFwdTon : Nat
  treasDeliverTon : Nat
  requiredTon : Nat

def computeFeeFanoutPlan (gas : GasParamsView) (forwardTonAmount fwd : Nat) : FeeFanoutPlan :=
  let deliverTon := max gas.perInternalDeployTon
    (forwardTonAmount + fwd + minTonsForStorage + gasDeliverPadTon)
  let poolFwdTon := max gas.poolForwardMin
    (gasPoolToMasterAccrual + fwd + minTonsForStorage + gasPoolForwardEpsilon)
  let poolDeliverTon := poolFwdTon + fwd + minTonsForStorage + gasDeliverPadTon
  let treasFwdTon := gas.treasuryForwardMin
  let treasDeliverTon := treasFwdTon + fwd + minTonsForStorage + gasDeliverPadTon
  { deliverTon, poolFwdTon, poolDeliverTon, treasFwdTon, treasDeliverTon,
    requiredTon := deliverTon + poolDeliverTon + treasDeliverTon + gas.burnNotifyTon
      + 3 * gas.propagateTon }

/-- A leg's amount is written as coins, which throws on a negative number. -/
def coins (x : Int) : Tx Nat := do
  require (0 ≤ x) "Integer out of expected range"
  .ok x.toNat

/-- A forward payload announced as a reference is exactly one bit and one
reference. -/
def checkEitherForwardPayload (forwardPayload : Slice) : Tx Unit := do
  let b ← forwardPayload.preloadUint 1
  if b = 1 then
    require (forwardPayload.refs.length = 1 ∧ forwardPayload.bits.length = 1) "9"
  else .ok ()

/-- The payload without content: a single zero bit. -/
def noForwardPayload : Slice := ⟨[false], []⟩

structure BurnJettonWallet where
  owner : Address
  master : Address
  balance : Int
  feeConfig : Cell

namespace BurnJettonWallet

variable (W : WalletBook)

def receiveUpdateFeeConfig (ctx : Ctx) (self : BurnJettonWallet) (msg : JettonUpdateFeeConfig) :
    Tx (BurnJettonWallet × List Msg) := do
  require (ctx.sender = self.master) "Incorrect sender"
  require (msg.burn_rate_bps + msg.staking_rate_bps + msg.treasury_rate_bps ≤ MAX_TOTAL_FEE_BPS)
    "Invalid fee bps"
  let gas : GasParamsView :=
    { minTonFeePath := msg.gas_min_ton_fee_path
      perInternalDeployTon := msg.gas_per_internal_deploy_ton
      poolForwardMin := msg.gas_pool_forward_min
      treasuryForwardMin := msg.gas_treasury_forward_min
      burnNotifyTon := msg.gas_burn_notify_ton
      propagateTon := msg.gas_propagate_ton }
  require (isValidGasParams gas) "Invalid gas params"
  let ext ← packFeeConfigExtension msg.dynamic_burn_enabled msg.large_tx_threshold
    msg.activity_threshold msg.max_burn_rate_bps msg.tx_count_snapshot msg.activity_hour_bucket
    msg.low_supply_mode msg.excluded_count msg.excluded_head gas
  let feeConfig ← packFeeConfigCell msg.burn_rate_bps msg.staking_rate_bps msg.treasury_rate_bps
    msg.staking_pool msg.treasury ext
  .ok ({ self with feeConfig }, [])

def returnTransferSurplusToOwner (ctx : Ctx) (queryId : Nat)
    (responseDestination : Option Address) (owner : Address) : Msg :=
  ctx.message (responseDestination.getD owner) ctx.remaining false (.jettonExcesses queryId)

def requestRecipientFeeConfigSync (ctx : Ctx) (master : Address) (queryId : Nat)
    (senderOwner recipientOwner : Address) (propagateTon : Nat) : Msg :=
  ctx.message master propagateTon true
    (.propagateFeeConfigToOwner
      { queryId, sender_owner := senderOwner, recipient_owner := recipientOwner })

/-- A fee leg toward a sink wallet; a leg of amount zero is not sent. -/
def feeLeg (ctx : Ctx) (self : BurnJettonWallet) (queryId : Nat) (amount : Int)
    (sink : Address) (responseDestination : Option Address) (deliverTon forwardTon : Nat) :
    Tx (List Msg) :=
  if 0 < amount then do
    let a ← coins amount
    .ok [ctx.message (W.addr sink self.master) deliverTon true
      (.jettonTransferInternal
        { queryId, amount := a, sender := self.owner, responseDestination,
          forwardTonAmount := forwardTon, forwardPayload := noForwardPayload })]
  else .ok []

def burnLeg (ctx : Ctx) (self : BurnJettonWallet) (queryId : Nat) (amount : Int)
    (responseDestination : Option Address) (burnNotifyTon : Nat) : Tx (List Msg) :=
  if 0 < amount then do
    let a ← coins amount
    .ok [ctx.message self.master burnNotifyTon true
      (.jettonBurnNotification
        { queryId, amount := a, sender := self.owner, responseDestination })]
  else .ok []

def executeJettonTransfer (ctx : Ctx) (self : BurnJettonWallet) (queryId amount : Nat)
    (destination : Address) (responseDestination : Option Address) (forwardTonAmount : Nat)
    (forwardPayload : Slice) (excludedTransfer : Bool) : Tx (BurnJettonWallet × List Msg) := do
  let cfg ← decodeFeeConfig self.feeConfig
  require (cfg.active = true) "Fee destinations not configured"
  forceBasechain cfg.poolOwner
  forceBasechain cfg.treasuryOwner
  let plan := computeFeeFanoutPlan cfg.gas forwardTonAmount ctx.fwdFee
  let sync := fun owner => requestRecipientFeeConfigSync ctx self.master queryId self.owner owner
    cfg.gas.propagateTon
  let surplus := returnTransferSurplusToOwner ctx queryId responseDestination self.owner
  if excludedTransfer then
    require (0 ≤ self.balance - amount) "Incorrect balance after send"
    .ok ({ self with balance := self.balance - amount },
      [ctx.deploy (W.addr destination self.master) plan.deliverTon true
        (.jettonTransferInternal
          { queryId, amount, sender := self.owner, responseDestination, forwardTonAmount,
            forwardPayload }),
       sync destination, surplus])
  else
    let burnBps := computeDynamicBurnBps cfg amount
    let parts := computeFeeParts amount burnBps cfg.stakeBps cfg.treasBps
    require (parts.burn + parts.staking + parts.treasury + parts.net = amount)
      "Fee split invariant"
    require (plan.requiredTon ≤ ctx.value) "Insufficient TON for fee fanout"
    require (0 ≤ self.balance - amount) "Incorrect balance after send"
    let net ← coins parts.net
    let staking ← feeLeg W ctx self queryId parts.staking cfg.poolOwner responseDestination
      plan.poolDeliverTon plan.poolFwdTon
    let treasury ← feeLeg W ctx self queryId parts.treasury cfg.treasuryOwner responseDestination
      plan.treasDeliverTon plan.treasFwdTon
    let burn ← burnLeg ctx self queryId parts.burn responseDestination cfg.gas.burnNotifyTon
    .ok ({ self with balance := self.balance - amount },
      [ctx.deploy (W.addr destination self.master) plan.deliverTon true
        (.jettonTransferInternal
          { queryId, amount := net, sender := self.owner, responseDestination, forwardTonAmount,
            forwardPayload })]
      ++ staking ++ treasury ++ burn
      ++ [sync destination, sync cfg.poolOwner, sync cfg.treasuryOwner, surplus])

/-- The sign of a forward amount. -/
def forwards (forwardTonAmount : Nat) : Nat := 1 + if forwardTonAmount = 0 then 0 else 1

def receiveTransfer (ctx : Ctx) (self : BurnJettonWallet) (msg : JettonTransfer) :
    Tx (BurnJettonWallet × List Msg) := do
  forceBasechain msg.destination
  require (ctx.sender = self.owner) "Incorrect sender"
  require (0 < msg.amount) "Amount must be positive"
  let cfg ← decodeFeeConfig self.feeConfig
  require (cfg.active = true) "Fee destinations not configured"
  forceBasechain cfg.poolOwner
  forceBasechain cfg.treasuryOwner
  checkEitherForwardPayload msg.forwardPayload
  let senderExcludedLocal ← isExcludedMember self.owner cfg.excludedHead cfg.excludedCount
  let destExcludedLocal ← isExcludedMember msg.destination cfg.excludedHead cfg.excludedCount
  require (msg.forwardTonAmount + forwards msg.forwardTonAmount * ctx.fwdFee
    + cfg.gas.minTonFeePath < ctx.value) "Insufficient amount of TON attached"
  if senderExcludedLocal || destExcludedLocal
      || decide (minForwardForLiveExcludedCheck ≤ msg.forwardTonAmount) then
    require ((msg.amount : Int) ≤ self.balance) "Incorrect balance after send"
    .ok (self,
      [ctx.message self.master ctx.remaining true
        (.resolveJettonTransfer
          { queryId := msg.queryId, sender_owner := self.owner, amount := msg.amount,
            destination := msg.destination, responseDestination := msg.responseDestination,
            forwardTonAmount := msg.forwardTonAmount,
            forwardPayload := msg.forwardPayload.endCell })])
  else
    executeJettonTransfer W ctx self msg.queryId msg.amount msg.destination
      msg.responseDestination msg.forwardTonAmount msg.forwardPayload false

def reportCommitFailure (ctx : Ctx) (self : BurnJettonWallet) (queryId amount : Nat) : Msg :=
  ctx.message self.owner ctx.remaining false (.jettonTransferCommitFailed queryId amount)

def commitRequiredTon (plan : FeeFanoutPlan) (gas : GasParamsView) (excludedTransfer : Bool) :
    Nat :=
  if excludedTransfer then plan.deliverTon + gas.propagateTon else plan.requiredTon

def receiveCommit (ctx : Ctx) (self : BurnJettonWallet) (msg : CommitJettonTransfer) :
    Tx (BurnJettonWallet × List Msg) := do
  require (ctx.sender = self.master) "Incorrect sender"
  let payload := msg.forwardPayload.beginParse
  checkEitherForwardPayload payload
  if self.balance < msg.amount then
    .ok (self, [reportCommitFailure ctx self msg.queryId msg.amount])
  else do
    let cfg ← decodeFeeConfig self.feeConfig
    let plan := computeFeeFanoutPlan cfg.gas msg.forwardTonAmount ctx.fwdFee
    if ctx.value < commitRequiredTon plan cfg.gas msg.excludedTransfer then
      .ok (self, [reportCommitFailure ctx self msg.queryId msg.amount])
    else
      executeJettonTransfer W ctx self msg.queryId msg.amount msg.destination
        msg.responseDestination msg.forwardTonAmount payload msg.excludedTransfer

/-- Transfer notification to the owner, paid by the forward amount. -/
def notifyOwner (ctx : Ctx) (self : BurnJettonWallet) (msg : JettonTransferInternal) : List Msg :=
  if 0 < msg.forwardTonAmount then
    [ctx.message self.owner msg.forwardTonAmount false
      (.jettonNotification
        { queryId := msg.queryId, amount := msg.amount, sender := msg.sender,
          forwardPayload := msg.forwardPayload })]
  else []

/-- The inbound value left after the notification goes to the response address. -/
def returnExcesses (ctx : Ctx) (msg : JettonTransferInternal) : List Msg :=
  let msgValue : Int :=
    if 0 < msg.forwardTonAmount then ctx.value - (msg.forwardTonAmount + ctx.fwdFee)
    else ctx.value
  match msg.responseDestination with
  | some r =>
      if 0 < msgValue then [ctx.message r ctx.remaining false (.jettonExcesses msg.queryId)]
      else []
  | none => []

def receiveInternal (ctx : Ctx) (self : BurnJettonWallet) (msg : JettonTransferInternal) :
    Tx (BurnJettonWallet × List Msg) := do
  require (W.addr msg.sender self.master = ctx.sender ∨ self.master = ctx.sender)
    "Incorrect sender"
  .ok ({ self with balance := self.balance + msg.amount },
    notifyOwner ctx self msg ++ returnExcesses ctx msg)

def receiveBurn (ctx : Ctx) (self : BurnJettonWallet) (msg : JettonBurn) :
    Tx (BurnJettonWallet × List Msg) := do
  require (ctx.sender = self.owner) "Incorrect sender"
  require (0 ≤ self.balance - msg.amount) "Incorrect balance after send"
  require (ctx.fwdFee + 2 * ctx.computeFee < ctx.value) "Insufficient amount of TON attached"
  .ok ({ self with balance := self.balance - msg.amount },
    [ctx.message self.master ctx.remaining true
      (.jettonBurnNotification
        { queryId := msg.queryId, amount := msg.amount, sender := self.owner,
          responseDestination := msg.responseDestination })])

/-- Returned messages: the two amount-carrying kinds restore the balance, all
others are absorbed. -/
def bounced (self : BurnJettonWallet) : Body → BurnJettonWallet
  | .jettonTransferInternal msg => { self with balance := self.balance + msg.amount }
  | .jettonBurnNotification msg => { self with balance := self.balance + msg.amount }
  | _ => self

def receive (ctx : Ctx) (self : BurnJettonWallet) : Body → Tx (BurnJettonWallet × List Msg)
  | .jettonUpdateFeeConfig msg => receiveUpdateFeeConfig ctx self msg
  | .jettonTransfer msg => receiveTransfer W ctx self msg
  | .commitJettonTransfer msg => receiveCommit W ctx self msg
  | .jettonTransferInternal msg => receiveInternal W ctx self msg
  | .jettonBurn msg => receiveBurn ctx self msg
  | _ => .error unknownMessage

/-- The state a wallet is deployed with. -/
def init (owner master : Address) : BurnJettonWallet :=
  { owner, master, balance := 0, feeConfig := jettonWalletEmptyFeeConfig }

end BurnJettonWallet

end BurnedChats

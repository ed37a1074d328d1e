import BurnedChats.Jetton.Config

/-!
# The TON that the client attaches

The client recommends the TON to attach to a jetton transfer. For a stake
(`estimateStakeTon.ts`) it adds margins to the larger of the wallet's entry gate and the
legs that it expects; for a transfer (`estimateBurnTransferTon.ts`) it takes a constant,
while the gate and the legs grow with the forward amount.

The stake's recommendation is enough for every forward amount and every forward fee that
the wallets' gas parameters provide for (`stake_attach_covers`). A transfer's is enough
for forward amounts up to `forwardLimit` (`recommended_covers_iff`).
-/

namespace BurnedChats

/-- What a wallet asks of the TON attached to a transfer. -/
def EntryGate (g : GasParamsView) (forwardTonAmount fwd value : Nat) : Prop :=
  forwardTonAmount + BurnJettonWallet.forwards forwardTonAmount * fwd + g.minTonFeePath < value

namespace AttachEstimate

def MIN_TON_FEE_PATH_NANO : Nat := milliTon 1000
def PER_INTERNAL_DEPLOY_NANO : Nat := milliTon 550
def BURN_NOTIFY_NANO : Nat := milliTon 60
def PROPAGATE_FEE_CONFIG_NANO : Nat := milliTon 50
def GAS_POOL_FORWARD_MIN_NANO : Nat := milliTon 70
def GAS_TREASURY_FORWARD_MIN_NANO : Nat := milliTon 10
def GAS_POOL_TO_MASTER_ACCRUAL_NANO : Nat := milliTon 60
def MIN_TONS_FOR_STORAGE_NANO : Nat := milliTon 10
def GAS_POOL_FORWARD_EPSILON_NANO : Nat := milliTon 5
def ESTIMATED_FORWARD_FEE_PER_HOP_NANO : Nat := 270000
def INTERNAL_DEPLOY_HEADROOM_NANO : Nat := milliTon 20

def recipientForwardCount (forwardTonAmount : Nat) : Nat := if 0 < forwardTonAmount then 2 else 1

/-- The wallet's entry gate at the estimated forward fee. -/
def gateMinimumNano (minTonPathNano forwardTonAmount : Nat) : Nat :=
  minTonPathNano + forwardTonAmount
    + recipientForwardCount forwardTonAmount * ESTIMATED_FORWARD_FEE_PER_HOP_NANO + 1

def poolLegForwardTon : Nat :=
  max GAS_POOL_FORWARD_MIN_NANO (GAS_POOL_TO_MASTER_ACCRUAL_NANO
    + ESTIMATED_FORWARD_FEE_PER_HOP_NANO + MIN_TONS_FOR_STORAGE_NANO
    + GAS_POOL_FORWARD_EPSILON_NANO)

def poolLegDeliverTon : Nat :=
  poolLegForwardTon + ESTIMATED_FORWARD_FEE_PER_HOP_NANO + MIN_TONS_FOR_STORAGE_NANO
    + INTERNAL_DEPLOY_HEADROOM_NANO

/-! ## Stakes -/

def TREASURY_LEG_FORWARD_NANO : Nat := 1
def LIVE_EXCLUDED_RESOLVE_OVERHEAD_NANO : Nat := milliTon 120
def STAKE_ATTACH_SAFETY_MARGIN_NANO : Nat := milliTon 80
def STAKE_FEE_PATH_FANOUT_MARGIN_NANO : Nat := milliTon 350
def GATE_FORWARD_FEE_HEADROOM_NANO : Nat := milliTon 250

def netLegDeliverTon (forwardTonAmount : Nat) : Nat :=
  max PER_INTERNAL_DEPLOY_NANO (forwardTonAmount + ESTIMATED_FORWARD_FEE_PER_HOP_NANO
    + MIN_TONS_FOR_STORAGE_NANO + INTERNAL_DEPLOY_HEADROOM_NANO)

def treasuryLegDeliverTon : Nat :=
  TREASURY_LEG_FORWARD_NANO + ESTIMATED_FORWARD_FEE_PER_HOP_NANO + MIN_TONS_FOR_STORAGE_NANO
    + INTERNAL_DEPLOY_HEADROOM_NANO

/-- The path of a transfer without fees. -/
structure ExcludedBreakdown where
  netDeployNano : Nat
  propagateNano : Nat
  gateMinimumNano : Nat
  liveResolveOverheadNano : Nat
  safetyMarginNano : Nat
  gateFwdHeadroomNano : Nat
  recommendedAttachNano : Nat

structure FeePathBreakdown where
  netDeployNano : Nat
  poolDeployNano : Nat
  treasuryDeployNano : Nat
  burnNotifyNano : Nat
  propagateNano : Nat
  gateMinimumNano : Nat
  fanoutMarginNano : Nat
  gateFwdHeadroomNano : Nat
  recommendedAttachNano : Nat

structure StakePathTonBreakdown where
  excluded : ExcludedBreakdown
  feePath : FeePathBreakdown

def computeStakePathBreakdown (forwardTonAmount : Nat) : StakePathTonBreakdown :=
  let netDeployNano := netLegDeliverTon forwardTonAmount
  let excludedInternalOut := netDeployNano + PROPAGATE_FEE_CONFIG_NANO
  let excludedGateMin := gateMinimumNano MIN_TON_FEE_PATH_NANO forwardTonAmount
  let excludedRecommended := max excludedInternalOut excludedGateMin
    + LIVE_EXCLUDED_RESOLVE_OVERHEAD_NANO + STAKE_ATTACH_SAFETY_MARGIN_NANO
    + GATE_FORWARD_FEE_HEADROOM_NANO
  let feeInternalOut := netDeployNano + poolLegDeliverTon + treasuryLegDeliverTon
    + BURN_NOTIFY_NANO + PROPAGATE_FEE_CONFIG_NANO
  let feeGateMin := gateMinimumNano MIN_TON_FEE_PATH_NANO forwardTonAmount
  let feeRecommended := max feeInternalOut feeGateMin + STAKE_FEE_PATH_FANOUT_MARGIN_NANO
    + GATE_FORWARD_FEE_HEADROOM_NANO
  { excluded :=
      { netDeployNano
        propagateNano := PROPAGATE_FEE_CONFIG_NANO
        gateMinimumNano := excludedGateMin
        liveResolveOverheadNano := LIVE_EXCLUDED_RESOLVE_OVERHEAD_NANO
        safetyMarginNano := STAKE_ATTACH_SAFETY_MARGIN_NANO
        gateFwdHeadroomNano := GATE_FORWARD_FEE_HEADROOM_NANO
        recommendedAttachNano := excludedRecommended }
    feePath :=
      { netDeployNano
        poolDeployNano := poolLegDeliverTon
        treasuryDeployNano := treasuryLegDeliverTon
        burnNotifyNano := BURN_NOTIFY_NANO
        propagateNano := PROPAGATE_FEE_CONFIG_NANO
        gateMinimumNano := feeGateMin
        fanoutMarginNano := STAKE_FEE_PATH_FANOUT_MARGIN_NANO
        gateFwdHeadroomNano := GATE_FORWARD_FEE_HEADROOM_NANO
        recommendedAttachNano := feeRecommended } }

/-- The entry gate at a forward fee within the ceiling asks for little more than the
client's estimate of it. -/
theorem entryGate_of_margin {forwardTonAmount fwd value : Nat} (hfwd : fwd ≤ GAS_INVARIANT_FWD_CEIL)
    (hvalue : gateMinimumNano MIN_TON_FEE_PATH_NANO forwardTonAmount + 2 * GAS_INVARIANT_FWD_CEIL
      ≤ value) : EntryGate defaultGasParams forwardTonAmount fwd value := by
  have hforwards : BurnJettonWallet.forwards forwardTonAmount * fwd
      ≤ 2 * GAS_INVARIANT_FWD_CEIL := by
    refine Nat.mul_le_mul ?_ hfwd
    unfold BurnJettonWallet.forwards
    split <;> omega
  have hmin : defaultGasParams.minTonFeePath = MIN_TON_FEE_PATH_NANO := rfl
  simp only [EntryGate, gateMinimumNano, hmin] at hvalue ⊢
  omega

/-- The fan-out at a forward fee within the ceiling, with the default parameters. -/
theorem requiredTon_default (forwardTonAmount : Nat) {fwd : Nat}
    (hfwd : fwd ≤ GAS_INVARIANT_FWD_CEIL) :
    (computeFeeFanoutPlan defaultGasParams forwardTonAmount fwd).requiredTon
      ≤ forwardTonAmount + fwd + worstFanout defaultGasParams :=
  requiredTon_le forwardTonAmount (Nat.le_refl _) hfwd

/-- Both attaches pass the entry gate, and that of the fee path pays for the fan-out. -/
theorem stake_attach_covers (forwardTonAmount fwd : Nat) (hfwd : fwd ≤ GAS_INVARIANT_FWD_CEIL) :
    EntryGate defaultGasParams forwardTonAmount fwd
        (computeStakePathBreakdown forwardTonAmount).excluded.recommendedAttachNano
      ∧ EntryGate defaultGasParams forwardTonAmount fwd
        (computeStakePathBreakdown forwardTonAmount).feePath.recommendedAttachNano
      ∧ (computeFeeFanoutPlan defaultGasParams forwardTonAmount fwd).requiredTon
        ≤ (computeStakePathBreakdown forwardTonAmount).feePath.recommendedAttachNano := by
  have hexcluded : gateMinimumNano MIN_TON_FEE_PATH_NANO forwardTonAmount
      + milliTon 450 ≤ (computeStakePathBreakdown forwardTonAmount).excluded.recommendedAttachNano := by
    have := Nat.le_max_right (netLegDeliverTon forwardTonAmount + PROPAGATE_FEE_CONFIG_NANO)
      (gateMinimumNano MIN_TON_FEE_PATH_NANO forwardTonAmount)
    simp only [computeStakePathBreakdown, LIVE_EXCLUDED_RESOLVE_OVERHEAD_NANO,
      STAKE_ATTACH_SAFETY_MARGIN_NANO, GATE_FORWARD_FEE_HEADROOM_NANO, milliTon] at this ⊢
    omega
  have hfeePath : gateMinimumNano MIN_TON_FEE_PATH_NANO forwardTonAmount
      + milliTon 600 ≤ (computeStakePathBreakdown forwardTonAmount).feePath.recommendedAttachNano := by
    have := Nat.le_max_right (netLegDeliverTon forwardTonAmount + poolLegDeliverTon
      + treasuryLegDeliverTon + BURN_NOTIFY_NANO + PROPAGATE_FEE_CONFIG_NANO)
      (gateMinimumNano MIN_TON_FEE_PATH_NANO forwardTonAmount)
    simp only [computeStakePathBreakdown, STAKE_FEE_PATH_FANOUT_MARGIN_NANO,
      GATE_FORWARD_FEE_HEADROOM_NANO, milliTon] at this ⊢
    omega
  have hceil : 2 * GAS_INVARIANT_FWD_CEIL ≤ milliTon 450 := by decide
  have hmargin : milliTon 450 ≤ milliTon 600 := by decide
  refine ⟨entryGate_of_margin hfwd (by omega), entryGate_of_margin hfwd (by omega), ?_⟩
  -- The fan-out beyond the forward amount fits the gate's own minimum and the margins.
  have hworst : GAS_INVARIANT_FWD_CEIL + worstFanout defaultGasParams
      ≤ MIN_TON_FEE_PATH_NANO + milliTon 600 := by decide
  have hrequired := requiredTon_default forwardTonAmount hfwd
  have hgate : MIN_TON_FEE_PATH_NANO + forwardTonAmount
      ≤ gateMinimumNano MIN_TON_FEE_PATH_NANO forwardTonAmount := by
    unfold gateMinimumNano
    omega
  omega

theorem stake_attach_covers_restake :
    milliTon 10 ≤ GAS_INVARIANT_FWD_CEIL
      ∧ EntryGate defaultGasParams (milliTon 3200) (milliTon 10)
        (computeStakePathBreakdown (milliTon 3200)).excluded.recommendedAttachNano :=
  ⟨by decide, (stake_attach_covers (milliTon 3200) (milliTon 10) (by decide)).1⟩

/-! ## Transfers -/

def RECOMMENDED_FEE_PATH_NANO : Nat := milliTon 1500
def RECOMMENDED_FEE_PATH_WARM_NANO : Nat := milliTon 1200
def RECOMMENDED_EXCLUDED_PATH_NANO : Nat := milliTon 1200

structure TransferBreakdown where
  deployLegsNano : Nat
  burnNotifyNano : Nat
  propagateNano : Nat
  forwardNano : Nat

def TransferBreakdown.total (b : TransferBreakdown) : Nat :=
  b.deployLegsNano + b.burnNotifyNano + b.propagateNano + b.forwardNano

structure BurnTransferGasEstimate where
  minimumNano : Nat
  recommendedNano : Nat
  breakdown : TransferBreakdown

/-- Fields that are left out are `none`. -/
structure EstimateBurnTransferTonParams where
  feePath : Bool
  forwardTonAmount : Option Nat
  recipientWalletDeployed : Option Bool
  recipientFeeConfigActive : Option Bool

def treasDeliverNano : Nat :=
  GAS_TREASURY_FORWARD_MIN_NANO + ESTIMATED_FORWARD_FEE_PER_HOP_NANO + MIN_TONS_FOR_STORAGE_NANO
    + milliTon 20

def feePathBreakdown (forwardTonAmount : Nat) (recipientFeeConfigActive : Bool) :
    TransferBreakdown where
  deployLegsNano := PER_INTERNAL_DEPLOY_NANO
  burnNotifyNano := BURN_NOTIFY_NANO
  propagateNano := if recipientFeeConfigActive then 0 else PROPAGATE_FEE_CONFIG_NANO
  forwardNano := forwardTonAmount + poolLegDeliverTon + treasDeliverNano

def excludedPathBreakdown (forwardTonAmount : Nat) : TransferBreakdown where
  deployLegsNano := PER_INTERNAL_DEPLOY_NANO
  burnNotifyNano := 0
  propagateNano := PROPAGATE_FEE_CONFIG_NANO
  forwardNano := forwardTonAmount

def estimateBurnTransferTon (params : EstimateBurnTransferTonParams) : BurnTransferGasEstimate :=
  let forwardTonAmount := params.forwardTonAmount.getD 0
  let warm := params.recipientWalletDeployed == some true
  let skipPropagateEstimate := params.recipientFeeConfigActive == some true
  if params.feePath then
    { minimumNano := gateMinimumNano MIN_TON_FEE_PATH_NANO forwardTonAmount
      recommendedNano := if warm then RECOMMENDED_FEE_PATH_WARM_NANO else RECOMMENDED_FEE_PATH_NANO
      breakdown := feePathBreakdown forwardTonAmount skipPropagateEstimate }
  else
    { minimumNano := gateMinimumNano MIN_TON_FEE_PATH_NANO forwardTonAmount
      recommendedNano := RECOMMENDED_EXCLUDED_PATH_NANO
      breakdown := excludedPathBreakdown forwardTonAmount }

/-- The recommendation covers the entry gate and the legs. -/
def Covers (e : BurnTransferGasEstimate) : Prop :=
  e.minimumNano ≤ e.recommendedNano ∧ e.breakdown.total ≤ e.recommendedNano

/-- The largest forward amount that the recommended constant leaves room for, beside the
entry gate and two forward fees. -/
def forwardLimit (params : EstimateBurnTransferTonParams) : Nat :=
  if params.feePath && params.recipientWalletDeployed != some true then 499459999 else 199459999

/-- The legs never ask for more than the gate. -/
theorem feePathBreakdown_total_le (f : Nat) (active : Bool) :
    (feePathBreakdown f active).total ≤ gateMinimumNano MIN_TON_FEE_PATH_NANO f := by
  have hlegs : PER_INTERNAL_DEPLOY_NANO + BURN_NOTIFY_NANO + PROPAGATE_FEE_CONFIG_NANO
      + poolLegDeliverTon + treasDeliverNano ≤ MIN_TON_FEE_PATH_NANO := by decide
  have hpropagate : (if active then 0 else PROPAGATE_FEE_CONFIG_NANO)
      ≤ PROPAGATE_FEE_CONFIG_NANO := by
    split <;> omega
  simp only [TransferBreakdown.total, feePathBreakdown, gateMinimumNano]
  omega

theorem excludedPathBreakdown_total_le (f : Nat) :
    (excludedPathBreakdown f).total ≤ gateMinimumNano MIN_TON_FEE_PATH_NANO f := by
  have hlegs : PER_INTERNAL_DEPLOY_NANO + PROPAGATE_FEE_CONFIG_NANO ≤ MIN_TON_FEE_PATH_NANO := by
    decide
  simp only [TransferBreakdown.total, excludedPathBreakdown, gateMinimumNano]
  omega

/-- The gate within a recommended constant. -/
theorem gateMinimumNano_le_iff {f recommended : Nat}
    (h : MIN_TON_FEE_PATH_NANO + 2 * ESTIMATED_FORWARD_FEE_PER_HOP_NANO < recommended) :
    gateMinimumNano MIN_TON_FEE_PATH_NANO f ≤ recommended
      ↔ f + (MIN_TON_FEE_PATH_NANO + 2 * ESTIMATED_FORWARD_FEE_PER_HOP_NANO + 1) ≤ recommended := by
  simp only [gateMinimumNano, recipientForwardCount]
  split <;> omega

/-- The recommendation covers the transfer if and only if the forward amount is within the
limit of its path. -/
theorem recommended_covers_iff (params : EstimateBurnTransferTonParams) :
    Covers (estimateBurnTransferTon params)
      ↔ params.forwardTonAmount.getD 0 ≤ forwardLimit params := by
  obtain ⟨feePath, forwardTonAmount, deployed, active⟩ := params
  have hwarm : MIN_TON_FEE_PATH_NANO + 2 * ESTIMATED_FORWARD_FEE_PER_HOP_NANO
      < RECOMMENDED_FEE_PATH_WARM_NANO := by decide
  have hcold : MIN_TON_FEE_PATH_NANO + 2 * ESTIMATED_FORWARD_FEE_PER_HOP_NANO
      < RECOMMENDED_FEE_PATH_NANO := by decide
  have hlimit : 199459999 + (MIN_TON_FEE_PATH_NANO + 2 * ESTIMATED_FORWARD_FEE_PER_HOP_NANO + 1)
      = RECOMMENDED_FEE_PATH_WARM_NANO := by decide
  have hlimit' : 499459999 + (MIN_TON_FEE_PATH_NANO + 2 * ESTIMATED_FORWARD_FEE_PER_HOP_NANO + 1)
      = RECOMMENDED_FEE_PATH_NANO := by decide
  cases feePath with
  | false =>
      have hgate := @gateMinimumNano_le_iff (forwardTonAmount.getD 0) RECOMMENDED_EXCLUDED_PATH_NANO
        hwarm
      have hlegs := excludedPathBreakdown_total_le (forwardTonAmount.getD 0)
      have hsame : RECOMMENDED_EXCLUDED_PATH_NANO = RECOMMENDED_FEE_PATH_WARM_NANO := rfl
      simp only [Covers, estimateBurnTransferTon, forwardLimit, Bool.false_and, Bool.false_eq_true,
        if_false]
      omega
  | true =>
      have hlegs := feePathBreakdown_total_le (forwardTonAmount.getD 0) (active == some true)
      cases hdeployed : deployed == some true with
      | true =>
          have hgate := gateMinimumNano_le_iff (f := forwardTonAmount.getD 0) hwarm
          simp only [Covers, estimateBurnTransferTon, forwardLimit, bne, hdeployed, if_true,
            Bool.not_true, Bool.and_false, Bool.false_eq_true, if_false]
          omega
      | false =>
          have hgate := gateMinimumNano_le_iff (f := forwardTonAmount.getD 0) hcold
          simp only [Covers, estimateBurnTransferTon, forwardLimit, bne, hdeployed, if_true,
            Bool.not_false, Bool.and_true, Bool.false_eq_true, if_false]
          omega

/-- One TON forwarded: the entry gate asks for 2.00054 TON, and 1.5 are recommended. -/
theorem recommendation_falls_short : ¬ ∀ params : EstimateBurnTransferTonParams,
    (estimateBurnTransferTon params).minimumNano
        ≤ (estimateBurnTransferTon params).recommendedNano
      ∧ (estimateBurnTransferTon params).breakdown.total
        ≤ (estimateBurnTransferTon params).recommendedNano := by
  intro h
  have hmin := (h ⟨true, some (milliTon 1000), none, none⟩).1
  revert hmin
  decide

end AttachEstimate

end BurnedChats

import BurnedChats.Messages
import BurnedChats.Lib.Table

/-!
# The staking lock

`StakingLock` (`staking-lock.tact`): the authoritative tier table. The timelock
changes it, and every changed row is pushed to the staking master, one message a
row; the master works on its own copy.

Shares and multipliers arrive as signed integers and are stored after their sign
has been checked, so the table holds naturals.
-/

namespace BurnedChats

structure TierConfig where
  durationSeconds : Nat
  multiplier : Nat
  rewardShare : Nat
  deriving DecidableEq, Repr

abbrev TierTable := Table Nat TierConfig

/-- The four tiers, in the order the contracts' loops visit them. -/
def tiers : List Nat := [0, 1, 2, 3]

def assertTier (tier : Nat) : Tx Unit := require (tier ≤ 3) "Bad tier"

theorem mem_tiers {t : Nat} : t ∈ tiers ↔ t ≤ 3 := by
  simp only [tiers, List.mem_cons, List.not_mem_nil, or_false]
  omega

/-- The tier table of a deployment. -/
def defaultStakingTierConfigs : TierTable :=
  (((∅ : TierTable).insert 0 ⟨0, 100, 5⟩).insert 1 ⟨6 * 30 * 24 * 3600, 150, 10⟩
    |>.insert 2 ⟨365 * 24 * 3600, 200, 25⟩).insert 3 ⟨3 * 365 * 24 * 3600, 300, 60⟩

structure StakingLock where
  timelock : Address
  stakingMaster : Address
  smPushWired : Bool
  configs : TierTable

namespace StakingLock

def GasPushSync : Nat := milliTon 40

def assertTimelock (ctx : Ctx) (self : StakingLock) : Tx Unit :=
  require (ctx.sender = self.timelock) "Only timelock"

def tierCfg (self : StakingLock) (tier : Nat) : Tx TierConfig :=
  match self.configs.lookup tier with
  | some c => .ok c
  | none => .error "Missing tier cfg"

/-- One row for the master; nothing before the push target is wired. -/
def pushTierConfigToMaster (ctx : Ctx) (self : StakingLock) (tier : Nat) : Tx (List Msg) :=
  if self.smPushWired then do
    let cfg ← self.tierCfg tier
    .ok [ctx.message self.stakingMaster GasPushSync true
      (.tierConfigSync
        { queryId := 0, tier, durationSeconds := cfg.durationSeconds
          multiplier := cfg.multiplier, rewardShare := cfg.rewardShare })]
  else .ok []

def pushTiers (ctx : Ctx) (self : StakingLock) : List Nat → Tx (List Msg)
  | [] => .ok []
  | t :: ts => do
      let m ← pushTierConfigToMaster ctx self t
      let ms ← pushTiers ctx self ts
      .ok (m ++ ms)

def receiveSetStakingMasterForPush (ctx : Ctx) (self : StakingLock) (stakingMaster : Address) :
    Tx (StakingLock × List Msg) := do
  require (ctx.sender = self.timelock) "Only timelock"
  require (self.smPushWired = false) "Push already wired"
  forceBasechain stakingMaster
  .ok ({ self with stakingMaster, smPushWired := true }, [ctx.cashback ctx.sender])

def receivePushAllTierConfigs (ctx : Ctx) (self : StakingLock) : Tx (StakingLock × List Msg) := do
  assertTimelock ctx self
  require (self.smPushWired = true) "Push not wired"
  let pushed ← pushTiers ctx self tiers
  .ok (self, pushed ++ [ctx.cashback ctx.sender])

/-- Rewrites the share of one row. -/
def setShare (self : StakingLock) (tier share : Nat) : Tx StakingLock := do
  let cur ← self.tierCfg tier
  .ok { self with configs := self.configs.insert tier { cur with rewardShare := share } }

def receiveSetAllTierRewardShares (ctx : Ctx) (self : StakingLock)
    (msg : SetAllTierRewardShares) : Tx (StakingLock × List Msg) := do
  assertTimelock ctx self
  require (msg.share0 + msg.share1 + msg.share2 + msg.share3 = 100) "Shares must sum to 100"
  require (0 ≤ msg.share0 ∧ msg.share0 ≤ 100) "Bad share"
  require (0 ≤ msg.share1 ∧ msg.share1 ≤ 100) "Bad share"
  require (0 ≤ msg.share2 ∧ msg.share2 ≤ 100) "Bad share"
  require (0 ≤ msg.share3 ∧ msg.share3 ≤ 100) "Bad share"
  let self ← self.setShare 0 msg.share0.toNat
  let self ← self.setShare 1 msg.share1.toNat
  let self ← self.setShare 2 msg.share2.toNat
  let self ← self.setShare 3 msg.share3.toNat
  let pushed ← pushTiers ctx self tiers
  .ok (self, pushed ++ [ctx.cashback ctx.sender])

/-- Stores a changed row and pushes it. -/
def storeRow (ctx : Ctx) (self : StakingLock) (tier : Nat) (cfg : TierConfig) :
    Tx (StakingLock × List Msg) := do
  let self := { self with configs := self.configs.insert tier cfg }
  let pushed ← pushTierConfigToMaster ctx self tier
  .ok (self, pushed ++ [ctx.cashback ctx.sender])

def receiveSetLockDuration (ctx : Ctx) (self : StakingLock) (msg : SetLockDuration) :
    Tx (StakingLock × List Msg) := do
  assertTimelock ctx self
  assertTier msg.tier
  let cur ← self.tierCfg msg.tier
  storeRow ctx self msg.tier { cur with durationSeconds := msg.duration }

def receiveSetTierMultiplier (ctx : Ctx) (self : StakingLock) (msg : SetTierMultiplier) :
    Tx (StakingLock × List Msg) := do
  assertTimelock ctx self
  assertTier msg.tier
  require (0 < msg.multiplier) "Bad multiplier"
  let cur ← self.tierCfg msg.tier
  storeRow ctx self msg.tier { cur with multiplier := msg.multiplier.toNat }

def receiveSetTierRewardShare (ctx : Ctx) (self : StakingLock) (msg : SetTierRewardShare) :
    Tx (StakingLock × List Msg) := do
  assertTimelock ctx self
  assertTier msg.tier
  require (0 ≤ msg.share ∧ msg.share ≤ 100) "Bad share"
  let other := Table.sum (fun k c => if k = msg.tier then 0 else c.rewardShare) self.configs
  require (other + msg.share = 100) "Shares must sum to 100"
  let cur ← self.tierCfg msg.tier
  storeRow ctx self msg.tier { cur with rewardShare := msg.share.toNat }

def receive (ctx : Ctx) (self : StakingLock) : Body → Tx (StakingLock × List Msg)
  | .empty => .ok (self, if ctx.sender ≠ self.stakingMaster then [ctx.cashback ctx.sender] else [])
  | .setStakingMasterForPush _ stakingMaster =>
      receiveSetStakingMasterForPush ctx self stakingMaster
  | .pushAllTierConfigs _ => receivePushAllTierConfigs ctx self
  | .setAllTierRewardShares msg => receiveSetAllTierRewardShares ctx self msg
  | .setLockDuration msg => receiveSetLockDuration ctx self msg
  | .setTierMultiplier msg => receiveSetTierMultiplier ctx self msg
  | .setTierRewardShare msg => receiveSetTierRewardShare ctx self msg
  | _ => .error unknownMessage

/-- The state a deployment starts in; the push target is a placeholder until wired. -/
def prepareInit (timelock : Address) : StakingLock :=
  { timelock, stakingMaster := timelock, smPushWired := false
    configs := defaultStakingTierConfigs }

end StakingLock

end BurnedChats

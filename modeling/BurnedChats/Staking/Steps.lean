import BurnedChats.Staking.Master

/-!
# What the staking master does

One description of every accepted execution of the master (`receive_cases`): a
stake, an unstake, a claim, a fee accrual, a changed tier row, a funding notice,
or something that touches neither positions nor rewards. The claims about the
master are proved case by case over this list; none unfolds a handler again.
-/

namespace BurnedChats

namespace StakingMaster

variable {ctx : Ctx} {s s' : StakingMaster} {out : List Msg}

/-! ## Accruals -/

/-- The share of a tier in percent, as the master has it cached. -/
def cachedShare (s : StakingMaster) (t : Nat) : Nat :=
  ((s.tierConfigs.lookup t).map (·.rewardShare)).getD 0

/-- What an accrual of `fee` applies to tier `t`. -/
def appliedSlice (s : StakingMaster) (fee t : Nat) : Nat :=
  if s.tierTotalStake t = 0 then 0 else fee * s.cachedShare t / 100

/-- By how much it raises the tier's reward per share. -/
def rpsRise (s : StakingMaster) (fee t : Nat) : Nat :=
  s.appliedSlice fee t * RewardScale / s.tierTotalStake t

theorem tierCfg_eq_ok {t : Nat} {cfg : TierConfig} (h : s.tierCfg t = .ok cfg) :
    t ≤ 3 ∧ s.tierConfigs.lookup t = some cfg := by
  simp only [tierCfg, assertTier, bind_eq_ok, require_eq_ok, exists_const] at h
  obtain ⟨ht, h⟩ := h
  split at h
  · rename_i c hc
    obtain rfl := Except.ok.inj h
    exact ⟨ht, hc⟩
  · cases h

theorem accumulate_spec (s : StakingMaster) (fee t : Nat) :
    ∃ r, s.accumulateTierRewardFromStakeFeeSlice t (fee * s.cachedShare t / 100)
        = ({ s with rewardPerShare := r }, s.appliedSlice fee t)
      ∧ ∀ u, (r.lookup u).getD 0
        = s.rewardPerShareForTier u + if u = t then s.rpsRise fee t else 0 := by
  simp only [accumulateTierRewardFromStakeFeeSlice]
  split
  · rename_i h0
    refine ⟨s.rewardPerShare, ?_, fun u => ?_⟩
    · simp [appliedSlice, h0]
    · have : s.rpsRise fee t = 0 := by simp [rpsRise, appliedSlice, h0]
      simp [this, rewardPerShareForTier]
  · split
    · rename_i ht
      refine ⟨s.rewardPerShare, ?_, fun u => ?_⟩
      · simp [appliedSlice, ht]
      · have : s.rpsRise fee t = 0 := by simp [rpsRise, appliedSlice, ht]
        simp [this, rewardPerShareForTier]
    · rename_i ht
      refine ⟨_, by rw [appliedSlice, if_neg ht], fun u => ?_⟩
      rw [Table.lookup_insert_of]
      split
      · rename_i hu
        subst hu
        rw [Option.getD_some, rpsRise, appliedSlice, if_neg ht]
      · rfl

theorem applySlices_spec {fee : Nat} {ts : List Nat} :
    ∀ {s s' : StakingMaster} {d d' : Nat}, ts.Nodup → applySlices fee ts s d = .ok (s', d') →
      ∃ r, s' = { s with rewardPerShare := r }
        ∧ (∀ u, (r.lookup u).getD 0
          = s.rewardPerShareForTier u + if u ∈ ts then s.rpsRise fee u else 0)
        ∧ d' = d + (ts.map (s.appliedSlice fee)).sum := by
  induction ts with
  | nil =>
      intro s s' d d' _ h
      obtain ⟨rfl, rfl⟩ := Prod.mk.inj (Except.ok.inj h)
      exact ⟨s.rewardPerShare, rfl, fun u => by simp [rewardPerShareForTier], by simp⟩
  | cons t ts ih =>
      intro s s' d d' hnd h
      obtain ⟨htn, hnd⟩ := List.nodup_cons.mp hnd
      simp only [applySlices, bind_eq_ok] at h
      obtain ⟨cfg, hcfg, h⟩ := h
      have hshare : cfg.rewardShare = s.cachedShare t := by
        simp [cachedShare, (tierCfg_eq_ok hcfg).2]
      obtain ⟨r, hr, hru⟩ := accumulate_spec s fee t
      rw [hshare, hr] at h
      obtain ⟨r', rfl, hr', rfl⟩ := ih hnd h
      refine ⟨r', rfl, fun u => ?_, ?_⟩
      · rw [hr' u]
        have h1 : StakingMaster.rewardPerShareForTier { s with rewardPerShare := r } u
            = s.rewardPerShareForTier u + if u = t then s.rpsRise fee t else 0 := hru u
        have h2 : StakingMaster.rpsRise { s with rewardPerShare := r } fee u = s.rpsRise fee u := rfl
        rw [h1, h2]
        by_cases hu : u = t
        · subst hu
          simp [htn]
        · simp [hu]
      · have h3 : StakingMaster.appliedSlice { s with rewardPerShare := r } fee
            = s.appliedSlice fee := rfl
        rw [h3, List.map_cons, List.sum_cons]
        omega

/-- An accrual raises the reward per share of each tier by its slice and returns
the sum of the slices; it changes nothing else. -/
theorem applyStakeFeeSlices_spec {fee d : Nat} (h : s.applyStakeFeeSlices fee = .ok (s', d)) :
    0 < fee ∧ ∃ r, s' = { s with rewardPerShare := r }
      ∧ (∀ u, (r.lookup u).getD 0
        = s.rewardPerShareForTier u + if u ∈ tiers then s.rpsRise fee u else 0)
      ∧ d = (tiers.map (s.appliedSlice fee)).sum := by
  simp only [applyStakeFeeSlices, bind_eq_ok, require_eq_ok, exists_const] at h
  obtain ⟨hfee, h⟩ := h
  obtain ⟨r, hs, hr, hd⟩ := applySlices_spec (by decide) h
  exact ⟨hfee, r, hs, hr, by simpa using hd⟩

/-! ## The tick -/

/-- What a tick distributes; nothing when it returns early. -/
def tickFee (ctx : Ctx) (s : StakingMaster) : Nat :=
  if s.emissionStartTime = 0 then 0
  else if (ctx.now : Int) - s.lastEmitTime < EmitMinIntervalSec then 0
  else if s.totalStakedAllTiers ≤ 0 then 0
  else (s.emissionPending ((ctx.now : Int) - s.lastEmitTime)).toNat

/-- What a tick credits to the pool. -/
def tickCredit (ctx : Ctx) (s : StakingMaster) : Nat :=
  (tiers.map (s.appliedSlice (tickFee ctx s))).sum

/-- The emission clock after a tick. -/
def clockAfter (ctx : Ctx) (s : StakingMaster) : Nat × Nat :=
  if s.emissionStartTime = 0 then (ctx.now, ctx.now)
  else if (ctx.now : Int) - s.lastEmitTime < EmitMinIntervalSec then
    (s.emissionStartTime, s.lastEmitTime)
  else (s.emissionStartTime, ctx.now)

theorem appliedSlice_zero (s : StakingMaster) (t : Nat) : s.appliedSlice 0 t = 0 := by
  simp [appliedSlice]

theorem rpsRise_zero (s : StakingMaster) (t : Nat) : s.rpsRise 0 t = 0 := by
  simp [rpsRise, appliedSlice_zero]

/-- A tick accrues `tickFee`, credits the pool what that applied, and moves the
clock. -/
theorem tickEmission_spec (h : tickEmission ctx s = .ok (s', out)) :
    ∃ r, s' = { s with
        rewardPerShare := r
        emissionStartTime := (clockAfter ctx s).1
        lastEmitTime := (clockAfter ctx s).2
        emittedSoFar := s.emittedSoFar + tickCredit ctx s }
      ∧ (∀ u, (r.lookup u).getD 0
        = s.rewardPerShareForTier u + if u ∈ tiers then s.rpsRise (tickFee ctx s) u else 0)
      ∧ out = if 0 < tickCredit ctx s then [s.creditPool ctx 0 (tickCredit ctx s)] else [] := by
  have hquiet : tickFee ctx s = 0 → tickCredit ctx s = 0 ∧ ∀ u,
      (s.rewardPerShare.lookup u).getD 0 = s.rewardPerShareForTier u
        + if u ∈ tiers then s.rpsRise (tickFee ctx s) u else 0 := by
    intro h0
    refine ⟨by simp [tickCredit, tiers, h0, appliedSlice_zero], fun u => ?_⟩
    rw [h0, rpsRise_zero]
    simp [rewardPerShareForTier]
  simp only [tickEmission] at h
  split at h
  · rename_i hst
    obtain ⟨rfl, rfl⟩ := Prod.mk.inj (Except.ok.inj h)
    obtain ⟨h1, h2⟩ := hquiet (by simp [tickFee, hst])
    exact ⟨s.rewardPerShare, by simp [clockAfter, hst, h1], h2, by simp [h1]⟩
  rename_i hst
  split at h
  · rename_i hel
    obtain ⟨rfl, rfl⟩ := Prod.mk.inj (Except.ok.inj h)
    obtain ⟨h1, h2⟩ := hquiet (by simp [tickFee, hst, hel])
    exact ⟨s.rewardPerShare, by simp [clockAfter, hst, hel, h1], h2, by simp [h1]⟩
  rename_i hel
  have hclock : clockAfter ctx s = (s.emissionStartTime, ctx.now) := by
    simp [clockAfter, hst, hel]
  split at h
  · rename_i htot
    obtain ⟨rfl, rfl⟩ := Prod.mk.inj (Except.ok.inj h)
    obtain ⟨h1, h2⟩ := hquiet (by simp [tickFee, hst, hel, htot])
    exact ⟨s.rewardPerShare, by simp [hclock, h1], h2, by simp [h1]⟩
  rename_i htot
  split at h
  · rename_i hp
    obtain ⟨rfl, rfl⟩ := Prod.mk.inj (Except.ok.inj h)
    obtain ⟨h1, h2⟩ := hquiet (by
      rw [tickFee, if_neg hst, if_neg hel, if_neg htot]
      exact Int.toNat_eq_zero.mpr hp)
    exact ⟨s.rewardPerShare, by simp [hclock, h1], h2, by simp [h1]⟩
  · have hfee : tickFee ctx s
        = (s.emissionPending ((ctx.now : Int) - s.lastEmitTime)).toNat := by
      rw [tickFee, if_neg hst, if_neg hel, if_neg htot]
    simp only [bind_eq_ok, Prod.exists] at h
    obtain ⟨s₁, d, happ, h⟩ := h
    rw [← hfee] at happ
    obtain ⟨-, r, rfl, hr, hd⟩ := applyStakeFeeSlices_spec happ
    replace hd : d = tickCredit ctx s := hd
    subst hd
    refine ⟨r, ?_, hr, ?_⟩
    · split at h
      · obtain ⟨rfl, -⟩ := Prod.mk.inj (Except.ok.inj h)
        simp [hclock]
      · rename_i h0
        obtain ⟨rfl, -⟩ := Prod.mk.inj (Except.ok.inj h)
        simp [hclock, show tickCredit ctx s = 0 by omega]
    · split at h
      · rename_i h0
        obtain ⟨-, rfl⟩ := Prod.mk.inj (Except.ok.inj h)
        rw [if_pos h0]
        rfl
      · rename_i h0
        obtain ⟨-, rfl⟩ := Prod.mk.inj (Except.ok.inj h)
        rw [if_neg h0]

/-! ## Every execution -/

/-- The amount of a position, zero when there is none. -/
def held (s : StakingMaster) (t : Nat) (who : Address) : Nat :=
  ((s.stakesMapGet t who).map (·.amount)).getD 0

/-- The state after `info` was stored for `who`, with its debt rebased and the
tier's total set to `total`. -/
def rebased (s : StakingMaster) (t : Nat) (who : Address) (info : StakeInfoView) (total : Nat) :
    StakingMaster :=
  { s with
    stakes := s.stakes.insert (t, who) info
    debts := s.debts.insert (t, who) (info.amount * s.rewardPerShareForTier t / RewardScale)
    totalStakeByTier := s.totalStakeByTier.insert t total }

/-- The state after the position of `who` was closed. -/
def closed (s : StakingMaster) (t : Nat) (who : Address) (total : Nat) : StakingMaster :=
  { s with
    stakes := s.stakes.erase (t, who)
    debts := s.debts.erase (t, who)
    totalStakeByTier := s.totalStakeByTier.insert t total }

/-- The instructions to the pool that concern stakes and payouts. -/
def isOrder : Body → Bool
  | .incrementTotalStake _ => true
  | .decrementTotalStake _ => true
  | .creditPoolBalance _ => true
  | .payRewards _ => true
  | .payUnstake _ => true
  | _ => false

/-- What remains of a position after an unstake. -/
def remainder (s : StakingMaster) (t : Nat) (who : Address) (cur : StakeInfoView) (amount : Nat) :
    StakingMaster :=
  if cur.amount - amount = 0 then s.closed t who (s.tierTotalStake t - amount)
  else s.rebased t who { cur with amount := cur.amount - amount } (s.tierTotalStake t - amount)

/-- The payment of `reward` to `who`, when there is one. -/
def rewardMsgs (ctx : Ctx) (s : StakingMaster) (who : Address) (reward queryId : Nat) : List Msg :=
  if 0 < reward then
    [ctx.message s.pool GasPayRewards true
      (.payRewards { queryId, recipient := who, amount := reward })]
  else []

/-- The tier whose positions an accepted execution touches. -/
def actsOn (ctx : Ctx) (s : StakingMaster) : Body → Option Nat
  | .jettonNotification msg =>
      match stakeVerdict ctx s msg with
      | .ok (.accept tier) => some tier
      | _ => none
  | .unstakeJetton msg => some msg.tier
  | .claimRewards msg => some msg.tier
  | _ => none

/-- Everything an accepted execution of the master can be. -/
inductive Did (ctx : Ctx) (s : StakingMaster) : Body → StakingMaster → List Msg → Prop where
  | stake {msg : JettonNotification} {tier : Nat} {s₁ : StakingMaster} {ticked : List Msg}
      {cfg : TierConfig} {info : StakeInfoView} :
      ctx.sender = s.stakingJettonWallet → stakeVerdict ctx s msg = .ok (.accept tier) →
      tier ≤ 3 → 0 < msg.amount → tickEmission ctx s = .ok (s₁, ticked) →
      s.tierConfigs.lookup tier = some cfg →
      info.amount = s.held tier msg.sender + msg.amount → info.tier = tier →
      info.unlockTime = ctx.now + cfg.durationSeconds →
      Did ctx s (.jettonNotification msg)
        (s₁.rebased tier msg.sender info (s.tierTotalStake tier + msg.amount))
        (ticked ++ rewardMsgs ctx s msg.sender (s₁.calculatePendingRewardFor msg.sender tier)
            msg.queryId ++
          [ctx.message s.pool GasToPool true
             (.incrementTotalStake { queryId := msg.queryId, tier, delta := msg.amount }),
           s.creditPool ctx msg.queryId msg.amount,
           forwardStakeJettonsToPool ctx s msg.amount msg.queryId msg.sender,
           ctx.cashback msg.sender])
  | unstake {msg : UnstakeJetton} {s₁ : StakingMaster} {ticked : List Msg} {cur : StakeInfoView} :
      tickEmission ctx s = .ok (s₁, ticked) → msg.tier ≤ 3 → 0 < msg.amount →
      s.stakesMapGet msg.tier ctx.sender = some cur → msg.amount ≤ cur.amount →
      cur.unlockTime ≤ ctx.now → msg.amount ≤ s.tierTotalStake msg.tier →
      Did ctx s (.unstakeJetton msg) (s₁.remainder msg.tier ctx.sender cur msg.amount)
        (ticked ++
          [ctx.message s.pool GasPayRewards true
             (.payUnstake
               { queryId := msg.queryId, recipient := ctx.sender, principal := msg.amount
                 reward := s₁.calculatePendingRewardFor ctx.sender msg.tier }),
           ctx.message s.pool GasToPool true
             (.decrementTotalStake
               { queryId := msg.queryId, tier := msg.tier, delta := msg.amount }),
           ctx.cashback ctx.sender])
  | claim {msg : ClaimRewards} {s₁ : StakingMaster} {ticked : List Msg} {cur : StakeInfoView} :
      tickEmission ctx s = .ok (s₁, ticked) → msg.tier ≤ 3 →
      s.stakesMapGet msg.tier ctx.sender = some cur →
      0 < s₁.calculatePendingRewardFor ctx.sender msg.tier →
      Did ctx s (.claimRewards msg)
        { s₁ with
          stakes := s₁.stakes.insert (msg.tier, ctx.sender) { cur with lastClaimTime := ctx.now }
          debts := s₁.debts.insert (msg.tier, ctx.sender)
            (cur.amount * s₁.rewardPerShareForTier msg.tier / RewardScale) }
        (ticked ++
          rewardMsgs ctx s ctx.sender (s₁.calculatePendingRewardFor ctx.sender msg.tier)
            msg.queryId ++ [ctx.cashback ctx.sender])
  | accrue {msg : StakeFeeRewardsAccrue} {s' : StakingMaster} {d : Nat} :
      ctx.sender = s.pool → s.applyStakeFeeSlices msg.feeAmount = .ok (s', d) →
      Did ctx s (.stakeFeeRewardsAccrue msg) s' []
  | sync {msg : TierConfigSync} {cfg : TierConfig} :
      ctx.sender = s.stakingLock → cfg.durationSeconds = msg.durationSeconds →
      (cfg.multiplier : Int) = msg.multiplier → (cfg.rewardShare : Int) = msg.rewardShare →
      cfg.rewardShare ≤ 100 → 0 < cfg.multiplier →
      Did ctx s (.tierConfigSync msg)
        { s with tierConfigs := s.tierConfigs.insert msg.tier cfg } []
  | fund {q amount : Nat} : ctx.sender = s.pool →
      Did ctx s (.emissionReserveFunded q amount)
        { s with emissionFunded := min (s.emissionFunded + amount) TotalEmissionNano } []
  | relay {msg : GovernorVoteRelay} {vp : Nat} {eff : Int} : ctx.sender = s.governorAddr →
      s.computeOwnerVotingPowerLockedBeyond msg.voter msg.voteEndTime = .ok vp →
      eff ≤ vp → 0 < eff →
      Did ctx s (.governorVoteRelay msg) s
        [ctx.message msg.proposal ctx.remaining true
          (.proposalVoteRelay { voter := msg.voter, support := msg.support, vp := eff })]
  | snapshot {msg : RequestTotalVpSnapshot} {totalVp proposerVp : Nat} :
      ctx.sender = s.governorAddr → s.computeTotalVotingPower = .ok totalVp →
      Did ctx s (.requestTotalVpSnapshot msg) s
        [ctx.message s.governorAddr ctx.remaining true
          (.totalVpSnapshotReply { msg with totalVp, proposerVp })]
  | quiet {b : Body} {wallet gov : Address} {conf : Bool} {out : List Msg} :
      actsOn ctx s b = none → (∀ msg, b ≠ .stakeFeeRewardsAccrue msg) →
      (gov = s.governorAddr ∨ s.governorAddr = s.bootstrapOwner) →
      (∀ r ∈ out, r.body = .empty ∨ ∃ t, r.body = .jettonTransfer t) →
      Did ctx s b
        { s with stakingJettonWallet := wallet, jwConfigured := conf, governorAddr := gov } out

theorem quiet_self {b : Body} (hb : actsOn ctx s b = none)
    (hf : ∀ msg, b ≠ .stakeFeeRewardsAccrue msg)
    (h : ∀ r ∈ out, r.body = .empty ∨ ∃ t, r.body = .jettonTransfer t) : Did ctx s b s out :=
  @Did.quiet ctx s b s.stakingJettonWallet s.governorAddr s.jwConfigured out hb hf (.inl rfl) h

/-- What the tick leaves alone. -/
theorem tickEmission_frame (h : tickEmission ctx s = .ok (s', out)) :
    s'.pool = s.pool ∧ s'.stakes = s.stakes ∧ s'.debts = s.debts
      ∧ s'.totalStakeByTier = s.totalStakeByTier ∧ s'.tierConfigs = s.tierConfigs
      ∧ s'.stakingJettonWallet = s.stakingJettonWallet ∧ s'.emissionFunded = s.emissionFunded
      ∧ s'.governorAddr = s.governorAddr := by
  obtain ⟨r, rfl, -, -⟩ := tickEmission_spec h
  exact ⟨rfl, rfl, rfl, rfl, rfl, rfl, rfl, rfl⟩

theorem addTierTotalStake_eq_ok {t d : Nat} (h : s.addTierTotalStake t d = .ok s') :
    t ≤ 3 ∧ 0 < d
      ∧ s' = { s with totalStakeByTier := s.totalStakeByTier.insert t (s.tierTotalStake t + d) } := by
  simp only [addTierTotalStake, assertTier, bind_eq_ok, require_eq_ok, exists_const,
    Except.ok.injEq] at h
  obtain ⟨ht, hd, -, rfl⟩ := h
  exact ⟨ht, hd, rfl⟩

theorem subTierTotalStake_eq_ok {t d : Nat} (h : s.subTierTotalStake t d = .ok s') :
    t ≤ 3 ∧ 0 < d ∧ d ≤ s.tierTotalStake t
      ∧ s' = { s with totalStakeByTier := s.totalStakeByTier.insert t (s.tierTotalStake t - d) } := by
  simp only [subTierTotalStake, assertTier, bind_eq_ok, require_eq_ok, exists_const,
    Except.ok.injEq] at h
  obtain ⟨ht, hd, hle, rfl⟩ := h
  exact ⟨ht, hd, hle, rfl⟩

theorem pending_of_no_stake {t : Nat} {who : Address} (h : s.stakesMapGet t who = none) :
    s.calculatePendingRewardFor who t = 0 := by
  simp [calculatePendingRewardFor, h]

/-- A stake enters: merged or fresh, the position holds the old amount plus the
new one, with the debt rebased to it. -/
theorem enterPosition_spec {msg : JettonNotification} {t unlockTime : Nat}
    (h : enterPosition ctx s msg t unlockTime = .ok (s', out)) :
    t ≤ 3 ∧ 0 < msg.amount ∧ ∃ info : StakeInfoView,
      info.amount = s.held t msg.sender + msg.amount ∧ info.tier = t
        ∧ info.unlockTime = unlockTime
        ∧ s' = s.rebased t msg.sender info (s.tierTotalStake t + msg.amount)
        ∧ out = rewardMsgs ctx s msg.sender (s.calculatePendingRewardFor msg.sender t)
          msg.queryId := by
  simp only [enterPosition] at h
  split at h
  · rename_i old hold
    simp only [bind_eq_ok, Except.ok.injEq, Prod.mk.injEq] at h
    obtain ⟨paid, hpaid, s₁, hadd, rfl, rfl⟩ := h
    obtain ⟨ht, hd, rfl⟩ := addTierTotalStake_eq_ok hadd
    refine ⟨ht, hd, _, ?_, rfl, rfl, rfl, ?_⟩
    · simp [held, hold]
    · unfold rewardMsgs
      split at hpaid
      · rename_i hp
        simp only [sendPayRewards, bind_eq_ok, require_eq_ok, exists_const, Except.ok.injEq] at hpaid
        obtain ⟨_, ⟨-, rfl⟩, rfl⟩ := hpaid
        rw [if_pos hp]
      · rename_i hp
        rw [if_neg hp]
        exact (Except.ok.inj hpaid).symm
  · rename_i hold
    simp only [bind_eq_ok, Except.ok.injEq, Prod.mk.injEq] at h
    obtain ⟨s₁, hadd, rfl, rfl⟩ := h
    obtain ⟨ht, hd, rfl⟩ := addTierTotalStake_eq_ok hadd
    refine ⟨ht, hd, _, ?_, rfl, rfl, rfl, ?_⟩
    · simp [held, hold]
    · simp [rewardMsgs, pending_of_no_stake hold]

theorem acceptStake_did {msg : JettonNotification} {t : Nat}
    (hsend : ctx.sender = s.stakingJettonWallet) (hv : stakeVerdict ctx s msg = .ok (.accept t))
    (h : acceptStake ctx s msg t = .ok (s', out)) :
    Did ctx s (.jettonNotification msg) s' out := by
  simp only [acceptStake, bind_eq_ok, Except.ok.injEq, Prod.mk.injEq, Prod.exists] at h
  obtain ⟨s₁, ticked, htick, cfg, hcfg, s₂, paid, hent, rfl, rfl⟩ := h
  obtain ⟨ht, hd, info, hamt, htier, hun, rfl, rfl⟩ := enterPosition_spec hent
  obtain ⟨hp, hst, -, htot, hcf, hjw, -⟩ := tickEmission_frame htick
  have htt : s₁.tierTotalStake t = s.tierTotalStake t := by
    rw [tierTotalStake, tierTotalStake, htot]
  rw [htt]
  have hheld : info.amount = s.held t msg.sender + msg.amount := by
    rw [hamt, held, held, stakesMapGet, stakesMapGet, hst]
  have hcfg' : s.tierConfigs.lookup t = some cfg := hcf ▸ (tierCfg_eq_ok hcfg).2
  have key := Did.stake hsend hv ht hd htick hcfg' hheld htier hun
  simp only [rewardMsgs, creditPool, forwardStakeJettonsToPool, jettonTransferOut] at key ⊢
  have hp' : ∀ tot, (s₁.rebased t msg.sender info tot).pool = s.pool := fun _ => hp
  have hjw' : ∀ tot, (s₁.rebased t msg.sender info tot).stakingJettonWallet
      = s.stakingJettonWallet := fun _ => hjw
  simpa only [hp', hjw', hp] using key

theorem receiveJettonNotification_did {msg : JettonNotification}
    (h : receiveJettonNotification ctx s msg = .ok (s', out)) :
    Did ctx s (.jettonNotification msg) s' out := by
  simp only [receiveJettonNotification, bind_eq_ok, require_eq_ok, exists_const] at h
  obtain ⟨-, hsend, verdict, hv, h⟩ := h
  cases verdict with
  | ignore =>
      obtain ⟨rfl, rfl⟩ := Prod.mk.inj (Except.ok.inj h)
      refine quiet_self (by simp [actsOn, hv]) (by simp) fun r hr => .inl ?_
      obtain rfl := List.mem_singleton.mp hr
      rfl
  | refund =>
      simp only [returnSubMinStakeJettons, bind_eq_ok, Except.ok.injEq, Prod.mk.injEq] at h
      obtain ⟨_, -, rfl, rfl⟩ := h
      refine quiet_self (by simp [actsOn, hv]) (by simp) fun r hr => ?_
      simp only [List.mem_cons, List.not_mem_nil, or_false] at hr
      rcases hr with rfl | rfl
      · exact .inr ⟨_, rfl⟩
      · exact .inl rfl
  | accept t => exact acceptStake_did hsend hv h

theorem receiveUnstakeJetton_did {msg : UnstakeJetton}
    (h : receiveUnstakeJetton ctx s msg = .ok (s', out)) :
    Did ctx s (.unstakeJetton msg) s' out := by
  simp only [receiveUnstakeJetton, assertTier, bind_eq_ok, require_eq_ok, exists_const,
    Prod.exists] at h
  obtain ⟨-, s₁, ticked, htick, ht, hd, h⟩ := h
  split at h
  · cases h
  rename_i cur hcur
  simp only [sendPayUnstake, bind_eq_ok, require_eq_ok, exists_const, Except.ok.injEq,
    Prod.mk.injEq] at h
  obtain ⟨-, hle, hun, _, ⟨-, rfl⟩, s₂, hsub, rfl, rfl⟩ := h
  obtain ⟨-, -, htot, rfl⟩ := subTierTotalStake_eq_ok hsub
  obtain ⟨hp, hst, -, htots, -⟩ := tickEmission_frame htick
  have hstate : { leavePosition s₁ ctx.sender msg.tier cur (cur.amount - msg.amount) with
      totalStakeByTier :=
        (leavePosition s₁ ctx.sender msg.tier cur (cur.amount - msg.amount)).totalStakeByTier.insert
          msg.tier ((leavePosition s₁ ctx.sender msg.tier cur
            (cur.amount - msg.amount)).tierTotalStake msg.tier - msg.amount) }
      = s₁.remainder msg.tier ctx.sender cur msg.amount := by
    unfold remainder leavePosition
    split <;> rfl
  have hpool : (s₁.remainder msg.tier ctx.sender cur msg.amount).pool = s.pool := by
    unfold remainder
    split <;> exact hp
  have htotal : msg.amount ≤ s.tierTotalStake msg.tier := by
    have hsame : s₁.tierTotalStake msg.tier = s.tierTotalStake msg.tier := by
      rw [tierTotalStake, tierTotalStake, htots]
    rw [← hsame]
    refine htot.trans_eq ?_
    unfold leavePosition
    split <;> rfl
  have hcur' : s.stakesMapGet msg.tier ctx.sender = some cur := by
    rw [stakesMapGet, ← hst]
    exact hcur
  have key := Did.unstake htick ht hd hcur' hle hun htotal
  rw [hstate, hpool, hp]
  exact key

theorem receiveClaimRewards_did {msg : ClaimRewards}
    (h : receiveClaimRewards ctx s msg = .ok (s', out)) :
    Did ctx s (.claimRewards msg) s' out := by
  simp only [receiveClaimRewards, assertTier, bind_eq_ok, require_eq_ok, exists_const,
    Prod.exists] at h
  obtain ⟨-, s₁, ticked, htick, ht, h⟩ := h
  split at h
  · cases h
  rename_i cur hcur
  simp only [sendPayRewards, bind_eq_ok, require_eq_ok, exists_const, Except.ok.injEq,
    Prod.mk.injEq] at h
  obtain ⟨-, hpend, _, ⟨-, rfl⟩, rfl, rfl⟩ := h
  obtain ⟨hp, hst, -⟩ := tickEmission_frame htick
  have hcur' : s.stakesMapGet msg.tier ctx.sender = some cur := by
    rw [stakesMapGet, ← hst]
    exact hcur
  have key := Did.claim htick ht hcur' hpend
  rw [rewardMsgs, if_pos hpend, List.append_assoc, ← hp] at key
  exact key

theorem receive_cases {b : Body} (h : s.receive ctx b = .ok (s', out)) : Did ctx s b s' out := by
  have hcash : ∀ a, ∀ r ∈ [ctx.cashback a], r.body = .empty ∨ ∃ t, r.body = .jettonTransfer t := by
    intro a r hr
    obtain rfl := List.mem_singleton.mp hr
    exact .inl rfl
  unfold receive at h
  split at h
  · obtain ⟨rfl, rfl⟩ := Prod.mk.inj (Except.ok.inj h)
    refine quiet_self rfl (by simp) fun r hr => ?_
    split at hr
    · exact hcash _ r hr
    · cases hr
  · obtain ⟨rfl, rfl⟩ := Prod.mk.inj (Except.ok.inj h)
    exact quiet_self rfl (by simp) (hcash _)
  · simp only [receiveSetMasterJettonWallet, bind_eq_ok, Except.ok.injEq, Prod.mk.injEq] at h
    obtain ⟨_, -, _, -, _, -, rfl, rfl⟩ := h
    exact Did.quiet rfl (by simp) (.inl rfl) (hcash _)
  · simp only [receiveSetGovernor, bind_eq_ok, require_eq_ok, exists_const, Except.ok.injEq,
      Prod.mk.injEq] at h
    obtain ⟨-, hgov, _, -, rfl, rfl⟩ := h
    exact @Did.quiet ctx s _ s.stakingJettonWallet _ s.jwConfigured _ rfl (by simp) (.inr hgov) (hcash _)
  · simp only [receiveEmissionReserveFunded, bind_eq_ok, require_eq_ok, exists_const,
      Except.ok.injEq, Prod.mk.injEq] at h
    obtain ⟨hs, -, rfl, rfl⟩ := h
    convert Did.fund hs using 2
    split <;> omega
  · exact receiveJettonNotification_did h
  · exact receiveUnstakeJetton_did h
  · exact receiveClaimRewards_did h
  · simp only [receiveStakeFeeRewardsAccrue, bind_eq_ok, require_eq_ok, exists_const,
      Except.ok.injEq, Prod.mk.injEq, Prod.exists] at h
    obtain ⟨hs, s₁, d, happ, rfl, rfl⟩ := h
    exact Did.accrue hs happ
  · simp only [receiveGovernorVoteRelay, bind_eq_ok, require_eq_ok, exists_const,
      Except.ok.injEq, Prod.mk.injEq] at h
    obtain ⟨hs, -, vp, hvp, heff, rfl, rfl⟩ := h
    refine Did.relay hs hvp ?_ heff
    split <;> omega
  · simp only [receiveTierConfigSync, assertTier, bind_eq_ok, require_eq_ok, exists_const,
      Except.ok.injEq, Prod.mk.injEq] at h
    obtain ⟨hs, -, hmul, ⟨h0, h100⟩, rfl, rfl⟩ := h
    refine Did.sync hs rfl ?_ ?_ ?_ ?_ <;> simp only <;> omega
  · simp only [receiveRequestTotalVpSnapshot, bind_eq_ok, require_eq_ok, exists_const,
      Except.ok.injEq, Prod.mk.injEq] at h
    obtain ⟨hs, totalVp, hvp, proposerVp, -, rfl, rfl⟩ := h
    exact Did.snapshot hs hvp
  · cases h

end StakingMaster

end BurnedChats

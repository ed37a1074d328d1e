import BurnedChats.Lib.Shares
import BurnedChats.Staking.Runs

/-!
# Reward promises

Rewards are shared out per tier by a growing index, so what a tier still owes is
`Shares.owed` at that index. An accrual adds at most its slice; every payout
takes out what it requests; and each time a debt is computed for a new amount at
most one unit of rounding is left behind. Along a run this bounds the requested
and the pending rewards by the accrued ones and the number of such rebasings
(`promises_bounded`).
-/

namespace BurnedChats

open Network

namespace StakingMaster

variable {ctx : Ctx} {s s' s₁ : StakingMaster} {b : Body} {out ticked : List Msg}

/-- What the positions of a tier are owed, times the scale. -/
def owedIn (s : StakingMaster) (t : Nat) : Int :=
  Shares.owed RewardScale (s.rewardPerShareForTier t)
    (fun k (v : StakeInfoView) => if k.1 = t then v.amount else 0)
    (fun k => if k.1 = t then s.debtMapGet t k.2 else 0) s.stakes

/-- The part of it that belongs to one owner. -/
def ownTerm (s : StakingMaster) (t : Nat) (who : Address) : Int :=
  match s.stakesMapGet t who with
  | some cur =>
      Shares.term RewardScale (s.rewardPerShareForTier t) cur.amount (s.debtMapGet t who)
  | none => 0

/-- No debt exceeds what its position has accrued. -/
def DebtsCovered (s : StakingMaster) : Prop :=
  ∀ t who cur, s.stakesMapGet t who = some cur →
    s.debtMapGet t who ≤ cur.amount * s.rewardPerShareForTier t / RewardScale

/-- The sum of the pending rewards of a tier. -/
def pendingIn (s : StakingMaster) (t : Nat) : Nat :=
  Table.sum (fun k _ => if k.1 = t then s.calculatePendingRewardFor k.2 t else 0) s.stakes

theorem RewardScale_pos : 0 < RewardScale := by decide

/-- Without a negative difference the clamp is not taken. -/
theorem pending_eq (hc : s.DebtsCovered) {t : Nat} {who : Address} {cur : StakeInfoView}
    (h : s.stakesMapGet t who = some cur) :
    s.calculatePendingRewardFor who t
      = cur.amount * s.rewardPerShareForTier t / RewardScale - s.debtMapGet t who := by
  have hpend : s.unclampedReward who t cur.amount
      = (cur.amount * s.rewardPerShareForTier t / RewardScale - s.debtMapGet t who : Nat) := by
    have hd := hc t who cur h
    rw [unclampedReward]
    omega
  simp only [calculatePendingRewardFor, h]
  by_cases h0 : cur.amount = 0
  · rw [if_pos h0, h0, Nat.zero_mul, Nat.zero_div, Nat.zero_sub]
  · rw [if_neg h0, hpend, if_neg (by omega), Int.toNat_natCast]

theorem ownTerm_eq (hc : s.DebtsCovered) {t : Nat} {who : Address} {cur : StakeInfoView}
    (h : s.stakesMapGet t who = some cur) :
    s.ownTerm t who = (RewardScale * s.calculatePendingRewardFor who t : Nat)
      + (cur.amount * s.rewardPerShareForTier t % RewardScale : Nat) := by
  rw [pending_eq hc h, ownTerm, h]
  exact Shares.term_eq_pending (hc t who cur h)

theorem pending_le_ownTerm (hc : s.DebtsCovered) (t : Nat) (who : Address) :
    ((RewardScale * s.calculatePendingRewardFor who t : Nat) : Int) ≤ s.ownTerm t who := by
  cases h : s.stakesMapGet t who with
  | none =>
      rw [pending_of_no_stake h, ownTerm, h]
      simp
  | some cur =>
      rw [ownTerm_eq hc h]
      omega

theorem at?_ownTerm (s : StakingMaster) (t u : Nat) (who : Address) :
    Table.at? (fun k (v : StakeInfoView) => Shares.term RewardScale (s.rewardPerShareForTier u)
        (if k.1 = u then v.amount else 0) (if k.1 = u then s.debtMapGet u k.2 else 0))
      (t, who) s.stakes = if t = u then s.ownTerm u who else 0 := by
  unfold Table.at? ownTerm stakesMapGet
  by_cases h : t = u
  · subst h
    simp only [if_true]
    cases s.stakes.lookup (t, who) <;> rfl
  · simp only [if_neg h]
    cases s.stakes.lookup (t, who) with
    | none => rfl
    | some v => simp [Shares.term]

/-- All that is pending is owed. -/
theorem pendingIn_le (hc : s.DebtsCovered) (t : Nat) :
    ((RewardScale * s.pendingIn t : Nat) : Int) ≤ s.owedIn t := by
  have key : ∀ l : List (Sigma fun _ : Nat × Address => StakeInfoView),
      (∀ e ∈ l, s.stakes.lookup e.1 = some e.2) →
      ((RewardScale * (l.map fun e =>
          if e.1.1 = t then s.calculatePendingRewardFor e.1.2 t else 0).sum : Nat) : Int)
        ≤ (l.map fun e => Shares.term RewardScale (s.rewardPerShareForTier t)
          (if e.1.1 = t then e.2.amount else 0)
          (if e.1.1 = t then s.debtMapGet t e.1.2 else 0)).sum := by
    intro l
    induction l with
    | nil => simp
    | cons e l ih =>
        intro h
        have hrest := ih fun e' he' => h e' (List.mem_cons_of_mem _ he')
        have hown := pending_le_ownTerm hc t e.1.2
        have hat := at?_ownTerm s e.1.1 t e.1.2
        rw [Table.at?_some (h e (List.mem_cons_self ..))] at hat
        simp only [List.map_cons, List.sum_cons, Nat.mul_add, Nat.cast_add]
        rw [hat]
        by_cases ht : e.1.1 = t
        · simp only [ht, if_true] at *
          omega
        · simp only [ht, if_false] at *
          omega
  exact key s.stakes.entries fun e he => Table.mem_entries_iff.mp he

/-! ## Accruals -/

/-- An accrual on `fee` happened between `s` and `s₁`, and nothing else that
matters for rewards. -/
structure Accrued (s s₁ : StakingMaster) (fee : Nat) : Prop where
  stakes : s₁.stakes = s.stakes
  debts : s₁.debts = s.debts
  totals : s₁.totalStakeByTier = s.totalStakeByTier
  rps : ∀ t ≤ 3, s₁.rewardPerShareForTier t = s.rewardPerShareForTier t + s.rpsRise fee t
  mono : ∀ t, s.rewardPerShareForTier t ≤ s₁.rewardPerShareForTier t

theorem accrued_tick (h : tickEmission ctx s = .ok (s₁, ticked)) :
    Accrued s s₁ (tickFee ctx s) := by
  obtain ⟨r, rfl, hr, -⟩ := tickEmission_spec h
  refine ⟨rfl, rfl, rfl, fun t ht => ?_, fun t => ?_⟩
  · rw [rewardPerShareForTier, hr t, if_pos (mem_tiers.mpr ht)]
  · rw [rewardPerShareForTier, rewardPerShareForTier, hr t]
    exact Nat.le_add_right _ _

theorem accrued_slices {fee d : Nat} (h : s.applyStakeFeeSlices fee = .ok (s₁, d)) :
    Accrued s s₁ fee := by
  obtain ⟨-, r, rfl, hr, -⟩ := applyStakeFeeSlices_spec h
  refine ⟨rfl, rfl, rfl, fun t ht => ?_, fun t => ?_⟩
  · rw [rewardPerShareForTier, hr t, if_pos (mem_tiers.mpr ht)]
  · rw [rewardPerShareForTier, rewardPerShareForTier, hr t]
    exact Nat.le_add_right _ _

theorem Accrued.tallied {fee : Nat} (h : Accrued s s₁ fee) (ht : s.Tallied) : s₁.Tallied := by
  intro t
  rw [tierTotalStake, staked, h.totals, h.stakes]
  exact ht t

theorem Accrued.covered {fee : Nat} (h : Accrued s s₁ fee) (hc : s.DebtsCovered) :
    s₁.DebtsCovered := by
  intro t who cur hcur
  rw [stakesMapGet, h.stakes] at hcur
  rw [debtMapGet, h.debts]
  refine (hc t who cur hcur).trans (Nat.div_le_div_right ?_)
  exact Nat.mul_le_mul_left _ (h.mono t)

/-- The positions of a tier gain at most the slice applied to it. -/
theorem Accrued.owed_le {fee t : Nat} (h : Accrued s s₁ fee) (ht : s.Tallied) (h3 : t ≤ 3) :
    s₁.owedIn t ≤ s.owedIn t + (RewardScale * s.appliedSlice fee t : Nat) := by
  have hdebt : (fun k : Nat × Address => if k.1 = t then s₁.debtMapGet t k.2 else 0)
      = fun k => if k.1 = t then s.debtMapGet t k.2 else 0 := by
    funext k
    rw [debtMapGet, h.debts, debtMapGet]
  rw [owedIn, h.stakes, hdebt, h.rps t h3, Shares.owed_rise, owedIn]
  have htot : Table.sum (fun k (v : StakeInfoView) => if k.1 = t then v.amount else 0) s.stakes
      = s.tierTotalStake t := (ht t).symm
  have hle : s.tierTotalStake t * s.rpsRise fee t ≤ RewardScale * s.appliedSlice fee t := by
    rw [rpsRise, Nat.mul_comm, Nat.mul_comm RewardScale]
    exact Nat.div_mul_le_self _ _
  rw [htot]
  omega

theorem Accrued.held {fee : Nat} (h : Accrued s s₁ fee) (t : Nat) (who : Address) :
    s₁.stakesMapGet t who = s.stakesMapGet t who := by
  rw [stakesMapGet, h.stakes, stakesMapGet]

/-! ## Rebasing one position -/

theorem debtMapGet_insert (s : StakingMaster) (t u d : Nat) (who who' : Address) :
    ((s.debts.insert (t, who) d).lookup (u, who')).getD 0
      = if u = t ∧ who' = who then d else s.debtMapGet u who' := by
  rw [Table.lookup_insert_of]
  by_cases h : u = t ∧ who' = who
  · obtain ⟨rfl, rfl⟩ := h
    simp
  · have hne : (u, who') ≠ (t, who) := fun he => h (Prod.mk.inj he)
    rw [if_neg hne, if_neg h, debtMapGet]

/-- A rebased position gives up its old claim and keeps the remainder of the new
debt. -/
theorem owedIn_rebased (s : StakingMaster) (t u : Nat) (who : Address) (info : StakeInfoView)
    (n : Nat) :
    (s.rebased t who info n).owedIn u + (if t = u then s.ownTerm u who else 0)
      = s.owedIn u
        + if t = u then ((info.amount * s.rewardPerShareForTier u % RewardScale : Nat) : Int)
          else 0 := by
  have hother : ∀ k : Nat × Address, k ≠ (t, who) →
      (if k.1 = u then (s.rebased t who info n).debtMapGet u k.2 else 0)
        = if k.1 = u then s.debtMapGet u k.2 else 0 := by
    intro k hk
    by_cases hu : k.1 = u
    · simp only [hu, if_true]
      change ((s.debts.insert (t, who) _).lookup (u, k.2)).getD 0 = _
      rw [debtMapGet_insert, if_neg]
      rintro ⟨rfl, h2⟩
      exact hk (Prod.ext hu h2)
    · simp only [hu, if_false]
  have key := @Shares.owed_insert _ _ _ RewardScale (s.rewardPerShareForTier u)
    (fun k (v : StakeInfoView) => if k.1 = u then v.amount else 0) _ s.stakes _ _ info hother
  rw [at?_ownTerm] at key
  refine key.trans ?_
  rw [owedIn]
  congr 1
  by_cases h : t = u
  · subst h
    simp only [if_true]
    have hd : (s.rebased t who info n).debtMapGet t who
        = info.amount * s.rewardPerShareForTier t / RewardScale := by
      change ((s.debts.insert (t, who) _).lookup (t, who)).getD 0 = _
      rw [debtMapGet_insert, if_pos ⟨rfl, rfl⟩]
    rw [hd]
    exact Shares.term_settled _ _ _
  · simp [h, Shares.term]

theorem owedIn_closed (s : StakingMaster) (t u : Nat) (who : Address) (n : Nat) :
    (s.closed t who n).owedIn u + (if t = u then s.ownTerm u who else 0) = s.owedIn u := by
  have hother : ∀ k : Nat × Address, k ≠ (t, who) →
      (if k.1 = u then (s.closed t who n).debtMapGet u k.2 else 0)
        = if k.1 = u then s.debtMapGet u k.2 else 0 := by
    intro k hk
    by_cases hu : k.1 = u
    · simp only [hu, if_true]
      change ((s.debts.erase (t, who)).lookup (u, k.2)).getD 0 = _
      rw [Table.lookup_erase_of, if_neg, debtMapGet]
      rintro he
      obtain ⟨rfl, h2⟩ := Prod.mk.inj he
      exact hk (Prod.ext hu h2)
    · simp only [hu, if_false]
  have hsplit : s.owedIn u = _ := Shares.owed_split (t, who) s.stakes
  rw [hsplit, at?_ownTerm, ← Shares.owed_erase_congr hother, add_comm]
  rfl

theorem DebtsCovered.rebased (hc : s.DebtsCovered) (t : Nat) (who : Address) (info : StakeInfoView)
    (n : Nat) : (s.rebased t who info n).DebtsCovered := by
  intro u who' cur hcur
  change (s.stakes.insert (t, who) info).lookup (u, who') = some cur at hcur
  change ((s.debts.insert (t, who) _).lookup (u, who')).getD 0
    ≤ cur.amount * s.rewardPerShareForTier u / RewardScale
  rw [debtMapGet_insert]
  rw [Table.lookup_insert_of] at hcur
  by_cases h : u = t ∧ who' = who
  · obtain ⟨rfl, rfl⟩ := h
    rw [if_pos rfl] at hcur
    rw [if_pos ⟨rfl, rfl⟩, ← Option.some.inj hcur]
  · rw [if_neg fun he => h (Prod.mk.inj he)] at hcur
    rw [if_neg h]
    exact hc u who' cur hcur

theorem DebtsCovered.closed (hc : s.DebtsCovered) (t : Nat) (who : Address) (n : Nat) :
    (s.closed t who n).DebtsCovered := by
  intro u who' cur hcur
  change (s.stakes.erase (t, who)).lookup (u, who') = some cur at hcur
  change ((s.debts.erase (t, who)).lookup (u, who')).getD 0
    ≤ cur.amount * s.rewardPerShareForTier u / RewardScale
  rw [Table.lookup_erase_of] at hcur ⊢
  split at hcur
  · cases hcur
  · rename_i h
    rw [if_neg h]
    exact hc u who' cur hcur

/-! ## The log of a run -/

/-- The fee an accepted execution distributes over the tiers. -/
def accrualFee (ctx : Ctx) (s : StakingMaster) (b : Body) : Nat :=
  match b with
  | .stakeFeeRewardsAccrue msg => msg.feeAmount
  | _ => if (actsOn ctx s b).isSome then tickFee ctx s else 0

/-- The reward a message to the pool requests. -/
def rewardOf : Body → Nat
  | .payRewards r => r.amount
  | .payUnstake u => u.reward
  | _ => 0

def rewardsIn (bodies : List Body) : Nat := (bodies.map rewardOf).sum

/-- An execution computed a debt for a new amount: a fresh stake, a merge, or an
unstake that leaves something of the position. -/
def rebases (ctx : Ctx) (s' : StakingMaster) : Body → Bool
  | .jettonNotification _ => true
  | .unstakeJetton msg => (s'.stakesMapGet msg.tier ctx.sender).isSome
  | _ => false

end StakingMaster

open StakingMaster

/-- Tier by tier: the slices applied, the rewards requested from the pool, and
how often a debt was computed for a new amount. -/
structure RewardLog where
  accrued : Nat → Nat
  requested : Nat → Nat
  rebasings : Nat → Nat

namespace RewardLog

def zero : RewardLog := ⟨fun _ => 0, fun _ => 0, fun _ => 0⟩

def entry (ctx : Ctx) (s : StakingMaster) (b : Body) (s' : StakingMaster) (bodies : List Body)
    (l : RewardLog) : RewardLog where
  accrued t := l.accrued t + s.appliedSlice (accrualFee ctx s b) t
  requested t := l.requested t + if actsOn ctx s b = some t then rewardsIn bodies else 0
  rebasings t :=
    l.rebasings t + if actsOn ctx s b = some t ∧ rebases ctx s' b = true then 1 else 0

end RewardLog

namespace StakingMaster

variable {ctx : Ctx} {s s' s₁ : StakingMaster} {b : Body} {out ticked : List Msg} {l : RewardLog}

@[simp] theorem rewardsIn_append (l l' : List Body) :
    rewardsIn (l ++ l') = rewardsIn l + rewardsIn l' := by
  simp [rewardsIn]

theorem rewardsIn_tick (h : tickEmission ctx s = .ok (s₁, ticked)) :
    rewardsIn (ticked.map (·.body)) = 0 := by
  obtain ⟨r, -, -, rfl⟩ := tickEmission_spec h
  split <;> rfl

theorem rewardsIn_rewardMsgs (who : Address) (reward q : Nat) :
    rewardsIn ((rewardMsgs ctx s who reward q).map (·.body)) = reward := by
  unfold rewardMsgs
  split
  · rfl
  · rename_i h
    exact (Nat.eq_zero_of_not_pos h).symm

theorem actsOn_stake {msg : JettonNotification} {t : Nat}
    (h : stakeVerdict ctx s msg = .ok (.accept t)) :
    actsOn ctx s (.jettonNotification msg) = some t := by
  simp [actsOn, h]

/-- What has been requested and what is owed stays below what was accrued and one
unit of rounding, short of the last fraction, for each rebasing. -/
structure Promised (s : StakingMaster) (l : RewardLog) : Prop where
  tallied : s.Tallied
  covered : s.DebtsCovered
  bound : ∀ t ≤ 3, ((RewardScale * l.requested t : Nat) : Int) + s.owedIn t
    ≤ (RewardScale * l.accrued t + (RewardScale - 1) * l.rebasings t : Nat)

/-- The bound across an execution that accrues `fee`, pays `reward` in tier `t`
and rebases a position there `n` times. -/
theorem Promised.advance {l' : RewardLog} {fee u : Nat} (hI : s.Promised l) (t reward n : Nat)
    (ha : Accrued s s₁ fee) (hu : u ≤ 3)
    (howed : s'.owedIn u + (if t = u then ((RewardScale * reward : Nat) : Int) else 0)
      ≤ s₁.owedIn u + if t = u then (((RewardScale - 1) * n : Nat) : Int) else 0)
    (hA : l'.accrued u = l.accrued u + s.appliedSlice fee u)
    (hR : l'.requested u = l.requested u + if t = u then reward else 0)
    (hN : l'.rebasings u = l.rebasings u + if t = u then n else 0) :
    ((RewardScale * l'.requested u : Nat) : Int) + s'.owedIn u
      ≤ (RewardScale * l'.accrued u + (RewardScale - 1) * l'.rebasings u : Nat) := by
  have h1 := hI.bound u hu
  have h2 := ha.owed_le hI.tallied hu
  rw [hA, hR, hN]
  by_cases h : t = u
  · simp only [h, if_true, Nat.mul_add] at howed ⊢
    omega
  · simp only [h, if_false, Nat.mul_add, Nat.add_zero] at howed ⊢
    omega

/-- In whole units: requested and pending rewards are covered. -/
theorem Promised.requested_le (hI : s.Promised l) {t : Nat} (h3 : t ≤ 3) :
    l.requested t + s.pendingIn t ≤ l.accrued t + l.rebasings t := by
  have hbound := hI.bound t h3
  have hpend := pendingIn_le hI.covered t
  have hscaled : RewardScale * (l.requested t + s.pendingIn t)
      ≤ RewardScale * (l.accrued t + l.rebasings t) := by
    have hN : (RewardScale - 1) * l.rebasings t ≤ RewardScale * l.rebasings t :=
      Nat.mul_le_mul_right _ (Nat.sub_le _ _)
    rw [Nat.mul_add, Nat.mul_add]
    omega
  exact Nat.le_of_mul_le_mul_left hscaled RewardScale_pos

theorem mod_scale_le (n : Nat) : n % RewardScale ≤ (RewardScale - 1) * 1 := by
  have := Nat.mod_lt n RewardScale_pos
  omega

/-- A position paid out and stored with a new amount. -/
theorem owed_rebased_le (hc : s.DebtsCovered) (t u : Nat) (who : Address) (info : StakeInfoView)
    (n : Nat) :
    (s.rebased t who info n).owedIn u
        + (if t = u then ((RewardScale * s.calculatePendingRewardFor who t : Nat) : Int) else 0)
      ≤ s.owedIn u + if t = u then (((RewardScale - 1) * 1 : Nat) : Int) else 0 := by
  have h1 := owedIn_rebased s t u who info n
  have h2 := pending_le_ownTerm hc u who
  have h3 := mod_scale_le (info.amount * s.rewardPerShareForTier u)
  by_cases h : t = u
  · subst h
    simp only [if_true] at h1 ⊢
    omega
  · simp only [h, if_false] at h1 ⊢
    omega

theorem owed_closed_le (hc : s.DebtsCovered) (t u : Nat) (who : Address) (n : Nat) :
    (s.closed t who n).owedIn u
        + (if t = u then ((RewardScale * s.calculatePendingRewardFor who t : Nat) : Int) else 0)
      ≤ s.owedIn u + if t = u then (((RewardScale - 1) * 0 : Nat) : Int) else 0 := by
  have h1 := owedIn_closed s t u who n
  have h2 := pending_le_ownTerm hc u who
  by_cases h : t = u
  · subst h
    simp only [if_true, Nat.mul_zero] at h1 ⊢
    omega
  · simp only [h, if_false] at h1 ⊢
    omega

/-- A position paid out and stored with the same amount: no rounding is lost. -/
theorem owed_claimed_le (hc : s.DebtsCovered) {t : Nat} (u : Nat) {who : Address}
    {cur info : StakeInfoView} (hcur : s.stakesMapGet t who = some cur)
    (hinfo : info.amount = cur.amount) (n : Nat) :
    (s.rebased t who info n).owedIn u
        + (if t = u then ((RewardScale * s.calculatePendingRewardFor who t : Nat) : Int) else 0)
      ≤ s.owedIn u + if t = u then (((RewardScale - 1) * 0 : Nat) : Int) else 0 := by
  have h1 := owedIn_rebased s t u who info n
  by_cases h : t = u
  · subst h
    have h2 := ownTerm_eq hc hcur
    rw [hinfo] at h1
    simp only [if_true, Nat.mul_zero] at h1 ⊢
    omega
  · simp only [h, if_false] at h1 ⊢
    omega

/-- Nothing that matters for rewards changed. -/
structure Unrewarded (s s' : StakingMaster) : Prop where
  stakes : s'.stakes = s.stakes
  debts : s'.debts = s.debts
  totals : s'.totalStakeByTier = s.totalStakeByTier
  rps : s'.rewardPerShare = s.rewardPerShare

theorem Promised.idle (hI : s.Promised l) (h : Unrewarded s s') (hb : actsOn ctx s b = none)
    (bodies : List Body) : s'.Promised (RewardLog.entry ctx s b s' bodies l) := by
  refine ⟨fun t => ?_, fun t who cur hcur => ?_, fun t h3 => ?_⟩
  · rw [tierTotalStake, staked, h.totals, h.stakes]
    exact hI.tallied t
  · rw [stakesMapGet, h.stakes] at hcur
    rw [debtMapGet, h.debts, rewardPerShareForTier, h.rps]
    exact hI.covered t who cur hcur
  · have hsame : s'.owedIn t = s.owedIn t := by
      unfold owedIn debtMapGet rewardPerShareForTier
      rw [h.stakes, h.debts, h.rps]
    have hbound := hI.bound t h3
    rw [hsame]
    simp only [RewardLog.entry, hb, reduceCtorEq, false_and, if_false, Nat.add_zero, Nat.mul_add]
    omega

theorem did_promised (h : Did ctx s b s' out) (hI : s.Promised l) :
    s'.Promised (RewardLog.entry ctx s b s' (out.map (·.body)) l) := by
  have htal := (did_orders h hI.tallied).2.1
  cases h with
  | @stake msg tier s₁ ticked cfg info _ hv _ _ htick _ _ _ _ =>
      have ha := accrued_tick htick
      have hc := ha.covered hI.covered
      have hact := actsOn_stake hv
      refine ⟨htal, hc.rebased _ _ _ _, fun u hu => hI.advance tier _ 1 ha hu
        (owed_rebased_le hc tier u msg.sender info _) ?_ ?_ ?_⟩
      · simp [RewardLog.entry, accrualFee, hact]
      · simp only [RewardLog.entry, hact, Option.some.injEq, List.map_append, rewardsIn_append,
          rewardsIn_tick htick, rewardsIn_rewardMsgs, Nat.zero_add]
        rfl
      · simp [RewardLog.entry, hact, rebases]
  | @unstake msg s₁ ticked cur htick _ _ hcur _ _ _ =>
      have ha := accrued_tick htick
      have hc := ha.covered hI.covered
      have hreq : ∀ {m : Msg} {rest : List Msg}, rewardsIn (rest.map (·.body)) = 0 →
          rewardsIn ((ticked ++ m :: rest).map (·.body)) = rewardOf m.body := by
        intro m rest hrest
        simp only [List.map_append, List.map_cons, rewardsIn_append, rewardsIn_tick htick,
          Nat.zero_add]
        simp only [rewardsIn, List.map_cons, List.sum_cons] at hrest ⊢
        omega
      by_cases h0 : cur.amount - msg.amount = 0
      · have hs' : s₁.remainder msg.tier ctx.sender cur msg.amount
            = s₁.closed msg.tier ctx.sender (s₁.tierTotalStake msg.tier - msg.amount) := by
          rw [remainder, if_pos h0]
        rw [hs'] at htal ⊢
        refine ⟨htal, hc.closed _ _ _, fun u hu => hI.advance msg.tier _ 0 ha hu
          (owed_closed_le hc msg.tier u ctx.sender _) rfl ?_ ?_⟩
        · simp only [RewardLog.entry, actsOn, Option.some.injEq]
          rw [hreq rfl]
          rfl
        · have hgone : (s₁.closed msg.tier ctx.sender
              (s₁.tierTotalStake msg.tier - msg.amount)).stakesMapGet msg.tier ctx.sender = none :=
            AList.lookup_erase ..
          simp [RewardLog.entry, rebases, hgone]
      · have hs' : s₁.remainder msg.tier ctx.sender cur msg.amount
            = s₁.rebased msg.tier ctx.sender { cur with amount := cur.amount - msg.amount }
              (s₁.tierTotalStake msg.tier - msg.amount) := by
          rw [remainder, if_neg h0]
        rw [hs'] at htal ⊢
        refine ⟨htal, hc.rebased _ _ _ _, fun u hu => hI.advance msg.tier _ 1 ha hu
          (owed_rebased_le hc msg.tier u ctx.sender _ _) rfl ?_ ?_⟩
        · simp only [RewardLog.entry, actsOn, Option.some.injEq]
          rw [hreq rfl]
          rfl
        · have hthere : (s₁.rebased msg.tier ctx.sender
              { cur with amount := cur.amount - msg.amount }
              (s₁.tierTotalStake msg.tier - msg.amount)).stakesMapGet msg.tier ctx.sender
              = some { cur with amount := cur.amount - msg.amount } := AList.lookup_insert ..
          simp [RewardLog.entry, actsOn, rebases, hthere]
  | @claim msg s₁ ticked cur htick _ hcur _ =>
      have ha := accrued_tick htick
      have hc := ha.covered hI.covered
      have hcur₁ : s₁.stakesMapGet msg.tier ctx.sender = some cur := by
        rw [ha.held]
        exact hcur
      refine ⟨htal, ?_, fun u hu => hI.advance msg.tier _ 0 ha hu
        (owed_claimed_le hc u hcur₁ rfl 0) rfl ?_ ?_⟩
      · exact hc.rebased msg.tier ctx.sender { cur with lastClaimTime := ctx.now } 0
      · simp only [RewardLog.entry, actsOn, Option.some.injEq, List.map_append, rewardsIn_append,
          rewardsIn_tick htick, rewardsIn_rewardMsgs, Nat.zero_add]
        rfl
      · simp [RewardLog.entry, rebases]
  | @accrue msg s₁ d _ happ =>
      have ha := accrued_slices happ
      refine ⟨htal, ha.covered hI.covered, fun u hu => hI.advance 4 0 0
        ha hu ?_ rfl ?_ ?_⟩
      · simp
      · simp [RewardLog.entry, actsOn]
      · simp [RewardLog.entry, actsOn]
  | sync => refine hI.idle (Unrewarded.mk ?_ ?_ ?_ ?_) rfl _ <;> rfl
  | fund => refine hI.idle (Unrewarded.mk ?_ ?_ ?_ ?_) rfl _ <;> rfl
  | relay => refine hI.idle (Unrewarded.mk ?_ ?_ ?_ ?_) rfl _ <;> rfl
  | snapshot => refine hI.idle (Unrewarded.mk ?_ ?_ ?_ ?_) rfl _ <;> rfl
  | quiet hb => refine hI.idle (Unrewarded.mk ?_ ?_ ?_ ?_) hb _ <;> rfl

/-! ## Claiming twice -/

/-- Nothing is pending for the owner in the tier. -/
def Settled (s : StakingMaster) (t : Nat) (who : Address) : Prop :=
  ∀ cur, s.stakesMapGet t who = some cur →
    s.debtMapGet t who = cur.amount * s.rewardPerShareForTier t / RewardScale

theorem Settled.pending {t : Nat} {who : Address} (h : s.Settled t who) :
    s.calculatePendingRewardFor who t = 0 := by
  cases hcur : s.stakesMapGet t who with
  | none => exact pending_of_no_stake hcur
  | some cur =>
      have h0 : s.unclampedReward who t cur.amount = 0 := by
        rw [unclampedReward, h cur hcur, Int.sub_self]
      simp only [calculatePendingRewardFor, hcur, h0]
      split <;> rfl

/-- An accrual that applies nothing to the tier leaves its positions settled. -/
theorem Settled.accrued {t fee : Nat} {who : Address} (h : s.Settled t who) (h3 : t ≤ 3)
    (ha : Accrued s s₁ fee) (h0 : s.appliedSlice fee t = 0) : s₁.Settled t who := by
  intro cur hcur
  rw [ha.held] at hcur
  have hrise : s.rpsRise fee t = 0 := by
    rw [rpsRise, h0, Nat.zero_mul, Nat.zero_div]
  rw [debtMapGet, ha.debts, ha.rps t h3, hrise]
  exact h cur hcur

theorem settled_rebased {t u : Nat} {who who' : Address} {info : StakeInfoView} {n : Nat}
    (h : (u, who') = (t, who) ∨ s.Settled u who') : (s.rebased t who info n).Settled u who' := by
  intro cur hcur
  change (s.stakes.insert (t, who) info).lookup (u, who') = some cur at hcur
  change ((s.debts.insert (t, who) _).lookup (u, who')).getD 0
    = cur.amount * s.rewardPerShareForTier u / RewardScale
  rw [debtMapGet_insert]
  rw [Table.lookup_insert_of] at hcur
  by_cases he : u = t ∧ who' = who
  · obtain ⟨rfl, rfl⟩ := he
    rw [if_pos rfl] at hcur
    rw [if_pos ⟨rfl, rfl⟩, ← Option.some.inj hcur]
  · rw [if_neg fun hp => he (Prod.mk.inj hp)] at hcur
    rw [if_neg he]
    exact (h.resolve_left fun hp => he (Prod.mk.inj hp)) cur hcur

theorem Settled.closed {t u : Nat} {who who' : Address} {n : Nat} (h : s.Settled u who') :
    (s.closed t who n).Settled u who' := by
  intro cur hcur
  change (s.stakes.erase (t, who)).lookup (u, who') = some cur at hcur
  change ((s.debts.erase (t, who)).lookup (u, who')).getD 0
    = cur.amount * s.rewardPerShareForTier u / RewardScale
  rw [Table.lookup_erase_of] at hcur ⊢
  split at hcur
  · cases hcur
  · rename_i he
    rw [if_neg he]
    exact h cur hcur

/-- Settled as long as the tier accrues nothing. -/
def SettledSince (t : Nat) (who : Address) (accrued : Nat) (s : StakingMaster) (l : RewardLog) :
    Prop :=
  accrued ≤ l.accrued t ∧ (l.accrued t = accrued → s.Settled t who)

theorem did_settledSince {t n : Nat} {who : Address} (h3 : t ≤ 3) (h : Did ctx s b s' out)
    (hI : SettledSince t who n s l) :
    SettledSince t who n s' (RewardLog.entry ctx s b s' (out.map (·.body)) l) := by
  obtain ⟨hle, hset⟩ := hI
  refine ⟨hle.trans (Nat.le_add_right _ _), fun heq => ?_⟩
  have heq' : l.accrued t + s.appliedSlice (accrualFee ctx s b) t = n := heq
  have hs : s.Settled t who := hset (by omega)
  have h0 : s.appliedSlice (accrualFee ctx s b) t = 0 := by omega
  cases h with
  | stake _ hv _ _ htick =>
      have hfee : s.appliedSlice (tickFee ctx s) t = 0 := by
        simpa [accrualFee, actsOn_stake hv] using h0
      exact settled_rebased (.inr (hs.accrued h3 (accrued_tick htick) hfee))
  | unstake htick =>
      have hs₁ := hs.accrued h3 (accrued_tick htick) h0
      unfold remainder
      split
      · exact hs₁.closed
      · exact settled_rebased (.inr hs₁)
  | @claim msg s₁ ticked cur htick =>
      have hreb : (s₁.rebased msg.tier ctx.sender { cur with lastClaimTime := ctx.now } 0).Settled
          t who := settled_rebased (.inr (hs.accrued h3 (accrued_tick htick) h0))
      exact hreb
  | accrue _ happ => exact hs.accrued h3 (accrued_slices happ) h0
  | _ => exact hs

/-- An accepted claim settles the claimant's position in the tier. -/
theorem claim_settles {msg : ClaimRewards} (h : Did ctx s (.claimRewards msg) s' out) :
    msg.tier ≤ 3 ∧ s'.Settled msg.tier ctx.sender := by
  cases h with
  | @claim _ s₁ ticked cur _ h3 =>
      have hreb : (s₁.rebased msg.tier ctx.sender { cur with lastClaimTime := ctx.now } 0).Settled
          msg.tier ctx.sender := settled_rebased (.inl rfl)
      exact ⟨h3, hreb⟩
  | quiet hb => cases hb

/-- A claim on a settled position is refused unless its own tick accrues to the
tier. -/
theorem claim_refused {msg : ClaimRewards} (hs : s.Settled msg.tier ctx.sender)
    (h0 : s.appliedSlice (tickFee ctx s) msg.tier = 0) :
    ∃ e, s.receive ctx (.claimRewards msg) = .error e := by
  cases hr : s.receive ctx (.claimRewards msg) with
  | error e => exact ⟨e, rfl⟩
  | ok r =>
      exfalso
      obtain ⟨s', out⟩ := r
      cases receive_cases hr with
      | claim htick h3 _ hpend =>
          rw [(hs.accrued h3 (accrued_tick htick) h0).pending] at hpend
          exact absurd hpend (Nat.lt_irrefl 0)
      | quiet hb => cases hb

end StakingMaster

/-! ## Whole runs -/

variable {D : Deployment} {modelled : Part → Bool} {ordered : Address → Address → Bool}

abbrev rewardRecorder (D : Deployment) : Machine.Recorder Address Body Gas World RewardLog :=
  masterRecorder D RewardLog.entry

theorem promised_tracks :
    (network D modelled ordered).Tracks (fun _ _ => True) (rewardRecorder D)
      fun c l => c.st.sm.Promised l :=
  master_tracks (I := fun _ s l => s.Promised l) (fun c a _ => meets_true c a)
    (fun _ _ _ _ h => h) fun _ _ _ _ _ _ _ _ _ _ h hI => did_promised h hI

theorem settledSince_tracks {t n : Nat} {who : Address} (h3 : t ≤ 3) :
    (network D modelled ordered).Tracks (fun _ _ => True) (rewardRecorder D)
      fun c l => SettledSince t who n c.st.sm l :=
  master_tracks (I := fun _ s l => SettledSince t who n s l) (fun c a _ => meets_true c a)
    (fun _ _ _ _ h => h) fun _ _ _ _ _ _ _ _ _ _ h hI => did_settledSince h3 h hI

theorem Promised.start {s : StakingMaster} (hs : s.stakes = ∅) (ht : s.totalStakeByTier = ∅) :
    s.Promised RewardLog.zero := by
  refine ⟨fun t => ?_, fun t who cur hcur => ?_, fun t _ => ?_⟩
  · simp [tierTotalStake, staked, hs, ht]
  · simp [stakesMapGet, hs] at hcur
  · simp [owedIn, Shares.owed, hs, RewardLog.zero]

/-- A claim by `who` on tier `t` reaches the master. -/
structure IsClaim (D : Deployment) (m : Msg) (who : Address) (msg : ClaimRewards) : Prop where
  dst : m.dst = D.S
  src : m.src = who
  original : m.bounced = false
  body : D.opened m.body = .claimRewards msg

theorem IsClaim.did {m : Msg} {who : Address} {msg : ClaimRewards} (h : IsClaim D m who msg)
    {g : Gas} {now : Nat} {w w' : World} {out : List Msg}
    (hr : World.receive D g now m w = .ok (w', out)) :
    ∃ out', Did (Ctx.of g now m) w.sm (.claimRewards msg) w'.sm out' := by
  rcases receive_did hr with ⟨hno, -⟩ | ⟨-, -, out', -, hdid⟩
  · exact absurd ⟨h.dst, h.original⟩ hno
  · exact ⟨out', h.body ▸ hdid⟩

/-- **Reward promises.** In every run from a master without positions, for every
tier: what was requested from the pool plus what is pending is at most what was
accrued plus the number of rebasings; every debt is covered by its position, so
a difference is never clamped; and after an accepted claim a further claim of
the same owner on the tier is refused for as long as nothing accrues to it. -/
theorem promises_bounded {c₀ c : WorldConf} {l : RewardLog} (hs : c₀.st.sm.stakes = ∅)
    (ht : c₀.st.sm.totalStakeByTier = ∅)
    (h : (network D modelled ordered).Logged (fun _ _ => True) (rewardRecorder D)
      c₀ RewardLog.zero c l) :
    (∀ t ≤ 3, l.requested t + c.st.sm.pendingIn t ≤ l.accrued t + l.rebasings t)
      ∧ (∀ t who cur, c.st.sm.stakesMapGet t who = some cur →
        c.st.sm.debtMapGet t who
            ≤ cur.amount * c.st.sm.rewardPerShareForTier t / RewardScale
          ∧ 0 ≤ c.st.sm.unclampedReward who t cur.amount)
      ∧ ∀ m who msg g w' out, IsClaim D m who msg →
          World.receive D g c.now m c.st = .ok (w', out) →
          ∀ flight l' c₂ l₂, (network D modelled ordered).Logged (fun _ _ => True)
              (rewardRecorder D) ⟨w', flight, c.now⟩ l' c₂ l₂ →
            l₂.accrued msg.tier = l'.accrued msg.tier →
            ∀ m₂ msg₂ g₂, IsClaim D m₂ who msg₂ → msg₂.tier = msg.tier →
              c₂.st.sm.appliedSlice (tickFee (Ctx.of g₂ c₂.now m₂) c₂.st.sm) msg.tier = 0 →
              ∃ e, World.receive D g₂ c₂.now m₂ c₂.st = .error e := by
  have hI : c.st.sm.Promised l := h.invariant promised_tracks (Promised.start hs ht)
  refine ⟨fun t h3 => ?_, fun t who cur hcur => ?_, ?_⟩
  · exact hI.requested_le h3
  · have hd := hI.covered t who cur hcur
    refine ⟨hd, ?_⟩
    rw [unclampedReward]
    omega
  · intro m who msg g w' out hm hr flight l' c₂ l₂ hrun hsame m₂ msg₂ g₂ hm₂ htier h0
    obtain ⟨out', hdid⟩ := hm.did hr
    obtain ⟨h3, hset⟩ := claim_settles hdid
    have hwho : (Ctx.of g c.now m).sender = who := hm.src
    rw [hwho] at hset
    have hsince : SettledSince msg.tier who (l'.accrued msg.tier) c₂.st.sm l₂ :=
      hrun.invariant (settledSince_tracks h3) ⟨le_refl _, fun _ => hset⟩
    have hset₂ := hsince.2 hsame
    cases hr₂ : World.receive D g₂ c₂.now m₂ c₂.st with
    | error e => exact ⟨e, rfl⟩
    | ok r =>
        obtain ⟨w₂, out₂⟩ := r
        rcases World.receive_sm hr₂ hm₂.dst with ⟨hb, -⟩ | ⟨-, out'', hsm, -⟩
        · rw [hm₂.original] at hb
          cases hb
        · rw [hm₂.body] at hsm
          have hwho₂ : (Ctx.of g₂ c₂.now m₂).sender = who := hm₂.src
          rw [← htier, ← hwho₂] at hset₂
          rw [← htier] at h0
          obtain ⟨e, he⟩ := claim_refused hset₂ h0
          rw [he] at hsm
          cases hsm

/-- Only the staking master is modelled. -/
def masterOnly : Part → Bool
  | .stakingMaster => true
  | _ => false

def unordered (_ _ : Address) : Bool := false

/-- The reserve is funded, account 3 stakes in tier 1, waits and claims. -/
def stakeAndClaim : List (Action Address Body Gas) :=
  [.send (external D₀.P D₀.S 0 (.emissionReserveFunded 0 1000000000)),
   .deliver 0 (freeGas 0) true,
   .send (stakeNotice 1 10000000 (account 3) (milliTon 5000)),
   .deliver 0 (freeGas 0) true,
   .wait 1000,
   .send (external (account 3) D₀.S (milliTon 5000) (.claimRewards { queryId := 0, tier := 1 })),
   .deliver 4 (freeGas 0) true]

theorem promises_bounded_claim :
    ∃ c l, (network D₀ masterOnly unordered).execLogged (rewardRecorder D₀) (bootstrapAt 1000)
        RewardLog.zero stakeAndClaim = some (c, l)
      ∧ l.accrued 1 = 317000 ∧ l.requested 1 = 317000 ∧ l.rebasings 1 = 1
      ∧ l.requested 1 + c.st.sm.pendingIn 1 ≤ l.accrued 1 + l.rebasings 1 := by
  have hrun : ((network D₀ masterOnly unordered).execLogged (rewardRecorder D₀) (bootstrapAt 1000)
      RewardLog.zero stakeAndClaim).map (fun r => (r.2.accrued 1, r.2.requested 1, r.2.rebasings 1))
      = some (317000, 317000, 1) := by
    decide +kernel
  obtain ⟨⟨c, l⟩, hc, hv⟩ := Option.map_eq_some_iff.mp hrun
  obtain ⟨h1, h2, h3⟩ : l.accrued 1 = 317000 ∧ l.requested 1 = 317000 ∧ l.rebasings 1 = 1 := by
    simpa using hv
  exact ⟨c, l, hc, h1, h2, h3,
    (promises_bounded rfl rfl (Machine.logged_of_exec hc)).1 1 (by decide)⟩

end BurnedChats

import BurnedChats.Staking.Agreement
import BurnedChats.Staking.Emission
import BurnedChats.Staking.Rewards

/-!
# Funding of rewards

The pool pays a reward out of its balance above the principal and cuts what is
not there. Orders arrive in the order sent, a tick's credit before the rewards
it made possible, and a fee is credited before it is announced; so whatever a
payout finds missing is rounding the master has promised too much. The invariant
is a third replay of the queue (`Funds`): working it off never overdraws the
funds by more than the number of rebasings, counted against the cuts so far.
-/

namespace BurnedChats

open Network StakingMaster

variable {D : Deployment} {modelled : Part → Bool} {ordered : Address → Address → Bool}

/-! ## The replay -/

/-- By how much an order moves the funds for rewards, if it is met in full. -/
def fundingDelta : Pend → Body → Int
  | .settled, .creditPoolBalance c => c.delta
  | .settled, .payRewards r => -r.amount
  | .settled, .payUnstake u => -u.reward
  | _, _ => 0

/-- Worked off from `x`, the queue never goes below zero and ends at `y` or above. -/
def Funds (y : Int) : Int → Pend → List Body → Prop
  | x, _, [] => 0 ≤ x ∧ y ≤ x
  | x, φ, b :: q => 0 ≤ x ∧ ∀ φ', follow φ b = some φ' → Funds y (x + fundingDelta φ b) φ' q

namespace Funds

variable {x x' y y' z d : Int} {φ φ' : Pend} {q o : List Body} {b : Body}

theorem nonneg (h : Funds y x φ q) : 0 ≤ x := by
  cases q with
  | nil => exact h.1
  | cons b q => exact h.1

theorem next (h : Funds y x φ (b :: q)) (hb : follow φ b = some φ') :
    Funds y (x + fundingDelta φ b) φ' q :=
  h.2 φ' hb

/-- Raising the start, or lowering the end, by any amount. -/
theorem mono (h : Funds y x φ q) (hx : x ≤ x') (hy : y' ≤ y) : Funds y' x' φ q := by
  induction q generalizing x x' φ with
  | nil => exact ⟨h.1.trans hx, hy.trans (h.2.trans hx)⟩
  | cons b q ih => exact ⟨h.1.trans hx, fun φ' hb => ih (h.2 φ' hb) (by omega)⟩

/-- Raising both by the same amount. -/
theorem shift (h : Funds y x φ q) (hd : 0 ≤ d) : Funds (y + d) (x + d) φ q := by
  induction q generalizing x φ with
  | nil => exact ⟨Int.add_nonneg h.1 hd, Int.add_le_add_right h.2 d⟩
  | cons b q ih =>
      refine ⟨Int.add_nonneg h.1 hd, fun φ' hb => ?_⟩
      have hrest := ih (h.2 φ' hb)
      rwa [Int.add_right_comm] at hrest

theorem append (h : Funds y x φ q) (hq : q.foldlM follow φ = some .settled)
    (ho : Funds z y .settled o) : Funds z x φ (q ++ o) := by
  induction q generalizing x φ with
  | nil =>
      obtain rfl := Option.some.inj hq
      exact ho.mono h.2 (le_refl z)
  | cons b q ih =>
      refine ⟨h.1, fun φ' hb => ih (h.2 φ' hb) ?_⟩
      rw [List.foldlM_cons, hb] at hq
      exact hq

theorem credit (hx : 0 ≤ x) (q n : Nat) :
    Funds (x + n) x .settled (if 0 < n then [.creditPoolBalance ⟨q, n⟩] else []) := by
  split
  · refine ⟨hx, fun φ' _ => ?_⟩
    simp only [fundingDelta]
    exact ⟨by omega, le_refl _⟩
  · exact ⟨hx, by omega⟩

theorem reward {q n : Nat} {who : Address} (hx : 0 ≤ x - n) :
    Funds (x - n) x .settled (if 0 < n then [.payRewards ⟨q, who, n⟩] else []) := by
  split
  · refine ⟨by omega, fun φ' _ => ?_⟩
    simp only [fundingDelta]
    exact ⟨by omega, by omega⟩
  · exact ⟨by omega, by omega⟩

theorem stake {q t n q' : Nat} (hx : 0 ≤ x) :
    Funds x x .settled [.incrementTotalStake ⟨q, t, n⟩, .creditPoolBalance ⟨q', n⟩] := by
  refine ⟨hx, fun φ' hφ => ?_⟩
  obtain rfl := Option.some.inj hφ
  simp only [fundingDelta, Int.add_zero]
  refine ⟨hx, fun φ'' _ => ?_⟩
  simp only [fundingDelta, Int.add_zero]
  exact ⟨hx, le_refl x⟩

theorem unstake {q t p n q' : Nat} {who : Address} (hx : 0 ≤ x - n) :
    Funds (x - n) x .settled [.payUnstake ⟨q, who, p, n⟩, .decrementTotalStake ⟨q', t, p⟩] := by
  refine ⟨by omega, fun φ' hφ => ?_⟩
  simp only [follow] at hφ
  split at hφ
  · obtain rfl := Option.some.inj hφ
    simp only [fundingDelta]
    refine ⟨by omega, fun φ'' _ => ?_⟩
    simp only [fundingDelta]
    exact ⟨by omega, by omega⟩
  · cases hφ

end Funds

/-! ## The pool's side -/

namespace StakingPool

variable {W : WalletBook} {ctx : Ctx} {p p' : StakingPool} {b : Body} {out : List Msg}
  {φ φ' : Pend}

/-- The balance above the principal, in phase `φ`. -/
def slack (p : StakingPool) (φ : Pend) : Int :=
  (p.pool_balance : Int) + φ.gap - p.totalPrincipal

theorem slack_balance (p : StakingPool) (n : Nat) (φ : Pend) :
    StakingPool.slack { p with pool_balance := n } φ = (n : Int) + φ.gap - p.totalPrincipal := rfl

theorem cappedReward_eq (p : StakingPool) (r : Nat) :
    p.cappedReward r = min p.rewardFunding r := by
  unfold cappedReward
  split <;> omega

/-- By how much a processed payout order fell short of what it asked for. -/
def cutOf (p p' : StakingPool) : Body → Nat
  | .payRewards r => r.amount - (p.pool_balance - p'.pool_balance)
  | .payUnstake u => u.principal + u.reward - (p.pool_balance - p'.pool_balance)
  | _ => 0

theorem cutOf_eq_zero (h : isOrder b = false) : cutOf p p' b = 0 := by
  cases b with
  | payRewards => cases h
  | payUnstake => cases h
  | _ => rfl

/-- An order moves the funds by what it asks for, up to its cut; and a cut leaves
nothing. -/
theorem order_funding (ho : isOrder b = true) (hb : p.Backed φ) (hφ : follow φ b = some φ')
    (h : p.receive W ctx b = .ok (p', out)) :
    p'.slack φ' = p.slack φ + fundingDelta φ b + cutOf p p' b
      ∧ (cutOf p p' b = 0 ∨ p'.slack φ' = 0)
      ∧ ∀ r ∈ out, r.body = .empty ∨ ∃ t, r.body = .jettonTransfer t := by
  cases b with
  | incrementTotalStake d =>
      simp only [receive, receiveIncrementTotalStake, assertTier, bind_eq_ok, require_eq_ok,
        exists_const, Except.ok.injEq, Prod.mk.injEq] at h
      obtain ⟨_, -, ht, -, -, rfl, rfl⟩ := h
      have hsum := sum_tiers_update (f := p.tierTotal) (p.tierTotal d.tier + d.delta) ht
      cases φ with
      | settled =>
          obtain rfl := Option.some.inj hφ
          refine ⟨?_, .inl rfl, by simp⟩
          simp only [slack, totalPrincipal, tierTotal_insert, Pend.gap, fundingDelta, cutOf]
          omega
      | owesCredit _ => cases hφ
      | owesDecrement _ => cases hφ
  | decrementTotalStake d =>
      simp only [receive, receiveDecrementTotalStake, assertTier, bind_eq_ok, require_eq_ok,
        exists_const, Except.ok.injEq, Prod.mk.injEq] at h
      obtain ⟨_, -, ht, -, hle, rfl, rfl⟩ := h
      have hsum := sum_tiers_update (f := p.tierTotal) (p.tierTotal d.tier - d.delta) ht
      cases φ with
      | settled => cases hφ
      | owesCredit _ => cases hφ
      | owesDecrement n =>
          simp only [follow] at hφ
          split at hφ
          · obtain rfl := Option.some.inj hφ
            refine ⟨?_, .inl rfl, by simp⟩
            simp only [slack, totalPrincipal, tierTotal_insert, Pend.gap, fundingDelta, cutOf]
            omega
          · cases hφ
  | creditPoolBalance c =>
      simp only [receive, receiveCreditPoolBalance, bind_eq_ok, require_eq_ok, exists_const,
        Except.ok.injEq, Prod.mk.injEq] at h
      obtain ⟨_, -, -, rfl, rfl⟩ := h
      cases φ with
      | settled =>
          simp only [follow] at hφ
          split at hφ
          · obtain rfl := Option.some.inj hφ
            refine ⟨?_, .inl rfl, by simp⟩
            rw [slack_balance]
            simp only [slack, Pend.gap, fundingDelta, cutOf]
            omega
          · cases hφ
      | owesCredit d =>
          simp only [follow] at hφ
          split at hφ
          · obtain rfl := Option.some.inj hφ
            refine ⟨?_, .inl rfl, by simp⟩
            rw [slack_balance]
            simp only [slack, Pend.gap, fundingDelta, cutOf]
            omega
          · cases hφ
      | owesDecrement _ => cases hφ
  | payRewards r =>
      cases φ with
      | settled =>
          simp only [follow] at hφ
          split at hφ
          · obtain rfl := Option.some.inj hφ
            have hfund := p.rewardFunding_add hb
            simp only [receive, receivePayRewards, bind_eq_ok, require_eq_ok, exists_const] at h
            obtain ⟨_, -, -, -, h⟩ := h
            rw [cappedReward_eq] at h
            split at h
            · obtain ⟨rfl, rfl⟩ := Prod.mk.inj (Except.ok.inj h)
              refine ⟨?_, ?_, by simp [Ctx.cashback, Ctx.message]⟩ <;>
                simp only [slack, Pend.gap, fundingDelta, cutOf] <;> omega
            · obtain ⟨rfl, rfl⟩ := Prod.mk.inj (Except.ok.inj h)
              refine ⟨?_, ?_, by simp [payout, Ctx.message]⟩ <;> rw [slack_balance] <;>
                simp only [slack, Pend.gap, fundingDelta, cutOf] <;> omega
          · cases hφ
      | owesCredit _ => cases hφ
      | owesDecrement _ => cases hφ
  | payUnstake u =>
      cases φ with
      | settled =>
          simp only [follow] at hφ
          split at hφ
          · obtain rfl := Option.some.inj hφ
            have hfund := p.rewardFunding_add hb
            simp only [receive, receivePayUnstake, bind_eq_ok, require_eq_ok, exists_const,
              Except.ok.injEq, Prod.mk.injEq, cappedReward_eq] at h
            obtain ⟨_, -, -, -, hle, rfl, rfl⟩ := h
            refine ⟨?_, ?_, by simp [payout, Ctx.message]⟩ <;> rw [slack_balance] <;>
              simp only [slack, Pend.gap, fundingDelta, cutOf] <;> omega
          · cases hφ
      | owesCredit _ => cases hφ
      | owesDecrement _ => cases hφ
  | _ => cases ho

end StakingPool

/-! ## The master's side -/

namespace RewardLog

/-- What was accrued and not yet requested, over all tiers. -/
def balance (l : RewardLog) : Int :=
  ((tiers.map l.accrued).sum : Int) - (tiers.map l.requested).sum

/-- How often a debt was computed for a new amount, over all tiers. -/
def total (l : RewardLog) : Nat := (tiers.map l.rebasings).sum

end RewardLog

namespace StakingMaster

variable {ctx : Ctx} {s s' s₁ : StakingMaster} {b : Body} {out ticked : List Msg} {l : RewardLog}

theorem Promised.balance_nonneg (h : s.Promised l) : 0 ≤ l.balance + l.total := by
  have h0 := h.requested_le (t := 0) (by decide)
  have h1 := h.requested_le (t := 1) (by decide)
  have h2 := h.requested_le (t := 2) (by decide)
  have h3 := h.requested_le (t := 3) (by decide)
  simp only [RewardLog.balance, RewardLog.total, tiers, List.map_cons, List.map_nil,
    List.sum_cons, List.sum_nil]
  omega

/-- A sum over the tiers of something that is only there in one of them. -/
theorem sum_tiers_single {t : Nat} (n : Nat) (ht : t ≤ 3) :
    (tiers.map fun u => if some t = some u then n else 0).sum = n := by
  have h : t = 0 ∨ t = 1 ∨ t = 2 ∨ t = 3 := by omega
  rcases h with rfl | rfl | rfl | rfl <;> simp [tiers]

theorem sum_tiers_add (f g : Nat → Nat) :
    (tiers.map fun u => f u + g u).sum = (tiers.map f).sum + (tiers.map g).sum := by
  simp only [tiers, List.map_cons, List.map_nil, List.sum_cons, List.sum_nil]
  omega

theorem total_entry (bodies : List Body) :
    l.total ≤ (RewardLog.entry ctx s b s' bodies l).total := by
  simp only [RewardLog.total, RewardLog.entry, sum_tiers_add]
  exact Nat.le_add_right _ _

/-- The balance after an execution that acts on a tier. -/
theorem balance_acting {t : Nat} (hb : actsOn ctx s b = some t) (ht : t ≤ 3)
    (hfee : ∀ msg, b ≠ .stakeFeeRewardsAccrue msg) (bodies : List Body) :
    (RewardLog.entry ctx s b s' bodies l).balance
      = l.balance + tickCredit ctx s - rewardsIn bodies := by
  have hf : accrualFee ctx s b = tickFee ctx s := by
    unfold accrualFee
    split
    · exact absurd rfl (hfee _)
    · simp [hb]
  simp only [RewardLog.balance, RewardLog.entry, sum_tiers_add, hb, hf, sum_tiers_single _ ht,
    tickCredit]
  omega

theorem balance_idle (hb : actsOn ctx s b = none) (hfee : ∀ msg, b ≠ .stakeFeeRewardsAccrue msg)
    (bodies : List Body) : (RewardLog.entry ctx s b s' bodies l).balance = l.balance := by
  have hf : accrualFee ctx s b = 0 := by
    unfold accrualFee
    split
    · exact absurd rfl (hfee _)
    · simp [hb]
  simp [RewardLog.balance, RewardLog.entry, hb, hf, appliedSlice_zero]

theorem balance_accrue (msg : StakeFeeRewardsAccrue) (bodies : List Body) :
    (RewardLog.entry ctx s (.stakeFeeRewardsAccrue msg) s' bodies l).balance
      = l.balance + (tiers.map (s.appliedSlice msg.feeAmount)).sum := by
  simp only [RewardLog.balance, RewardLog.entry, sum_tiers_add, accrualFee, actsOn, reduceCtorEq,
    if_false, Nat.add_zero, Nat.cast_add]
  ring

/-- A fee is shared out in full at most. -/
theorem slices_le_fee (fee : Nat) (h : 0 < fee → (tiers.map s.cachedShare).sum ≤ 100) :
    (tiers.map (s.appliedSlice fee)).sum ≤ fee := by
  rcases Nat.eq_zero_or_pos fee with rfl | hpos
  · simp [appliedSlice_zero, tiers]
  replace h := h hpos
  have h1 := slices_le s fee
  have h2 : s.activeShares ≤ (tiers.map s.cachedShare).sum := by
    refine List.sum_le_sum fun t _ => ?_
    split
    · exact Nat.zero_le _
    · exact le_refl _
  have h3 : fee * s.activeShares ≤ fee * 100 := Nat.mul_le_mul_left _ (h2.trans h)
  omega

theorem accrue_cases {msg : StakeFeeRewardsAccrue}
    (h : Did ctx s (.stakeFeeRewardsAccrue msg) s' out) : ctx.sender = s.pool ∧ out = [] := by
  cases h with
  | accrue hsrc => exact ⟨hsrc, rfl⟩
  | quiet _ hno => exact absurd rfl (hno msg)

/-- The orders of an execution use what it accrued, and no more than was promised. -/
theorem did_funds (h : Did ctx s b s' out) (hI : s.Promised l)
    (hfee : ∀ msg, b ≠ .stakeFeeRewardsAccrue msg) {l' : RewardLog}
    (hl : l' = RewardLog.entry ctx s b s' (out.map (·.body)) l) :
    Funds (l'.balance + l'.total) (l.balance + l'.total) .settled (orders s.pool out) := by
  have h0 : 0 ≤ l.balance + l'.total := by
    have h1 := hI.balance_nonneg
    have h2 : l.total ≤ l'.total := hl ▸ total_entry _
    omega
  have h0' : 0 ≤ l'.balance + l'.total := hl ▸ (did_promised h hI).balance_nonneg
  have hcash : ∀ a, orders s.pool [ctx.cashback a] = [] := fun a => orders_cons_other rfl []
  have hquiet : actsOn ctx s b = none → (∀ r ∈ out, isOrder r.body = false) →
      Funds (l'.balance + l'.total) (l.balance + l'.total) .settled (orders s.pool out) := by
    intro hb ho
    rw [orders_eq_nil ho, hl, balance_idle hb hfee, ← hl]
    exact ⟨h0, le_refl _⟩
  -- a tick's credit, then the rewards it made possible
  have hpaid : ∀ (who : Address) (r q : Nat), 0 ≤ l.balance + l'.total + tickCredit ctx s - r →
      Funds (l.balance + l'.total + tickCredit ctx s - r) (l.balance + l'.total) .settled
        ((if 0 < tickCredit ctx s then [.creditPoolBalance ⟨0, tickCredit ctx s⟩] else [])
          ++ if 0 < r then [.payRewards ⟨q, who, r⟩] else []) := by
    intro who r q hr
    exact (Funds.credit h0 0 _).append (leads_credit (f := s.tierTotalStake) _ _).pairs
      (Funds.reward hr)
  cases h with
  | @stake msg tier s₁ ticked cfg info _ hv ht _ htick _ _ _ _ =>
      have hbal : l'.balance = l.balance + tickCredit ctx s
          - s₁.calculatePendingRewardFor msg.sender tier := by
        rw [hl, balance_acting (actsOn_stake hv) ht hfee, List.map_append, List.map_append,
          rewardsIn_append, rewardsIn_append, rewardsIn_tick htick, rewardsIn_rewardMsgs]
        simp only [Nat.zero_add]
        rfl
      rw [orders_append, orders_append, orders_tick htick, orders_reward,
        orders_message _ _ _ _ rfl, creditPool, orders_message _ _ _ _ rfl, orders_cons_other rfl,
        hcash]
      have hend : l'.balance + l'.total = l.balance + l'.total + tickCredit ctx s
          - s₁.calculatePendingRewardFor msg.sender tier := by
        omega
      rw [hend] at h0' ⊢
      refine (hpaid msg.sender _ msg.queryId h0').append ?_ (Funds.stake h0')
      exact ((leads_credit (f := s.tierTotalStake) _ _).append (leads_reward _ _ _)).pairs
  | @unstake msg s₁ ticked cur htick ht =>
      have hbal : l'.balance = l.balance + tickCredit ctx s
          - s₁.calculatePendingRewardFor ctx.sender msg.tier := by
        rw [hl, balance_acting (t := msg.tier) rfl ht hfee, List.map_append, rewardsIn_append,
          rewardsIn_tick htick, Nat.zero_add]
        rfl
      rw [orders_append, orders_tick htick, orders_message _ _ _ _ rfl,
        orders_message _ _ _ _ rfl, hcash]
      have hend : l'.balance + l'.total = l.balance + l'.total + tickCredit ctx s
          - s₁.calculatePendingRewardFor ctx.sender msg.tier := by
        omega
      rw [hend] at h0' ⊢
      exact (Funds.credit h0 0 _).append (leads_credit (f := s.tierTotalStake) _ _).pairs
        (Funds.unstake h0')
  | @claim msg s₁ ticked cur htick ht =>
      have hbal : l'.balance = l.balance + tickCredit ctx s
          - s₁.calculatePendingRewardFor ctx.sender msg.tier := by
        rw [hl, balance_acting (t := msg.tier) rfl ht hfee, List.map_append, List.map_append,
          rewardsIn_append, rewardsIn_append, rewardsIn_tick htick, rewardsIn_rewardMsgs]
        simp only [Nat.zero_add]
        rfl
      rw [orders_append, orders_append, orders_tick htick, orders_reward, hcash, List.append_nil]
      have hend : l'.balance + l'.total = l.balance + l'.total + tickCredit ctx s
          - s₁.calculatePendingRewardFor ctx.sender msg.tier := by
        omega
      rw [hend] at h0' ⊢
      exact hpaid ctx.sender _ msg.queryId h0'
  | accrue => exact absurd rfl (hfee _)
  | sync => exact hquiet rfl (by simp)
  | fund => exact hquiet rfl (by simp)
  | relay => exact hquiet rfl (by simp [Ctx.message, isOrder])
  | snapshot => exact hquiet rfl (by simp [Ctx.message, isOrder])
  | quiet hb _ _ hout =>
      refine hquiet hb fun r hr => ?_
      rcases hout r hr with h | ⟨t, h⟩ <;> rw [h] <;> rfl

end StakingMaster

/-! ## The invariant -/

/-- The fee a message announces on its way from the pool to the master. -/
def feeUnderWay (D : Deployment) (m : Msg) : Nat :=
  if m.src = D.P ∧ m.dst = D.S ∧ m.bounced = false then StakingPool.feeOf (D.opened m.body) else 0

/-- The rewards of the run and the cuts of its payouts. -/
def fundingRecorder (D : Deployment) :
    Machine.Recorder Address Body Gas World (RewardLog × Nat) where
  accepted g now m w r l :=
    ((rewardRecorder D).accepted g now m w r l.1,
      l.2 + if m.dst = D.P ∧ m.bounced = false then
        StakingPool.cutOf w.pool r.1.pool (D.opened m.body) else 0)

/-- The queue can be worked off with what the pool has above its principal, the
cuts so far and one unit for each rebasing. -/
structure Funded (D : Deployment) (φ : Pend) (c : WorldConf) (l : RewardLog × Nat) : Prop where
  agree : AgreeAt D φ c
  promised : c.st.sm.Promised l.1
  funds : Funds (l.1.balance + l.1.total + load (feeUnderWay D) c.flight)
    (c.st.pool.slack φ - l.2 + l.1.total) φ (orderQueue D c.flight)
  cut : l.2 ≤ l.1.total

theorem feeUnderWay_eq_zero {m : Msg} (h : m.src ≠ D.P ∨ m.bounced = true) :
    feeUnderWay D m = 0 := by
  unfold feeUnderWay
  rw [if_neg]
  rintro ⟨h1, -, h3⟩
  rcases h with h | h
  · exact h h1
  · rw [h] at h3
    cases h3

theorem load_feeUnderWay_zero {l : List Msg} (h : ∀ m ∈ l, m.src ≠ D.P ∨ m.bounced = true) :
    load (feeUnderWay D) l = 0 := by
  induction l with
  | nil => rfl
  | cons m l ih =>
      rw [load_cons, feeUnderWay_eq_zero (h m (List.mem_cons_self ..)),
        ih fun m' hm' => h m' (List.mem_cons_of_mem _ hm')]

theorem load_feeUnderWay_sent {out : List Msg} (h : ∀ r ∈ out, ∀ c, r.body ≠ .raw c) :
    load (feeUnderWay D) (out.map (stamp D.P))
      ≤ (out.map fun r => StakingPool.feeOf r.body).sum := by
  induction out with
  | nil => exact le_refl _
  | cons r out ih =>
      have hrest := ih fun r' hr' => h r' (List.mem_cons_of_mem _ hr')
      have hone : feeUnderWay D (stamp D.P r) ≤ StakingPool.feeOf r.body := by
        unfold feeUnderWay
        split
        · rw [stamp_body, opened_of_not_raw (h r (List.mem_cons_self ..))]
        · exact Nat.zero_le _
      rw [List.map_cons, load_cons, List.map_cons, List.sum_cons]
      omega

/-- The master's cached shares add up to at most 100 whenever a fee accrues. (What
a tick accrues it credits, whatever the shares.) -/
def FeesFit (D : Deployment) (w : World) (_ : Nat) (_ : Gas) (m : Msg) : Prop :=
  m.dst = D.S → 0 < StakingPool.feeOf (D.opened m.body) →
    (tiers.map w.sm.cachedShare).sum ≤ 100

instance (D : Deployment) (w : World) (now : Nat) (g : Gas) (m : Msg) :
    Decidable (FeesFit D w now g m) :=
  inferInstanceAs (Decidable (_ → _ → _))

section Steps

variable {φ : Pend} {c : WorldConf} {l : RewardLog × Nat} {m : Msg} {pre post out : List Msg}
  {w' : World} {g : Gas}

/-- A message is taken away, or returned. -/
theorem Funded.drop (h : Funded D φ c l) (hf : c.flight = pre ++ m :: post)
    (hq : orderQueue D c.flight = orderQueue D (pre ++ post))
    (hout : ∀ r ∈ out, r.bounced = true) :
    Funded D φ ⟨c.st, pre ++ post ++ out, c.now⟩ l := by
  refine ⟨h.agree.drop hf hq hout, h.promised, ?_, h.cut⟩
  have hfunds := h.funds
  have hload := load_take (feeUnderWay D) hf
  rw [orderQueue_append, orderQueue_foreign fun r hr => .inr (hout r hr), List.append_nil, ← hq,
    load_append, load_feeUnderWay_zero fun r hr => .inr (hout r hr)]
  exact hfunds.mono (le_refl _) (by omega)

/-- The pool works off an order. -/
theorem Funded.order (h : Funded D φ c l) (hf : c.flight = pre ++ m :: post)
    (hm : IsOrderMsg D m)
    (hq : orderQueue D c.flight = m.body :: orderQueue D (pre ++ post))
    (hr : World.receive D g c.now m c.st = .ok (w', out)) :
    ∃ φ', Funded D φ' ⟨w', pre ++ post ++ out, c.now⟩
      ((fundingRecorder D).accepted g c.now m c.st (w', out) l) := by
  obtain ⟨φ', hfol, hag⟩ := h.agree.order hf hm hq hr
  obtain ⟨hs, hd, hb, hord⟩ := hm
  have hfr := World.receive_framed hr
  have hsm : w'.sm = c.st.sm := hfr.sm (by rw [hd]; simp)
  rcases World.receive_pool hr hd with ⟨hb', -⟩ | ⟨-, out', hp, rfl⟩
  · rw [hb] at hb'
    cases hb'
  rw [opened_order hord] at hp
  obtain ⟨hslack, hcut, hout⟩ := StakingPool.order_funding hord h.agree.backed hfol hp
  have hlog : (fundingRecorder D).accepted g c.now m c.st (w', out'.map (stamp m.dst)) l
      = (l.1, l.2 + StakingPool.cutOf c.st.pool w'.pool m.body) := by
    simp [fundingRecorder, masterRecorder, hd, hb, opened_order hord]
  have hload : load (feeUnderWay D) (pre ++ post ++ out'.map (stamp m.dst))
      = load (feeUnderWay D) c.flight := by
    have h1 := load_take (feeUnderWay D) hf
    have h2 : feeUnderWay D m = 0 := feeUnderWay_eq_zero (.inl (by rw [hs]; simp))
    have h3 : load (feeUnderWay D) (out'.map (stamp D.P))
        ≤ (out'.map fun r => StakingPool.feeOf r.body).sum :=
      load_feeUnderWay_sent fun r hr' c => by
        rcases hout r hr' with h | ⟨t, h⟩ <;> simp [h]
    have h4 : (out'.map fun r => StakingPool.feeOf r.body).sum = 0 := by
      refine List.sum_eq_zero fun n hn => ?_
      obtain ⟨r, hr', rfl⟩ := List.mem_map.mp hn
      rcases hout r hr' with h | ⟨t, h⟩ <;> rw [h] <;> rfl
    rw [load_append, hd]
    omega
  have hqueue : orderQueue D (pre ++ post ++ out'.map (stamp m.dst))
      = orderQueue D (pre ++ post) := by
    rw [orderQueue_append, orderQueue_foreign (l := out'.map (stamp m.dst)), List.append_nil]
    intro r hr'
    left
    rw [(hfr.out r hr').1, hd]
    simp
  have hfunds := h.funds
  rw [hq] at hfunds
  have hnext := hfunds.next hfol
  have hstart : c.st.pool.slack φ - l.2 + l.1.total + fundingDelta φ m.body
      = w'.pool.slack φ' - (l.2 + StakingPool.cutOf c.st.pool w'.pool m.body : Nat)
        + l.1.total := by
    rw [hslack]
    omega
  rw [hstart] at hnext
  rw [hlog]
  refine ⟨φ', hag, hsm ▸ h.promised, ?_, ?_⟩
  · simp only [hload, hqueue]
    exact hnext
  · -- a cut empties the funds, and the queue never overdraws
    have hnn := hnext.nonneg
    have hold := h.cut
    rcases hcut with h0 | h0
    · simp only [h0]
      omega
    · simp only
      omega

/-- The master executes something. -/
theorem Funded.master (h : Funded D φ c l) (hf : c.flight = pre ++ m :: post)
    (hq : orderQueue D c.flight = orderQueue D (pre ++ post)) (hd : m.dst = D.S)
    (hb : m.bounced = false) (hfit : FeesFit D c.st c.now g m) (hpool : w'.pool = c.st.pool)
    (hag : AgreeAt D φ ⟨w', pre ++ post ++ out.map (stamp m.dst), c.now⟩)
    (hdid : Did (Ctx.of g c.now m) c.st.sm (D.opened m.body) w'.sm out) :
    Funded D φ ⟨w', pre ++ post ++ out.map (stamp m.dst), c.now⟩
      ((fundingRecorder D).accepted g c.now m c.st (w', out.map (stamp m.dst)) l) := by
  have hlog : (fundingRecorder D).accepted g c.now m c.st (w', out.map (stamp m.dst)) l
      = (RewardLog.entry (Ctx.of g c.now m) c.st.sm (D.opened m.body) w'.sm (out.map (·.body)) l.1,
        l.2) := by
    have hP : ¬ (m.dst = D.P ∧ m.bounced = false) := by
      rw [hd]
      simp
    simp only [fundingRecorder, masterRecorder, if_neg hP, if_pos (And.intro hd hb), bodies_stamp,
      Nat.add_zero]
  have hload : load (feeUnderWay D) c.flight
      = feeUnderWay D m + load (feeUnderWay D) (pre ++ post ++ out.map (stamp m.dst)) := by
    rw [load_append, load_feeUnderWay_zero (l := out.map (stamp m.dst)) fun r hr => ?_,
      load_take _ hf, Nat.add_zero]
    obtain ⟨r', -, rfl⟩ := List.mem_map.mp hr
    exact .inl (by rw [stamp_src, hd]; simp)
  have hqueue : orderQueue D (pre ++ post ++ out.map (stamp m.dst))
      = orderQueue D c.flight ++ orders c.st.sm.pool out := by
    rw [orderQueue_append, ← hq, hd, orderQueue_sent, h.agree.pool]
  have htot : l.1.total ≤ (RewardLog.entry (Ctx.of g c.now m) c.st.sm (D.opened m.body) w'.sm
      (out.map (·.body)) l.1).total := total_entry _
  have hfunds := h.funds
  rw [hlog]
  refine ⟨hag, did_promised hdid h.promised, ?_, h.cut.trans htot⟩
  simp only [hqueue, hpool]
  by_cases hfee : ∃ msg, D.opened m.body = .stakeFeeRewardsAccrue msg
  · -- the fee was credited when it was announced
    obtain ⟨msg, hmsg⟩ := hfee
    have hshares : (tiers.map (c.st.sm.appliedSlice msg.feeAmount)).sum ≤ msg.feeAmount :=
      slices_le_fee msg.feeAmount fun hpos => hfit hd (by rw [hmsg]; exact hpos)
    rw [hmsg] at hdid
    obtain ⟨hsrc, rfl⟩ := accrue_cases hdid
    have hway : feeUnderWay D m = msg.feeAmount := by
      have hsrc' : m.src = D.P := hsrc.trans h.agree.pool
      simp [feeUnderWay, hsrc', hd, hb, hmsg, StakingPool.feeOf]
    have heq : (RewardLog.entry (Ctx.of g c.now m) c.st.sm (D.opened m.body) w'.sm
        (List.map (·.body) ([] : List Msg)) l.1).total = l.1.total := by
      simp [RewardLog.total, RewardLog.entry, actsOn, hmsg]
    rw [orders_nil, List.append_nil, heq, hmsg, balance_accrue]
    exact hfunds.mono (le_refl _) (by omega)
  · have hdone := did_funds hdid h.promised (fun msg hmsg => hfee ⟨msg, hmsg⟩) rfl
    have hpend : 0 ≤ ((load (feeUnderWay D) (pre ++ post ++ out.map (stamp m.dst)) : Nat) : Int) :=
      Int.natCast_nonneg _
    refine Funds.append ?_ h.agree.leads.pairs (hdone.shift hpend)
    generalize (RewardLog.entry (Ctx.of g c.now m) c.st.sm (D.opened m.body) w'.sm
      (out.map (·.body)) l.1).total = n at htot ⊢
    have hraise : (0 : Int) ≤ (n : Int) - l.1.total := by omega
    exact (hfunds.shift hraise).mono (by omega) (by omega)

/-- The pool executes something that is no order. -/
theorem Funded.pool (h : Funded D φ c l) (hf : c.flight = pre ++ m :: post)
    (hm : ¬ IsOrderMsg D m) (hq : orderQueue D c.flight = orderQueue D (pre ++ post))
    (hd : m.dst = D.P) (hr : World.receive D g c.now m c.st = .ok (w', out)) :
    Funded D φ ⟨w', pre ++ post ++ out, c.now⟩
      ((fundingRecorder D).accepted g c.now m c.st (w', out) l) := by
  have hag := h.agree.other hf hm hq hr
  have hfr := World.receive_framed hr
  have hsm : w'.sm = c.st.sm := hfr.sm (by rw [hd]; simp)
  obtain ⟨-, htot, -⟩ := h.agree.pool_other hf hm hr
  have hprin : w'.pool.totalPrincipal = c.st.pool.totalPrincipal := by
    unfold StakingPool.totalPrincipal StakingPool.tierTotal
    rw [htot]
  have hkey : (fundingRecorder D).accepted g c.now m c.st (w', out) l = l
      ∧ c.st.pool.pool_balance + load (feeUnderWay D) out ≤ w'.pool.pool_balance := by
    rcases World.receive_pool hr hd with ⟨hb, hp, rfl⟩ | ⟨hb, out', hp, rfl⟩
    · refine ⟨by simp [fundingRecorder, masterRecorder, hb], ?_⟩
      rw [hp]
      exact (StakingPool.bounced_other h.agree.wired m.body).2.2.1
    · obtain ⟨-, ht⟩ := h.agree.topped hf hm hd hb hp
      refine ⟨by simp [fundingRecorder, masterRecorder, hd, StakingPool.cutOf_eq_zero ht.noOrder],
        ?_⟩
      rw [hd]
      exact (Nat.add_le_add_left (load_feeUnderWay_sent ht.typed) _).trans ht.fees
  obtain ⟨hlog, hbal⟩ := hkey
  have hload : load (feeUnderWay D) (pre ++ post ++ out)
      ≤ load (feeUnderWay D) c.flight + load (feeUnderWay D) out := by
    rw [load_append, load_take _ hf]
    omega
  have hqueue : orderQueue D (pre ++ post ++ out) = orderQueue D c.flight := by
    rw [orderQueue_append, ← hq, orderQueue_foreign (l := out), List.append_nil]
    intro r hr'
    left
    rw [(hfr.out r hr').1, hd]
    simp
  rw [hlog]
  refine ⟨hag, hsm ▸ h.promised, ?_, h.cut⟩
  simp only [hqueue]
  have hraise : (0 : Int) ≤ (load (feeUnderWay D) out : Nat) := Int.natCast_nonneg _
  refine (h.funds.shift hraise).mono ?_ (by omega)
  simp only [StakingPool.slack, hprin]
  omega

theorem Funded.other (h : Funded D φ c l) (hf : c.flight = pre ++ m :: post)
    (hm : ¬ IsOrderMsg D m) (hq : orderQueue D c.flight = orderQueue D (pre ++ post))
    (hfit : FeesFit D c.st c.now g m) (hr : World.receive D g c.now m c.st = .ok (w', out)) :
    Funded D φ ⟨w', pre ++ post ++ out, c.now⟩
      ((fundingRecorder D).accepted g c.now m c.st (w', out) l) := by
  have hfr := World.receive_framed hr
  by_cases hP : m.dst = D.P
  · exact h.pool hf hm hq hP hr
  have hpool := hfr.pool hP
  have hag := h.agree.other hf hm hq hr
  rcases receive_did hr with ⟨hno, hsm⟩ | ⟨hd, hb, out', rfl, hdid⟩
  · have hlog : (fundingRecorder D).accepted g c.now m c.st (w', out) l = l := by
      simp [fundingRecorder, masterRecorder, hP, if_neg hno]
    have hsrc : ∀ r ∈ out, r.src ≠ D.P := fun r hr' hs => hP ((hfr.out r hr').1.symm.trans hs)
    have hqueue : orderQueue D (pre ++ post ++ out) = orderQueue D c.flight := by
      rw [orderQueue_append, ← hq]
      by_cases hS : m.dst = D.S
      · -- a return to the master is absorbed in silence
        rcases World.receive_sm hr hS with ⟨-, -, rfl⟩ | ⟨hb, -⟩
        · exact List.append_nil _
        · exact absurd ⟨hS, hb⟩ hno
      · rw [orderQueue_foreign fun r hr' => .inl fun hs => hS ((hfr.out r hr').1.symm.trans hs),
          List.append_nil]
    rw [hlog]
    refine ⟨hag, hsm ▸ h.promised, ?_, h.cut⟩
    have hload := load_take (feeUnderWay D) hf
    simp only [hqueue, hpool, load_append (feeUnderWay D) (pre ++ post),
      load_feeUnderWay_zero fun r hr' => .inl (hsrc r hr')]
    exact h.funds.mono (le_refl _) (by omega)
  · exact h.master hf hq hd hb hfit hpool hag hdid

end Steps

/-! ## Whole runs -/

theorem funded_tracks (hS : modelled .stakingMaster = true) (hP : modelled .stakingPool = true)
    (ho : ordered D.S D.P = true) :
    (network D modelled ordered).Tracks (Meets (FeesFit D)) (fundingRecorder D)
      fun c l => ∃ φ, Funded D φ c l := by
  have hownS : (network D modelled ordered).owns D.S = true := by
    simpa [network, Deployment.owns] using hS
  have hownP : (network D modelled ordered).owns D.P = true := by
    simpa [network, Deployment.owns] using hP
  constructor
  case send =>
    rintro c l m ⟨φ, h⟩ _ hsrc _
    have hsrcS := owns_of_modelled hownS hsrc
    have hnil : orderQueue D [m] = [] := orderQueue_foreign fun r hr => by
      obtain rfl := List.mem_singleton.mp hr
      exact .inl hsrcS
    refine ⟨φ, h.agree.send hsrcS, h.promised, ?_, h.cut⟩
    simp only [load_append, load_cons, load_nil, orderQueue_append, hnil, List.append_nil,
      feeUnderWay_eq_zero (.inl (owns_of_modelled hownP hsrc)), Nat.add_zero]
    exact h.funds
  case ok =>
    rintro c l i g acc m pre post w' out ⟨φ, h⟩ hG hm' hf hbl _ hr
    rcases orderQueue_deliver post ho hbl with ⟨hm, hq⟩ | ⟨hm, hq⟩
    · rw [← hf] at hq
      exact h.order hf hm hq hr
    · rw [← hf] at hq
      exact ⟨φ, h.other hf hm hq (hG.at hm') hr⟩
  case error =>
    rintro c l i g acc m pre post err ⟨φ, h⟩ _ _ hf hbl _ hr
    exact ⟨φ, h.drop hf (h.agree.error ho hf hbl hr) fun _ => bounceOf_bounced⟩
  case outside =>
    rintro c l m pre post ⟨φ, h⟩ hf hd
    have hq := orderQueue_outside pre post (owns_of_modelled hownP hd)
    have hdrop := h.drop hf (hf ▸ hq) (fun r (hr : r ∈ []) => by cases hr)
    exact ⟨φ, by simpa [fundingRecorder] using hdrop⟩
  case returned =>
    rintro c l m pre post ⟨φ, h⟩ hf _ hd
    have hq := orderQueue_outside pre post (owns_of_modelled hownP hd)
    exact ⟨φ, h.drop hf (hf ▸ hq) fun _ => bounceOf_bounced⟩
  case wait =>
    rintro c l d ⟨φ, h⟩ _
    have ha := h.agree
    exact ⟨φ, ⟨ha.pool, ha.wired, ha.tallied, ha.valued, ha.backed, ha.leads⟩, h.promised, h.funds,
      h.cut⟩

theorem StakingStart.funded {c : WorldConf} (h : StakingStart D c) :
    ∃ φ, Funded D φ c (RewardLog.zero, 0) := by
  obtain ⟨-, h2⟩ := h.books
  refine ⟨.settled, h.agree, Promised.start h.stakes h.masterTotals, ?_, Nat.zero_le _⟩
  have hslack : c.st.pool.slack .settled = c.st.pool.pool_balance := by
    simp [StakingPool.slack, StakingPool.totalPrincipal, h2, Pend.gap, tiers]
  have hq : orderQueue D c.flight = [] := by
    rw [h.flight]
    rfl
  rw [hslack, hq, h.flight]
  simp [Funds, RewardLog.balance, RewardLog.total, RewardLog.zero]

/-- **Cuts are rounding.** In every run in which the shares add up to at most 100
whenever a fee accrues, the payouts processed so far fell short of what they
asked for by at most the number of fresh stakes, merges and partial unstakes. -/
theorem cuts_bounded (hS : modelled .stakingMaster = true) (hP : modelled .stakingPool = true)
    (ho : ordered D.S D.P = true) {c₀ c : WorldConf} {l : RewardLog × Nat}
    (h₀ : StakingStart D c₀)
    (h : (network D modelled ordered).Logged (Meets (FeesFit D)) (fundingRecorder D)
      c₀ (RewardLog.zero, 0) c l) :
    l.2 ≤ l.1.total := by
  obtain ⟨φ, hI⟩ := h.invariant (funded_tracks hS hP ho) h₀.funded
  exact hI.cut

/-- The reserve is funded, account 3 stakes in tier 1, a day later it claims, and
the pool works off all orders. -/
def claimPaid : List (Action Address Body Gas) :=
  [.send (fundNotice 1000000000),
   .deliver 0 (freeGas 0) true,
   .deliver 0 (freeGas 0) true,
   .send (stakeNotice 1 10000000 (account 3) (milliTon 5000)),
   .deliver 0 (freeGas 0) true,
   .deliver 0 (freeGas 0) true,
   .deliver 0 (freeGas 0) true,
   .wait 86400,
   .send (external (account 3) D₀.S (milliTon 5000) (.claimRewards { queryId := 0, tier := 1 })),
   .deliver 2 (freeGas 0) true,
   .deliver 2 (freeGas 0) true,
   .deliver 2 (freeGas 0) true]

theorem cuts_bounded_claim :
    ∃ c l, (network D₀ stakingParts masterToPool).execWhile
        (fun c a => decide (Meets (FeesFit D₀) c a)) (fundingRecorder D₀) (bootstrapAt 1000)
        (RewardLog.zero, 0) claimPaid = some (c, l)
      ∧ l.1.requested 1 = 27388800 ∧ c.st.pool.pool_balance = 10000000 ∧ l.1.total = 1
      ∧ l.2 ≤ l.1.total := by
  have hrun : ((network D₀ stakingParts masterToPool).execWhile
      (fun c a => decide (Meets (FeesFit D₀) c a)) (fundingRecorder D₀) (bootstrapAt 1000)
      (RewardLog.zero, 0) claimPaid).map
      (fun r => (r.2.1.requested 1, r.1.st.pool.pool_balance, r.2.1.total))
      = some (27388800, 10000000, 1) := by
    decide +kernel
  obtain ⟨⟨c, l⟩, hc, hv⟩ := Option.map_eq_some_iff.mp hrun
  obtain ⟨h1, h2, h3⟩ : l.1.requested 1 = 27388800 ∧ c.st.pool.pool_balance = 10000000
      ∧ l.1.total = 1 := by
    simpa using hv
  have hstart : StakingStart D₀ (bootstrapAt 1000) := ⟨rfl, ⟨rfl, rfl⟩, rfl, rfl, rfl, rfl⟩
  have hlogged := Machine.logged_of_execWhile (G := Meets (FeesFit D₀))
    (fun _ _ h => of_decide_eq_true h) hc
  exact ⟨c, l, hc, h1, h2, h3, cuts_bounded rfl rfl (by decide) hstart hlogged⟩

end BurnedChats

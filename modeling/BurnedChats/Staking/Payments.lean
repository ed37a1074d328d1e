import BurnedChats.Staking.Notices

/-!
# Who pays for an operation

A stake, an unstake and a claim each ask for a minimum of attached TON, enough for
the messages they cause, and return what is left to their caller. But what a message
is paid separately comes out of the account's balance and not out of the inbound
value, and what is returned is the whole inbound value less the gas fee
(`spent_eq`). So the account pays the separate messages itself, unless the gas fee
alone is worth as much (`funded_iff`), which is at least 1.5 TON.
-/

namespace BurnedChats

open Network StakingMaster

namespace StakingMaster

variable {ctx : Ctx} {s s' : StakingMaster} {b : Body} {out : List Msg}

/-- The TON that the messages carry. -/
def spent (out : List Msg) : Nat := (out.map (·.value)).sum

/-- The operations of stakers; a notification is one when its stake is accepted. -/
def isOperation (ctx : Ctx) (s : StakingMaster) : Body → Bool
  | .jettonNotification msg =>
      match stakeVerdict ctx s msg with
      | .ok (.accept _) => true
      | _ => false
  | .unstakeJetton _ | .claimRewards _ => true
  | _ => false

/-- What the emission tick sends to the pool. -/
def tickValue (ctx : Ctx) (s : StakingMaster) : Nat :=
  if 0 < tickCredit ctx s then GasToPool else 0

/-- The reward that the tick leaves pending. -/
def pendingAfterTick (ctx : Ctx) (s : StakingMaster) (who : Address) (tier : Nat) : Nat :=
  match tickEmission ctx s with
  | .ok (s₁, _) => s₁.calculatePendingRewardFor who tier
  | .error _ => 0

/-- What the messages of an operation carry besides the returned value. -/
def paidSeparately (ctx : Ctx) (s : StakingMaster) : Body → Nat
  | .jettonNotification msg =>
      match stakeVerdict ctx s msg with
      | .ok (.accept tier) =>
          tickValue ctx s
            + (if 0 < pendingAfterTick ctx s msg.sender tier then GasPayRewards else 0)
            + (2 * GasToPool + GasForwardStakeJetton)
      | _ => 0
  | .unstakeJetton _ => tickValue ctx s + (GasPayRewards + GasToPool)
  | .claimRewards _ => tickValue ctx s + GasPayRewards
  | _ => 0

@[simp] theorem spent_nil : spent [] = 0 := rfl

@[simp] theorem spent_cons (m : Msg) (l : List Msg) : spent (m :: l) = m.value + spent l := by
  simp [spent]

theorem spent_append (l l' : List Msg) : spent (l ++ l') = spent l + spent l' := by
  simp [spent]

theorem spent_tick {s₁ : StakingMaster} {ticked : List Msg}
    (h : tickEmission ctx s = .ok (s₁, ticked)) : spent ticked = tickValue ctx s := by
  obtain ⟨r, -, -, rfl⟩ := tickEmission_spec h
  unfold tickValue
  split
  · rw [spent_cons, spent_nil, Nat.add_zero]
    rfl
  · rfl

theorem spent_rewards (who : Address) (reward q : Nat) :
    spent (rewardMsgs ctx s who reward q) = if 0 < reward then GasPayRewards else 0 := by
  unfold rewardMsgs
  split
  · rw [spent_cons, spent_nil, Nat.add_zero]
    rfl
  · rfl

theorem pendingAfterTick_eq {s₁ : StakingMaster} {ticked : List Msg}
    (h : tickEmission ctx s = .ok (s₁, ticked)) (who : Address) (tier : Nat) :
    pendingAfterTick ctx s who tier = s₁.calculatePendingRewardFor who tier := by
  rw [pendingAfterTick, h]

/-- An operation spends what it pays separately and the remaining value. -/
theorem spent_eq (hop : isOperation ctx s b = true) (h : s.receive ctx b = .ok (s', out)) :
    spent out = paidSeparately ctx s b + ctx.remaining := by
  cases receive_cases h with
  | @stake msg tier s₁ ticked cfg info _ hverdict _ _ htick _ _ _ _ =>
      simp only [spent_append, spent_tick htick, spent_rewards, paidSeparately, hverdict,
        pendingAfterTick_eq htick, spent_cons, spent_nil, creditPool,
        forwardStakeJettonsToPool, jettonTransferOut, Ctx.message, Ctx.cashback]
      omega
  | @unstake msg s₁ ticked cur htick _ _ _ _ _ _ =>
      simp only [spent_append, spent_tick htick, paidSeparately, spent_cons, spent_nil,
        Ctx.message, Ctx.cashback]
      omega
  | @claim msg s₁ ticked cur htick _ _ hpending =>
      simp only [spent_append, spent_tick htick, spent_rewards, if_pos hpending, paidSeparately,
        spent_cons, spent_nil, Ctx.message, Ctx.cashback]
      omega
  | quiet hacts =>
      cases b with
      | jettonNotification msg =>
          simp only [isOperation] at hop
          simp only [actsOn] at hacts
          split at hop
          · rename_i tier hverdict
            simp [hverdict] at hacts
          · cases hop
      | unstakeJetton msg => cases hacts
      | claimRewards msg => cases hacts
      | _ => cases hop
  | accrue | sync | fund | relay | snapshot => cases hop

theorem paidSeparately_ge (hop : isOperation ctx s b = true) :
    GasPayRewards ≤ paidSeparately ctx s b := by
  cases b with
  | jettonNotification msg =>
      simp only [isOperation] at hop
      simp only [paidSeparately]
      split at hop
      · simp only [GasPayRewards, GasForwardStakeJetton]
        omega
      · cases hop
  | unstakeJetton msg =>
      simp only [paidSeparately]
      omega
  | claimRewards msg =>
      simp only [paidSeparately]
      omega
  | _ => cases hop

end StakingMaster

/-- **Who funds an operation.** The remaining value is the inbound value less the gas
fee. Then the messages of an accepted stake, unstake or claim carry no more than its
caller attached if and only if the gas fee covers what they are paid separately,
which is never less than 1.5 TON. -/
theorem operations_funded {ctx : Ctx} {s s' : StakingMaster} {b : Body} {out : List Msg} {fee : Nat}
    (hremaining : ctx.remaining + fee = ctx.value) (hop : isOperation ctx s b = true)
    (h : s.receive ctx b = .ok (s', out)) :
    (StakingMaster.spent out ≤ ctx.value ↔ paidSeparately ctx s b ≤ fee)
      ∧ milliTon 1500 ≤ paidSeparately ctx s b := by
  refine ⟨?_, paidSeparately_ge hop⟩
  rw [spent_eq hop h]
  omega

/-- A stake with 5 TON attached, of which the gas takes 0.05. -/
def paidNotice : Msg := stakeNotice 1 10000000 (account 3) (milliTon 5000)

def paidCtx : Ctx := .of (freeGas (milliTon 4950)) 1000 paidNotice

/-- The deployed master sends 6.57 TON for 5. -/
theorem stake_underfunded :
    ∃ s' out, bootstrap.sm.receive paidCtx paidNotice.body = .ok (s', out)
      ∧ isOperation paidCtx bootstrap.sm paidNotice.body = true
      ∧ paidCtx.remaining + milliTon 50 = paidCtx.value
      ∧ StakingMaster.spent out = milliTon 6570 ∧ ¬ StakingMaster.spent out ≤ paidCtx.value := by
  have hrun : (bootstrap.sm.receive paidCtx paidNotice.body).toOption.map
      (fun r => StakingMaster.spent r.2) = some (milliTon 6570) := by
    decide +kernel
  cases hreceive : bootstrap.sm.receive paidCtx paidNotice.body with
  | error e =>
      rw [hreceive] at hrun
      cases hrun
  | ok r =>
      rw [hreceive] at hrun
      have hspent : StakingMaster.spent r.2 = milliTon 6570 := Option.some.inj hrun
      refine ⟨r.1, r.2, rfl, by decide +kernel, rfl, hspent, ?_⟩
      rw [hspent]
      decide

theorem operations_funded_stake :
    ∃ s' out, bootstrap.sm.receive paidCtx paidNotice.body = .ok (s', out)
      ∧ milliTon 1500 ≤ paidSeparately paidCtx bootstrap.sm paidNotice.body := by
  obtain ⟨⟨s', out⟩, hreceive⟩ : ∃ r, bootstrap.sm.receive paidCtx paidNotice.body = .ok r :=
    ⟨_, rfl⟩
  have hremaining : paidCtx.remaining + milliTon 50 = paidCtx.value := rfl
  have hop : isOperation paidCtx bootstrap.sm paidNotice.body = true := by decide +kernel
  exact ⟨s', out, hreceive, (operations_funded hremaining hop hreceive).2⟩

end BurnedChats

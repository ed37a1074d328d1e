import BurnedChats.Staking.Pool
import BurnedChats.Staking.Steps
import Mathlib.Tactic.Linarith

/-!
# Orders

What the master tells the pool, as a queue the pool has yet to work off. Two
replays of the queue carry everything: the totals of the tiers (`applyTotals`),
which must end in the master's own, and the pairing of messages (`follow`): an
increment is followed by its credit, an unstake by its decrement. Between the
two messages of a pair the pool's balance and its principal are apart by the
amount of the pair.
-/

namespace BurnedChats

open StakingMaster

/-- The orders to the pool in a list of sent messages. -/
def orders (pool : Address) (out : List Msg) : List Body :=
  ((out.filter fun r => decide (r.dst = pool)).map (·.body)).filter isOrder

@[simp] theorem orders_nil (pool : Address) : orders pool [] = [] := rfl

@[simp] theorem orders_append (pool : Address) (l l' : List Msg) :
    orders pool (l ++ l') = orders pool l ++ orders pool l' := by
  simp [orders]

theorem orders_message {pool : Address} {b : Body} (ctx : Ctx) (v : Nat) (bounce : Bool)
    (l : List Msg) (ho : isOrder b = true) :
    orders pool (ctx.message pool v bounce b :: l) = b :: orders pool l := by
  simp [orders, Ctx.message, ho]

theorem orders_cons_other {pool : Address} {r : Msg} (h : isOrder r.body = false) (l : List Msg) :
    orders pool (r :: l) = orders pool l := by
  by_cases hd : r.dst = pool <;> simp [orders, hd, h]

theorem orders_eq_nil {pool : Address} {l : List Msg} (h : ∀ r ∈ l, isOrder r.body = false) :
    orders pool l = [] := by
  induction l with
  | nil => rfl
  | cons r l ih =>
      rw [orders_cons_other (h r (List.mem_cons_self ..)),
        ih fun r' hr' => h r' (List.mem_cons_of_mem _ hr')]

/-! ## The two replays -/

/-- The effect of an order on the totals of the tiers; none when the pool would
refuse it. -/
def applyTotals (f : Nat → Nat) : Body → Option (Nat → Nat)
  | .incrementTotalStake d =>
      if d.tier ≤ 3 ∧ 0 < d.delta then some (Function.update f d.tier (f d.tier + d.delta))
      else none
  | .decrementTotalStake d =>
      if d.tier ≤ 3 ∧ 0 < d.delta ∧ d.delta ≤ f d.tier then
        some (Function.update f d.tier (f d.tier - d.delta))
      else none
  | _ => some f

/-- Where the pool is between the two messages of a pair. -/
inductive Pend where
  | settled
  | owesCredit (d : Nat)
  | owesDecrement (p : Nat)

/-- By how much the principal may exceed the balance there. -/
def Pend.gap : Pend → Nat
  | .settled => 0
  | .owesCredit d => d
  | .owesDecrement p => p

def follow : Pend → Body → Option Pend
  | .settled, .creditPoolBalance c => if 0 < c.delta then some .settled else none
  | .settled, .payRewards r => if 0 < r.amount then some .settled else none
  | .settled, .incrementTotalStake d => some (.owesCredit d.delta)
  | .settled, .payUnstake u => if 0 < u.principal then some (.owesDecrement u.principal) else none
  | .owesCredit d, .creditPoolBalance c => if c.delta = d ∧ 0 < d then some .settled else none
  | .owesDecrement p, .decrementTotalStake d => if d.delta = p then some .settled else none
  | _, _ => none

/-- The queue brings the pool from these totals and this phase to the master's
totals, settled. -/
structure Leads (f : Nat → Nat) (φ : Pend) (q : List Body) (f' : Nat → Nat) : Prop where
  totals : q.foldlM applyTotals f = some f'
  pairs : q.foldlM follow φ = some .settled

theorem Leads.append {f f' f'' : Nat → Nat} {φ : Pend} {q o : List Body} (h : Leads f φ q f')
    (ho : Leads f' .settled o f'') : Leads f φ (q ++ o) f'' := by
  refine ⟨?_, ?_⟩
  · rw [List.foldlM_append, h.totals]
    exact ho.totals
  · rw [List.foldlM_append, h.pairs]
    exact ho.pairs

theorem Leads.nil (f : Nat → Nat) : Leads f .settled [] f := ⟨rfl, rfl⟩

/-- The first order is one the pool can carry out. -/
theorem Leads.head {f f' : Nat → Nat} {φ : Pend} {b : Body} {q : List Body}
    (h : Leads f φ (b :: q) f') :
    ∃ f₁ φ₁, applyTotals f b = some f₁ ∧ follow φ b = some φ₁ ∧ Leads f₁ φ₁ q f' := by
  obtain ⟨ht, hp⟩ := h
  rw [List.foldlM_cons] at ht hp
  obtain ⟨f₁, h1, ht⟩ := Option.bind_eq_some_iff.mp ht
  obtain ⟨φ₁, h2, hp⟩ := Option.bind_eq_some_iff.mp hp
  exact ⟨f₁, φ₁, h1, h2, ht, hp⟩

/-! ## What the queue says about the totals -/

def increments (t : Nat) (q : List Body) : Nat :=
  (q.map fun
    | .incrementTotalStake d => if d.tier = t then d.delta else 0
    | _ => 0).sum

def decrements (t : Nat) (q : List Body) : Nat :=
  (q.map fun
    | .decrementTotalStake d => if d.tier = t then d.delta else 0
    | _ => 0).sum

theorem applyTotals_balance {f f₁ : Nat → Nat} {b : Body} (h : applyTotals f b = some f₁) (t : Nat) :
    f₁ t + decrements t [b] = f t + increments t [b] := by
  unfold applyTotals at h
  split at h
  · split at h
    · obtain rfl := Option.some.inj h
      by_cases ht : t = ‹TotalStakeDelta›.tier
      · subst ht
        simp [increments, decrements]
      · simp [increments, decrements, Function.update_of_ne ht, Ne.symm ht]
    · cases h
  · split at h
    · rename_i d hd
      obtain rfl := Option.some.inj h
      by_cases ht : t = d.tier
      · subst ht
        simp only [increments, decrements, Function.update_self, List.map_cons, List.map_nil,
          List.sum_cons, List.sum_nil, if_true]
        omega
      · simp [increments, decrements, Function.update_of_ne ht, Ne.symm ht]
    · cases h
  · rename_i hi hd
    obtain rfl := Option.some.inj h
    cases b with
    | incrementTotalStake d => exact absurd rfl (hi d)
    | decrementTotalStake d => exact absurd rfl (hd d)
    | _ => rfl

theorem replay_balance {q : List Body} : ∀ {f f' : Nat → Nat}, q.foldlM applyTotals f = some f' →
    ∀ t, f' t + decrements t q = f t + increments t q := by
  induction q with
  | nil =>
      intro f f' h t
      obtain rfl := Option.some.inj h
      rfl
  | cons b q ih =>
      intro f f' h t
      rw [List.foldlM_cons] at h
      obtain ⟨f₁, h1, h⟩ := Option.bind_eq_some_iff.mp h
      have hb := applyTotals_balance h1 t
      have hq := ih h t
      simp only [increments, decrements, List.map_cons, List.map_nil, List.sum_cons,
        List.sum_nil] at hb hq ⊢
      omega

/-! ## The master's side -/

namespace StakingMaster

variable {ctx : Ctx} {s s' : StakingMaster} {b : Body} {out : List Msg}

/-- The stake recorded in the positions of a tier. -/
def staked (s : StakingMaster) (t : Nat) : Nat :=
  Table.sum (fun k v => if k.1 = t then v.amount else 0) s.stakes

/-- The totals are what the positions add up to. -/
def Tallied (s : StakingMaster) : Prop := ∀ t, s.tierTotalStake t = s.staked t

theorem at?_held (s : StakingMaster) (t u : Nat) (who : Address) :
    Table.at? (fun k (v : StakeInfoView) => if k.1 = u then v.amount else 0) (t, who) s.stakes
      = if t = u then s.held t who else 0 := by
  unfold Table.at? held stakesMapGet
  cases s.stakes.lookup (t, who) <;> simp

theorem staked_insert (s : StakingMaster) (t u : Nat) (who : Address) (info : StakeInfoView) :
    Table.sum (fun k v => if k.1 = u then v.amount else 0) (s.stakes.insert (t, who) info)
        + (if t = u then s.held t who else 0)
      = s.staked u + if t = u then info.amount else 0 := by
  have h := Table.sum_insert_add (fun k (v : StakeInfoView) => if k.1 = u then v.amount else 0)
    (t, who) info s.stakes
  rwa [at?_held] at h

theorem staked_erase (s : StakingMaster) (t u : Nat) (who : Address) :
    s.staked u = (if t = u then s.held t who else 0)
      + Table.sum (fun k v => if k.1 = u then v.amount else 0) (s.stakes.erase (t, who)) := by
  have h := Table.sum_split (fun k (v : StakeInfoView) => if k.1 = u then v.amount else 0)
    (t, who) s.stakes
  rwa [at?_held] at h

theorem tierTotalStake_insert (s : StakingMaster) (t n u : Nat) :
    ((s.totalStakeByTier.insert t n).lookup u).getD 0
      = Function.update s.tierTotalStake t n u := by
  rw [Table.lookup_insert_of]
  by_cases hu : u = t
  · subst hu
    simp
  · simp [hu, tierTotalStake]

/-- Totals move with the positions. -/
theorem Tallied.rebased (h : Tallied s) {t n : Nat} {who : Address} {info : StakeInfoView}
    (hn : n + s.held t who = s.tierTotalStake t + info.amount) : Tallied (s.rebased t who info n) := by
  intro u
  have hs := staked_insert s t u who info
  have hu := h u
  change ((s.totalStakeByTier.insert t n).lookup u).getD 0
    = Table.sum (fun k v => if k.1 = u then v.amount else 0) (s.stakes.insert (t, who) info)
  rw [tierTotalStake_insert]
  by_cases htu : u = t
  · subst htu
    simp only [if_true, Function.update_self] at hs ⊢
    omega
  · rw [Function.update_of_ne htu]
    simp only [Ne.symm htu, if_false] at hs
    omega

theorem Tallied.closed (h : Tallied s) {t n : Nat} {who : Address}
    (hn : n + s.held t who = s.tierTotalStake t) : Tallied (s.closed t who n) := by
  intro u
  have hs := staked_erase s t u who
  have hu := h u
  change ((s.totalStakeByTier.insert t n).lookup u).getD 0
    = Table.sum (fun k v => if k.1 = u then v.amount else 0) (s.stakes.erase (t, who))
  rw [tierTotalStake_insert]
  by_cases htu : u = t
  · subst htu
    simp only [if_true, Function.update_self] at hs ⊢
    omega
  · rw [Function.update_of_ne htu]
    simp only [Ne.symm htu, if_false] at hs
    omega

theorem held_eq {t : Nat} {who : Address} {cur : StakeInfoView}
    (h : s.stakesMapGet t who = some cur) : s.held t who = cur.amount := by
  simp [held, h]

/-- The orders of a tick: at most one credit. -/
theorem orders_tick {ticked : List Msg} (h : tickEmission ctx s = .ok (s', ticked)) :
    orders s.pool ticked
      = if 0 < tickCredit ctx s then [.creditPoolBalance ⟨0, tickCredit ctx s⟩] else [] := by
  obtain ⟨r, -, -, rfl⟩ := tickEmission_spec h
  split
  · rw [creditPool, orders_message _ _ _ _ rfl, orders_nil]
  · rfl

theorem orders_reward (who : Address) (reward q : Nat) :
    orders s.pool (rewardMsgs ctx s who reward q)
      = if 0 < reward then [.payRewards ⟨q, who, reward⟩] else [] := by
  unfold rewardMsgs
  split
  · rw [orders_message _ _ _ _ rfl, orders_nil]
  · rfl

theorem leads_credit {f : Nat → Nat} (q n : Nat) :
    Leads f .settled (if 0 < n then [.creditPoolBalance ⟨q, n⟩] else []) f := by
  split
  · refine ⟨rfl, ?_⟩
    simp [follow, *]
  · exact .nil f

theorem leads_reward {f : Nat → Nat} (q n : Nat) (who : Address) :
    Leads f .settled (if 0 < n then [.payRewards ⟨q, who, n⟩] else []) f := by
  split
  · refine ⟨rfl, ?_⟩
    simp [follow, *]
  · exact .nil f

theorem leads_stake {f : Nat → Nat} {q t d q' : Nat} (ht : t ≤ 3) (hd : 0 < d) :
    Leads f .settled [.incrementTotalStake ⟨q, t, d⟩, .creditPoolBalance ⟨q', d⟩]
      (Function.update f t (f t + d)) := by
  refine ⟨?_, ?_⟩
  · simp [applyTotals, ht, hd]
  · simp [follow, hd]

theorem leads_unstake {f : Nat → Nat} {q t p r q' : Nat} {who : Address} (ht : t ≤ 3) (hp : 0 < p)
    (hle : p ≤ f t) :
    Leads f .settled [.payUnstake ⟨q, who, p, r⟩, .decrementTotalStake ⟨q', t, p⟩]
      (Function.update f t (f t - p)) := by
  refine ⟨?_, ?_⟩
  · simp [applyTotals, ht, hp, hle]
  · simp [follow, hp]

/-- One execution of the master keeps its books and sends orders that lead from
its old totals to its new ones. -/
theorem did_orders (h : Did ctx s b s' out) (ht : Tallied s) :
    s'.pool = s.pool ∧ Tallied s'
      ∧ Leads s.tierTotalStake .settled (orders s.pool out) s'.tierTotalStake := by
  have hquiet : ∀ {l : List Msg}, (∀ r ∈ l, r.body = .empty ∨ ∃ t, r.body = .jettonTransfer t) →
      orders s.pool l = [] := by
    intro l hl
    refine orders_eq_nil fun r hr => ?_
    rcases hl r hr with h | ⟨t, h⟩ <;> rw [h] <;> rfl
  have hcash : ∀ a, orders s.pool [ctx.cashback a] = [] := fun a => orders_cons_other rfl []
  cases h with
  | @stake msg tier s₁ ticked cfg info _ _ htier hpos htick _ hamt _ _ =>
      obtain ⟨hpool, hst, -, htot, -⟩ := tickEmission_frame htick
      have ht₁ : Tallied s₁ := by
        intro t
        have := ht t
        rw [tierTotalStake, staked, htot, hst]
        exact this
      have hsame : s₁.tierTotalStake = s.tierTotalStake := by
        funext t
        rw [tierTotalStake, tierTotalStake, htot]
      have hheld : s₁.held tier msg.sender = s.held tier msg.sender := by
        rw [held, held, stakesMapGet, stakesMapGet, hst]
      refine ⟨hpool, ht₁.rebased ?_, ?_⟩
      · rw [hheld, hsame, hamt]
        omega
      · rw [orders_append, orders_append, orders_tick htick, orders_reward,
          orders_message _ _ _ _ rfl, creditPool, orders_message _ _ _ _ rfl,
          orders_cons_other rfl, hcash]
        have hend : (s₁.rebased tier msg.sender info (s.tierTotalStake tier + msg.amount)).tierTotalStake
            = Function.update s.tierTotalStake tier (s.tierTotalStake tier + msg.amount) := by
          funext u
          rw [← hsame]
          exact tierTotalStake_insert s₁ tier _ u
        rw [hend]
        exact ((leads_credit _ _).append (leads_reward _ _ _)).append (leads_stake htier hpos)
  | @unstake msg s₁ ticked cur htick htier hpos hcur hle _ htotal =>
      obtain ⟨hpool, hst, -, htot, -⟩ := tickEmission_frame htick
      have ht₁ : Tallied s₁ := by
        intro t
        have := ht t
        rw [tierTotalStake, staked, htot, hst]
        exact this
      have hsame : s₁.tierTotalStake = s.tierTotalStake := by
        funext t
        rw [tierTotalStake, tierTotalStake, htot]
      have hheld : s₁.held msg.tier ctx.sender = cur.amount := by
        rw [← held_eq hcur, held, held, stakesMapGet, stakesMapGet, hst]
      refine ⟨?_, ?_, ?_⟩
      · unfold remainder
        split <;> exact hpool
      · unfold remainder
        split
        · rename_i h0
          refine ht₁.closed ?_
          rw [hheld, hsame]
          omega
        · refine ht₁.rebased ?_
          rw [hheld, hsame]
          simp only
          omega
      · rw [orders_append, orders_tick htick, orders_message _ _ _ _ rfl,
          orders_message _ _ _ _ rfl, hcash]
        have hend : (s₁.remainder msg.tier ctx.sender cur msg.amount).tierTotalStake
            = Function.update s.tierTotalStake msg.tier (s.tierTotalStake msg.tier - msg.amount) := by
          funext u
          rw [← hsame]
          unfold remainder
          split <;> exact tierTotalStake_insert s₁ msg.tier _ u
        rw [hend]
        exact (leads_credit _ _).append (leads_unstake htier hpos htotal)
  | @claim msg s₁ ticked cur htick _ hcur _ =>
      obtain ⟨hpool, hst, -, htot, -⟩ := tickEmission_frame htick
      have hsame : s₁.tierTotalStake = s.tierTotalStake := by
        funext t
        rw [tierTotalStake, tierTotalStake, htot]
      refine ⟨hpool, fun t => ?_, ?_⟩
      · have hs := staked_insert s msg.tier t ctx.sender { cur with lastClaimTime := ctx.now }
        rw [held_eq hcur] at hs
        have h1 : s₁.tierTotalStake t = s.staked t := by
          rw [hsame]
          exact ht t
        have h2 : Table.sum (fun k v => if k.1 = t then v.amount else 0)
            (s.stakes.insert (msg.tier, ctx.sender) { cur with lastClaimTime := ctx.now })
            = s.staked t := Nat.add_right_cancel hs
        rw [← h2, ← hst] at h1
        exact h1
      · rw [orders_append, orders_append, orders_tick htick, orders_reward, hcash]
        have hend : Leads s.tierTotalStake .settled [] s₁.tierTotalStake := hsame ▸ .nil _
        exact ((leads_credit _ _).append (leads_reward _ _ _)).append hend
  | accrue _ happ =>
      obtain ⟨-, r, rfl, -⟩ := applyStakeFeeSlices_spec happ
      exact ⟨rfl, ht, .nil _⟩
  | sync => exact ⟨rfl, ht, .nil _⟩
  | fund => exact ⟨rfl, ht, .nil _⟩
  | relay =>
      rw [orders_cons_other rfl, orders_nil]
      exact ⟨rfl, ht, .nil _⟩
  | snapshot =>
      rw [orders_cons_other rfl, orders_nil]
      exact ⟨rfl, ht, .nil _⟩
  | quiet _ _ _ hout =>
      rw [hquiet hout]
      exact ⟨rfl, ht, .nil _⟩

end StakingMaster

/-! ## The pool's side -/

namespace StakingPool

variable {W : WalletBook} {ctx : Ctx} {p p' : StakingPool} {b : Body} {out : List Msg}

theorem tierTotal_insert (p : StakingPool) (t n : Nat) :
    StakingPool.tierTotal { p with totals := p.totals.insert t n }
      = Function.update p.tierTotal t n := by
  funext u
  change ((p.totals.insert t n).lookup u).getD 0 = _
  rw [Table.lookup_insert_of]
  by_cases hu : u = t
  · subst hu
    simp
  · simp [hu, tierTotal]

/-- A sum over the four tiers under an update of one of them. -/
theorem sum_tiers_update {f : Nat → Nat} {t : Nat} (n : Nat) (ht : t ≤ 3) :
    (tiers.map (Function.update f t n)).sum + f t = (tiers.map f).sum + n := by
  have h : t = 0 ∨ t = 1 ∨ t = 2 ∨ t = 3 := by omega
  rcases h with rfl | rfl | rfl | rfl <;>
    simp [tiers] <;> omega

theorem le_totalPrincipal {t : Nat} (p : StakingPool) (ht : t ≤ 3) :
    p.tierTotal t ≤ p.totalPrincipal :=
  List.single_le_sum (by simp) _ (List.mem_map_of_mem (mem_tiers.mpr ht))

theorem cappedReward_le (p : StakingPool) (r : Nat) :
    p.cappedReward r ≤ r ∧ p.cappedReward r ≤ p.rewardFunding := by
  unfold cappedReward
  split <;> omega

theorem rewardFunding_add (p : StakingPool) (h : p.totalPrincipal ≤ p.pool_balance) :
    p.rewardFunding + p.totalPrincipal = p.pool_balance := by
  unfold rewardFunding
  split <;> omega

/-- The pool is ready for the orders of its master at address `master`. -/
structure Wired (p : StakingPool) (master : Address) : Prop where
  wired : p.master_wired = true
  master : p.stakingMaster = master

/-- In phase `φ` the principal is covered, up to the gap of the phase. -/
def Backed (p : StakingPool) (φ : Pend) : Prop := p.totalPrincipal ≤ p.pool_balance + φ.gap

/-- The first order of the queue is accepted, leaves the pool as the replays say,
and backed. -/
theorem order_accepted {master : Address} {φ : Pend} {q : List Body} {f' : Nat → Nat}
    (hw : p.Wired master) (hs : ctx.sender = master) (ho : isOrder b = true)
    (hv : (∃ m, b = .payRewards m) ∨ (∃ m, b = .payUnstake m) → PayRewardsTon ≤ ctx.value)
    (hb : p.Backed φ) (hl : Leads p.tierTotal φ (b :: q) f') :
    ∃ p' out φ', p.receive W ctx b = .ok (p', out) ∧ follow φ b = some φ' ∧ p'.Wired master
      ∧ p'.Backed φ' ∧ Leads p'.tierTotal φ' q f' := by
  obtain ⟨f₁, φ₁, hf, hφ, hq⟩ := hl.head
  have hfollow := hφ
  have hmaster : assertMaster ctx p = .ok () := by
    rw [assertMaster, require_pos hw.wired, ok_bind, require_pos (hs.trans hw.master.symm)]
  cases b with
  | incrementTotalStake d =>
      simp only [applyTotals] at hf
      split at hf
      · rename_i hd
        obtain rfl := Option.some.inj hf
        cases φ with
        | settled =>
            obtain rfl := Option.some.inj hφ
            refine ⟨{ p with totals := p.totals.insert d.tier (p.tierTotal d.tier + d.delta) }, [],
              .owesCredit d.delta, ?_, hfollow, ⟨hw.wired, hw.master⟩, ?_, ?_⟩
            · simp only [receive, receiveIncrementTotalStake, hmaster, ok_bind, assertTier,
                require_pos hd.1, require_pos hd.2, require_pos (Nat.le_add_right _ _)]
            · have hsum := sum_tiers_update (f := p.tierTotal) (p.tierTotal d.tier + d.delta) hd.1
              simp only [Backed, totalPrincipal, tierTotal_insert, Pend.gap] at hb ⊢
              omega
            · rw [tierTotal_insert]
              exact hq
        | owesCredit _ => cases hφ
        | owesDecrement _ => cases hφ
      · cases hf
  | decrementTotalStake d =>
      simp only [applyTotals] at hf
      split at hf
      · rename_i hd
        obtain rfl := Option.some.inj hf
        cases φ with
        | settled => cases hφ
        | owesCredit _ => cases hφ
        | owesDecrement n =>
            simp only [follow] at hφ
            split at hφ
            · rename_i hn
              obtain rfl := Option.some.inj hφ
              refine ⟨{ p with totals := p.totals.insert d.tier (p.tierTotal d.tier - d.delta) },
                [], .settled, ?_, hfollow, ⟨hw.wired, hw.master⟩, ?_, ?_⟩
              · simp only [receive, receiveDecrementTotalStake, hmaster, ok_bind, assertTier,
                  require_pos hd.1, require_pos hd.2.1, require_pos hd.2.2]
              · have hsum := sum_tiers_update (f := p.tierTotal) (p.tierTotal d.tier - d.delta) hd.1
                simp only [Backed, totalPrincipal, tierTotal_insert, Pend.gap] at hb ⊢
                omega
              · rw [tierTotal_insert]
                exact hq
            · cases hφ
      · cases hf
  | creditPoolBalance c =>
      obtain rfl := Option.some.inj hf
      have hc : 0 < c.delta ∧ φ₁ = .settled ∧ φ.gap ≤ c.delta := by
        cases φ with
        | settled =>
            simp only [follow] at hφ
            split at hφ
            · exact ⟨by assumption, (Option.some.inj hφ).symm, Nat.zero_le _⟩
            · cases hφ
        | owesCredit d =>
            simp only [follow] at hφ
            split at hφ
            · rename_i hd
              exact ⟨by omega, (Option.some.inj hφ).symm, hd.1.ge⟩
            · cases hφ
        | owesDecrement _ => cases hφ
      obtain ⟨hpos, rfl, hgap⟩ := hc
      refine ⟨{ p with pool_balance := p.pool_balance + c.delta }, [], .settled, ?_,
        hfollow, ⟨hw.wired, hw.master⟩, ?_, hq⟩
      · simp only [receive, receiveCreditPoolBalance, hmaster, ok_bind, require_pos hpos]
      · change p.totalPrincipal ≤ p.pool_balance + c.delta + 0
        simp only [Backed] at hb
        omega
  | payRewards r =>
      obtain rfl := Option.some.inj hf
      cases φ with
      | settled =>
          simp only [follow] at hφ
          split at hφ
          · rename_i hpos
            obtain rfl := Option.some.inj hφ
            have hval := hv (.inl ⟨r, rfl⟩)
            have hfund := p.rewardFunding_add hb
            have hcap := (p.cappedReward_le r.amount).2
            have hrun : p.receive W ctx (.payRewards r)
                = if p.cappedReward r.amount ≤ 0 then .ok (p, [ctx.cashback ctx.sender])
                  else .ok ({ p with pool_balance := p.pool_balance - p.cappedReward r.amount },
                    [payout W ctx p r.queryId (p.cappedReward r.amount) r.recipient]) := by
              simp only [receive, receivePayRewards, hmaster, ok_bind, require_pos hpos,
                require_pos hval]
            by_cases h0 : p.cappedReward r.amount ≤ 0
            · rw [if_pos h0] at hrun
              exact ⟨_, _, .settled, hrun, hfollow, hw, hb, hq⟩
            · rw [if_neg h0] at hrun
              refine ⟨{ p with pool_balance := p.pool_balance - p.cappedReward r.amount }, _,
                .settled, hrun, hfollow, ⟨hw.wired, hw.master⟩, ?_, hq⟩
              change p.totalPrincipal ≤ p.pool_balance - p.cappedReward r.amount + 0
              omega
          · cases hφ
      | owesCredit _ => cases hφ
      | owesDecrement _ => cases hφ
  | payUnstake u =>
      obtain rfl := Option.some.inj hf
      cases φ with
      | settled =>
          simp only [follow] at hφ
          split at hφ
          · rename_i hpos
            obtain rfl := Option.some.inj hφ
            have hval := hv (.inr ⟨u, rfl⟩)
            have hfund := p.rewardFunding_add hb
            have hcap := (p.cappedReward_le u.reward).2
            -- the decrement that follows in the queue says the principal is still counted
            have hle : u.principal ≤ p.totalPrincipal := by
              cases q with
              | nil => cases hq.pairs
              | cons b' q' =>
                  obtain ⟨f₂, φ₂, hf₂, hφ₂, -⟩ := hq.head
                  cases b' with
                  | decrementTotalStake d =>
                      simp only [follow] at hφ₂
                      split at hφ₂
                      · rename_i hd
                        simp only [applyTotals] at hf₂
                        split at hf₂
                        · rename_i hd'
                          have := p.le_totalPrincipal hd'.1
                          omega
                        · cases hf₂
                      · cases hφ₂
                  | _ => cases hφ₂
            have htot : u.principal + p.cappedReward u.reward ≤ p.pool_balance := by omega
            refine ⟨{ p with
                pool_balance := p.pool_balance - (u.principal + p.cappedReward u.reward) },
              [payout W ctx p u.queryId (u.principal + p.cappedReward u.reward) u.recipient],
              .owesDecrement u.principal, ?_, hfollow, ⟨hw.wired, hw.master⟩, ?_, hq⟩
            · simp only [receive, receivePayUnstake, hmaster, ok_bind, require_pos hpos,
                require_pos hval, require_pos htot]
            · change p.totalPrincipal
                ≤ p.pool_balance - (u.principal + p.cappedReward u.reward) + u.principal
              omega
          · cases hφ
      | owesCredit _ => cases hφ
      | owesDecrement _ => cases hφ
  | _ => cases ho

theorem assertMaster_eq_ok {u : Unit} (h : assertMaster ctx p = .ok u) :
    ctx.sender = p.stakingMaster := by
  simp only [assertMaster, bind_eq_ok, require_eq_ok, exists_const] at h
  exact h.2

/-- The fee an accrual message announces. -/
def feeOf : Body → Nat
  | .stakeFeeRewardsAccrue a => a.feeAmount
  | _ => 0

/-- Something else than an order was executed: the totals stay, and the balance
grows by at least the fees announced to the master. -/
structure Topped (p p' : StakingPool) (b : Body) (out : List Msg) : Prop where
  noOrder : isOrder b = false
  totals : p'.totals = p.totals
  minter : p'.jettonMinter = p.jettonMinter
  typed : ∀ r ∈ out, ∀ c, r.body ≠ .raw c
  fees : p.pool_balance + (out.map fun r => feeOf r.body).sum ≤ p'.pool_balance

theorem topped_of_silent (ho : isOrder b = false) (ht : p'.totals = p.totals)
    (hm : p'.jettonMinter = p.jettonMinter) (hb : p.pool_balance ≤ p'.pool_balance)
    (hout : ∀ r ∈ out, (∀ c, r.body ≠ .raw c) ∧ feeOf r.body = 0) : Topped p p' b out := by
  refine ⟨ho, ht, hm, fun r hr => (hout r hr).1, ?_⟩
  rw [List.sum_eq_zero]
  · exact hb
  · intro n hn
    obtain ⟨r, hr, rfl⟩ := List.mem_map.mp hn
    exact (hout r hr).2

/-- Only orders of the master touch the totals or lower the balance. -/
theorem receive_other {master : Address} (hw : p.Wired master)
    (hno : isOrder b = false ∨ ctx.sender ≠ master)
    (hrelay : ∀ q fee, b = .relayStakeFeeAccrual q fee → ctx.sender ≠ master)
    (h : p.receive W ctx b = .ok (p', out)) : p'.Wired master ∧ Topped p p' b out := by
  have hforeign : ∀ {u : Unit}, isOrder b = true → assertMaster ctx p = .ok u → False := by
    intro u hb hm
    rcases hno with hno | hno
    · rw [hb] at hno
      cases hno
    · exact hno ((assertMaster_eq_ok hm).trans hw.master)
  unfold receive at h
  split at h
  · obtain ⟨rfl, rfl⟩ := Prod.mk.inj (Except.ok.inj h)
    refine ⟨hw, topped_of_silent rfl rfl rfl (le_refl _) fun r hr => ?_⟩
    split at hr
    · obtain rfl := List.mem_singleton.mp hr
      exact ⟨by simp [Ctx.cashback, Ctx.message], rfl⟩
    · cases hr
  · simp only [receiveJettonNotification, bind_eq_ok] at h
    obtain ⟨_, -, _, -, funding, -, h⟩ := h
    split at h
    · simp only [bind_eq_ok, Except.ok.injEq, Prod.mk.injEq] at h
      obtain ⟨_, -, rfl, rfl⟩ := h
      refine ⟨hw, topped_of_silent rfl rfl rfl (le_refl _) fun r hr => ?_⟩
      obtain rfl := List.mem_singleton.mp hr
      exact ⟨by simp [Ctx.message], rfl⟩
    · obtain ⟨rfl, rfl⟩ := Prod.mk.inj (Except.ok.inj h)
      refine ⟨⟨hw.wired, hw.master⟩, rfl, rfl, rfl, fun r hr => ?_, ?_⟩
      · obtain rfl := List.mem_singleton.mp hr
        simp [accrueToMaster, Ctx.message]
      · simp [accrueToMaster, Ctx.message, feeOf]
  · simp only [receiveWireStakingMaster, bind_eq_ok, require_eq_ok, exists_const] at h
    have h1 := h.1
    rw [hw.wired] at h1
    cases h1
  · simp only [receiveRelayStakeFeeAccrual, bind_eq_ok, Except.ok.injEq, Prod.mk.injEq] at h
    obtain ⟨_, hm, -⟩ := h
    exact absurd ((assertMaster_eq_ok hm).trans hw.master) (hrelay _ _ rfl)
  · simp only [receiveIncrementTotalStake, bind_eq_ok] at h
    exact (hforeign rfl h.choose_spec.1).elim
  · simp only [receiveDecrementTotalStake, bind_eq_ok] at h
    exact (hforeign rfl h.choose_spec.1).elim
  · simp only [receiveCreditPoolBalance, bind_eq_ok] at h
    exact (hforeign rfl h.choose_spec.1).elim
  · simp only [receivePayRewards, bind_eq_ok] at h
    exact (hforeign rfl h.choose_spec.1).elim
  · simp only [receivePayUnstake, bind_eq_ok] at h
    exact (hforeign rfl h.choose_spec.1).elim
  · simp only [receiveJettonTransferCommitFailed, bind_eq_ok, Except.ok.injEq, Prod.mk.injEq] at h
    obtain ⟨_, -, rfl, rfl⟩ := h
    exact ⟨⟨hw.wired, hw.master⟩,
      topped_of_silent rfl rfl rfl (Nat.le_add_right _ _) fun r hr => by cases hr⟩
  · cases h

theorem bounced_other {master : Address} (hw : p.Wired master) (b : Body) :
    (p.bounced b).Wired master ∧ (p.bounced b).totals = p.totals
      ∧ p.pool_balance ≤ (p.bounced b).pool_balance
      ∧ (p.bounced b).jettonMinter = p.jettonMinter := by
  unfold bounced
  split
  · exact ⟨⟨hw.wired, hw.master⟩, rfl, Nat.le_add_right _ _, rfl⟩
  · exact ⟨hw, rfl, le_refl _, rfl⟩

end StakingPool

end BurnedChats

import BurnedChats.Staking.Orders

/-!
# Voting power

A vote counts what the voter has locked beyond the end of the vote. Power is a
floored share of an amount, so the powers of several owners add up to at most
the power of their sum (`sum_lockedPower_le`), and what is locked beyond a time
that has not come yet can only grow, as long as the terms of the tiers stay and
no stake is merged into a longer lock than its own (`did_lockedPower`).
-/

namespace BurnedChats

namespace StakingMaster

variable {ctx : Ctx} {s s' : StakingMaster} {b : Body} {out : List Msg} {E : Nat}

/-! ## Powers -/

/-- The multiplier of a tier, as the master has it cached. -/
def multiplierOf (s : StakingMaster) (t : Nat) : Nat :=
  ((s.tierConfigs.lookup t).map (·.multiplier)).getD 0

/-- What `who` has locked beyond `E` in tier `t`. -/
def lockedAmount (s : StakingMaster) (E t : Nat) (who : Address) : Nat :=
  match s.stakesMapGet t who with
  | some stake => if E < stake.unlockTime then stake.amount else 0
  | none => 0

def lockedPower (s : StakingMaster) (E : Nat) (who : Address) : Nat :=
  (tiers.map fun t => tierVotingPowerFromAmount (s.lockedAmount E t who) (s.multiplierOf t)).sum

def totalPower (s : StakingMaster) : Nat :=
  (tiers.map fun t => tierVotingPowerFromAmount (s.tierTotalStake t) (s.multiplierOf t)).sum

/-- Every position is stored under its own tier. -/
def Tagged (s : StakingMaster) : Prop :=
  ∀ t who stake, s.stakesMapGet t who = some stake → stake.tier = t

/-- Every tier has a row. -/
def Configured (s : StakingMaster) : Prop := ∀ t ∈ tiers, (s.tierConfigs.lookup t).isSome = true

theorem tierCfg_multiplier {t : Nat} {cfg : TierConfig} (h : s.tierCfg t = .ok cfg) :
    cfg.multiplier = s.multiplierOf t := by
  simp [multiplierOf, (tierCfg_eq_ok h).2]

theorem power_zero (m : Nat) : tierVotingPowerFromAmount 0 m = 0 := by
  simp [tierVotingPowerFromAmount]

/-- What the master relays is the locked power. -/
theorem computeOwnerVotingPowerLockedBeyond_eq {who : Address} {vp : Nat} (htag : s.Tagged)
    (h : s.computeOwnerVotingPowerLockedBeyond who E = .ok vp) : vp = s.lockedPower E who := by
  suffices key : ∀ ts vp, s.ownerVotingPower who (fun stake => decide (E < stake.unlockTime)) ts
      = .ok vp → vp = (ts.map fun t =>
        tierVotingPowerFromAmount (s.lockedAmount E t who) (s.multiplierOf t)).sum from
    key tiers vp h
  intro ts
  induction ts with
  | nil =>
      intro vp h
      exact (Except.ok.inj h).symm
  | cons t ts ih =>
      intro vp h
      simp only [ownerVotingPower, bind_eq_ok, Except.ok.injEq] at h
      obtain ⟨head, hhead, rest, hrest, rfl⟩ := h
      rw [List.map_cons, List.sum_cons, ← ih rest hrest]
      congr 1
      unfold lockedAmount
      split at hhead
      · rename_i hnone
        rw [hnone, power_zero]
        exact (Except.ok.inj hhead).symm
      · rename_i stake hsome
        rw [hsome]
        split at hhead
        · rename_i hcount
          simp only [bind_eq_ok, Except.ok.injEq] at hhead
          obtain ⟨cfg, hcfg, rfl⟩ := hhead
          rw [htag t who stake hsome] at hcfg
          simp only [decide_eq_true_eq] at hcount
          simp only [hcount.2, if_true, tierCfg_multiplier hcfg]
        · rename_i hcount
          obtain rfl := Except.ok.inj hhead
          simp only [decide_eq_true_eq, not_and] at hcount
          by_cases hE : E < stake.unlockTime
          · have h0 : stake.amount = 0 := by
              by_contra hne
              exact hcount (Nat.pos_of_ne_zero hne) hE
            simp [hE, h0, power_zero]
          · simp [hE, power_zero]

theorem Configured.tierCfg (hc : s.Configured) {t : Nat} (ht : t ∈ tiers) :
    ∃ cfg, s.tierCfg t = .ok cfg := by
  obtain ⟨cfg, hcfg⟩ := Option.isSome_iff_exists.mp (hc t ht)
  refine ⟨cfg, ?_⟩
  simp only [StakingMaster.tierCfg, assertTier]
  rw [require_pos (mem_tiers.mp ht), ok_bind]
  simp only [hcfg]

theorem computeTotalVotingPower_eq (hc : s.Configured) :
    s.computeTotalVotingPower = .ok s.totalPower := by
  suffices key : ∀ ts, (∀ t ∈ ts, t ∈ tiers) → s.totalVotingPower ts = .ok (ts.map fun t =>
      tierVotingPowerFromAmount (s.tierTotalStake t) (s.multiplierOf t)).sum from
    key tiers fun _ h => h
  intro ts
  induction ts with
  | nil => exact fun _ => rfl
  | cons t ts ih =>
      intro hts
      have ht := hts t (List.mem_cons_self ..)
      obtain ⟨cfg, hok⟩ := hc.tierCfg ht
      have hm := tierCfg_multiplier hok
      simp only [totalVotingPower, ih fun u hu => hts u (List.mem_cons_of_mem _ hu), List.map_cons,
        List.sum_cons]
      split
      · simp only [hok, ok_bind, hm]
      · rename_i h0
        have h0 : s.tierTotalStake t = 0 := by omega
        simp only [h0, power_zero, ok_bind]

/-- The power of an owner can always be computed. -/
theorem computeOwnerVotingPower_ok (hc : s.Configured) (htag : s.Tagged) (who : Address) :
    ∃ vp, s.computeOwnerVotingPower who = .ok vp := by
  suffices key : ∀ ts, (∀ t ∈ ts, t ∈ tiers) →
      ∃ vp, s.ownerVotingPower who (fun _ => true) ts = .ok vp from key tiers fun _ h => h
  intro ts
  induction ts with
  | nil => exact fun _ => ⟨0, rfl⟩
  | cons t ts ih =>
      intro hts
      obtain ⟨rest, hrest⟩ := ih fun u hu => hts u (List.mem_cons_of_mem _ hu)
      obtain ⟨cfg, hcfg⟩ := hc.tierCfg (hts t (List.mem_cons_self ..))
      simp only [ownerVotingPower, hrest]
      split
      · exact ⟨_, rfl⟩
      · rename_i stake hstake
        rw [htag t who stake hstake, hcfg]
        split
        · exact ⟨_, rfl⟩
        · exact ⟨_, rfl⟩

/-! ## Adding up -/

theorem power_add_le (a a' m : Nat) :
    tierVotingPowerFromAmount a m + tierVotingPowerFromAmount a' m
      ≤ tierVotingPowerFromAmount (a + a') m := by
  unfold tierVotingPowerFromAmount
  rw [Nat.add_mul]
  exact Nat.div_add_div_le_add_div

theorem power_mono {a a' m : Nat} (h : a ≤ a') :
    tierVotingPowerFromAmount a m ≤ tierVotingPowerFromAmount a' m := by
  unfold tierVotingPowerFromAmount
  exact Nat.div_le_div_right (Nat.mul_le_mul_right m h)

theorem lockedAmount_le_held (E t : Nat) (who : Address) :
    s.lockedAmount E t who ≤ s.held t who := by
  unfold lockedAmount held
  cases s.stakesMapGet t who with
  | none => exact Nat.le_refl _
  | some stake =>
      simp only [Option.map_some, Option.getD_some]
      split <;> omega

/-- The positions of different owners are different parts of the total. -/
theorem sum_held_le (t : Nat) {owners : List Address} (h : owners.Nodup) :
    (owners.map (s.held t)).sum ≤ s.staked t := by
  have hkeys : (owners.map fun who => (t, who)).Nodup :=
    h.map fun a a' haa' => (Prod.mk.inj haa').2
  have hle := Table.sum_at?_le (f := fun k (v : StakeInfoView) => if k.1 = t then v.amount else 0)
    hkeys s.stakes
  rw [List.map_map] at hle
  refine le_of_eq_of_le ?_ hle
  congr 1
  refine List.map_congr_left fun who _ => ?_
  simp only [Function.comp_apply, at?_held, if_true]

/-- No owners together have more power than there is. -/
theorem sum_lockedPower_le (ht : s.Tallied) {owners : List Address} (h : owners.Nodup) :
    (owners.map (s.lockedPower E)).sum ≤ s.totalPower := by
  have hadd : ∀ (owners : List Address) (ts : List Nat),
      (owners.map fun who => (ts.map fun t =>
          tierVotingPowerFromAmount (s.lockedAmount E t who) (s.multiplierOf t)).sum).sum
        ≤ (ts.map fun t => tierVotingPowerFromAmount
          ((owners.map fun who => s.lockedAmount E t who).sum) (s.multiplierOf t)).sum := by
    intro owners ts
    induction owners with
    | nil => simp
    | cons who owners ih =>
        rw [List.map_cons, List.sum_cons]
        refine (Nat.add_le_add_left ih _).trans ?_
        rw [← List.sum_map_add]
        exact List.sum_le_sum fun t _ => power_add_le _ _ _
  refine (hadd owners tiers).trans (List.sum_le_sum fun t _ => power_mono ?_)
  rw [ht t]
  exact (List.sum_le_sum fun who _ => lockedAmount_le_held E t who).trans (sum_held_le t h)

/-! ## Keeping what is locked -/

/-- Duration and multiplier of every tier. -/
def terms (s : StakingMaster) : List (Option (Nat × Nat)) :=
  tiers.map fun t => (s.tierConfigs.lookup t).map fun cfg => (cfg.durationSeconds, cfg.multiplier)

/-- A stake that is merged into a position locked beyond `E` is itself locked beyond
`E`. -/
def keepsLocks (E : Nat) (ctx : Ctx) (s : StakingMaster) : Body → Bool
  | .jettonNotification msg =>
      decide (ctx.sender ≠ s.stakingJettonWallet)
        || match stakeVerdict ctx s msg with
          | .ok (.accept tier) =>
              match s.stakesMapGet tier msg.sender, s.tierConfigs.lookup tier with
              | some old, some cfg =>
                  decide (old.unlockTime ≤ E) || decide (E < ctx.now + cfg.durationSeconds)
              | _, _ => true
          | _ => true
  | _ => true

theorem lockedAmount_congr {t : Nat} {who : Address}
    (h : s'.stakesMapGet t who = s.stakesMapGet t who) :
    s'.lockedAmount E t who = s.lockedAmount E t who := by
  unfold lockedAmount
  rw [h]

/-- Nothing locked beyond `E` is released before `E`. -/
theorem did_lockedAmount (h : Did ctx s b s' out) (hE : ctx.now ≤ E)
    (hlocks : keepsLocks E ctx s b = true) (t : Nat) (who : Address) :
    s.lockedAmount E t who ≤ s'.lockedAmount E t who := by
  have hsame : s'.stakes = s.stakes → s.lockedAmount E t who ≤ s'.lockedAmount E t who := by
    intro hst
    refine (lockedAmount_congr ?_).ge
    rw [stakesMapGet, stakesMapGet, hst]
  cases h with
  | @stake msg tier s₁ _ cfg info hsrc hv _ _ htick hcfg hamt _ hun =>
      have hget : (s₁.rebased tier msg.sender info
          (s.tierTotalStake tier + msg.amount)).stakesMapGet t who
          = if (t, who) = (tier, msg.sender) then some info else s.stakesMapGet t who := by
        rw [stakesMapGet, rebased, Table.lookup_insert_of, (tickEmission_frame htick).2.1]
        rfl
      by_cases hk : (t, who) = (tier, msg.sender)
      · obtain ⟨rfl, rfl⟩ := Prod.mk.inj hk
        rw [if_pos rfl] at hget
        cases hold : s.stakesMapGet t msg.sender with
        | none => simp only [lockedAmount, hold, Nat.zero_le]
        | some old =>
            simp only [keepsLocks, hsrc, hv, hold, hcfg, ne_eq, not_true_eq_false, decide_false,
              Bool.false_or, Bool.or_eq_true, decide_eq_true_eq] at hlocks
            simp only [held, hold, Option.map_some, Option.getD_some] at hamt
            simp only [lockedAmount, hold, hget, hun, hamt]
            split
            · split <;> omega
            · exact Nat.zero_le _
      · rw [if_neg hk] at hget
        exact (lockedAmount_congr hget).ge
  | @unstake msg s₁ _ cur htick _ _ hcur _ hun _ =>
      have hst := (tickEmission_frame htick).2.1
      by_cases hk : (t, who) = (msg.tier, ctx.sender)
      · obtain ⟨rfl, rfl⟩ := Prod.mk.inj hk
        have h0 : s.lockedAmount E msg.tier ctx.sender = 0 := by
          simp only [lockedAmount, hcur]
          rw [if_neg (by omega)]
        rw [h0]
        exact Nat.zero_le _
      · refine (lockedAmount_congr ?_).ge
        unfold remainder
        split
        · rw [stakesMapGet, closed, Table.lookup_erase_of, if_neg hk, hst]
          rfl
        · rw [stakesMapGet, rebased, Table.lookup_insert_of, if_neg hk, hst]
          rfl
  | @claim msg s₁ _ cur htick _ hcur _ =>
      have hst := (tickEmission_frame htick).2.1
      by_cases hk : (t, who) = (msg.tier, ctx.sender)
      · obtain ⟨rfl, rfl⟩ := Prod.mk.inj hk
        rw [stakesMapGet] at hcur
        simp only [lockedAmount, stakesMapGet, hcur, AList.lookup_insert, le_refl]
      · refine (lockedAmount_congr ?_).ge
        rw [stakesMapGet, Table.lookup_insert_of, if_neg hk, hst]
        rfl
  | accrue _ happ =>
      obtain ⟨-, r, rfl, -, -⟩ := applyStakeFeeSlices_spec happ
      exact hsame rfl
  | sync | fund | relay | snapshot | quiet => exact hsame rfl

theorem did_tierConfigs (h : Did ctx s b s' out) :
    s'.tierConfigs = s.tierConfigs
      ∨ ∃ t cfg, s'.tierConfigs = s.tierConfigs.insert t cfg := by
  cases h with
  | stake _ _ _ _ htick => exact .inl (tickEmission_frame htick).2.2.2.2.1
  | @unstake msg s₁ _ cur htick =>
      refine .inl (Eq.trans ?_ (tickEmission_frame htick).2.2.2.2.1)
      unfold remainder
      split <;> rfl
  | claim htick => exact .inl (tickEmission_frame htick).2.2.2.2.1
  | accrue _ happ =>
      obtain ⟨-, r, rfl, -, -⟩ := applyStakeFeeSlices_spec happ
      exact .inl rfl
  | sync => exact .inr ⟨_, _, rfl⟩
  | fund | relay | snapshot | quiet => exact .inl rfl

theorem multiplierOf_of_terms (h : s'.terms = s.terms) {t : Nat} (ht : t ∈ tiers) :
    s'.multiplierOf t = s.multiplierOf t := by
  have hrow := List.map_inj_left.mp h t ht
  unfold multiplierOf
  cases h' : s'.tierConfigs.lookup t <;> cases h₀ : s.tierConfigs.lookup t <;>
    simp [h', h₀] at hrow ⊢
  exact hrow.2

theorem did_lockedPower (h : Did ctx s b s' out) (hE : ctx.now ≤ E) (hterms : s'.terms = s.terms)
    (hlocks : keepsLocks E ctx s b = true) (who : Address) :
    s.lockedPower E who ≤ s'.lockedPower E who := by
  refine List.sum_le_sum fun t ht => ?_
  rw [multiplierOf_of_terms hterms ht]
  exact power_mono (did_lockedAmount h hE hlocks t who)

theorem did_configured (h : Did ctx s b s' out) (hc : s.Configured) : s'.Configured := by
  intro t ht
  rcases did_tierConfigs h with heq | ⟨u, cfg, heq⟩
  · rw [heq]
    exact hc t ht
  · rw [heq, Table.lookup_insert_of]
    split
    · rfl
    · exact hc t ht

theorem did_tagged (h : Did ctx s b s' out) (htag : s.Tagged) : s'.Tagged := by
  have hinsert : ∀ (t : Nat) (who : Address) (info : StakeInfoView), info.tier = t →
      s'.stakes = s.stakes.insert (t, who) info → s'.Tagged := by
    intro t who info hinfo hst u v stake hget
    rw [stakesMapGet, hst, Table.lookup_insert_of] at hget
    split at hget
    · rename_i hk
      obtain ⟨rfl, rfl⟩ := Prod.mk.inj hk
      obtain rfl := Option.some.inj hget
      exact hinfo
    · exact htag u v stake hget
  have hsame : s'.stakes = s.stakes → s'.Tagged := by
    intro hst u v stake hget
    rw [stakesMapGet, hst] at hget
    exact htag u v stake hget
  cases h with
  | @stake msg tier s₁ _ _ info _ _ _ _ htick _ _ hinfo _ =>
      refine hinsert tier msg.sender info hinfo ?_
      rw [rebased, (tickEmission_frame htick).2.1]
  | @unstake msg s₁ _ cur htick _ _ hcur _ _ _ =>
      have hst := (tickEmission_frame htick).2.1
      by_cases h0 : cur.amount - msg.amount = 0
      · intro u v stake hget
        rw [remainder, if_pos h0, stakesMapGet, closed, Table.lookup_erase_of, hst] at hget
        split at hget
        · cases hget
        · exact htag u v stake hget
      · have hcur := htag _ _ _ hcur
        refine hinsert msg.tier ctx.sender { cur with amount := cur.amount - msg.amount } hcur ?_
        rw [remainder, if_neg h0, rebased, hst]
  | @claim msg s₁ _ cur htick _ hcur _ =>
      have hcur := htag _ _ _ hcur
      refine hinsert msg.tier ctx.sender { cur with lastClaimTime := ctx.now } hcur ?_
      rw [(tickEmission_frame htick).2.1]
  | accrue _ happ =>
      obtain ⟨-, r, rfl, -, -⟩ := applyStakeFeeSlices_spec happ
      exact hsame rfl
  | sync | fund | relay | snapshot | quiet => exact hsame rfl

end StakingMaster

end BurnedChats

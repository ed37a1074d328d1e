import BurnedChats.Staking.Runs

/-!
# Emission

A tick cuts what it distributes to the schedule, the budget and the funding, and
then hands out percentages of it. It records the sum of what it handed out, so
the three bounds survive a tick exactly when the percentages of the tiers that
receive something add up to at most 100. The percentages are a copy of the
lock's table, refreshed one row at a time: between two rows they can add up to
more, and then a tick exceeds the funding (`emission_exceeds_funding`).
-/

namespace BurnedChats

open Network

namespace StakingMaster

variable {ctx : Ctx} {s s' s₁ : StakingMaster} {b : Body} {out ticked : List Msg}

/-- The cached shares of the tiers that have stake, together. -/
def activeShares (s : StakingMaster) : Nat :=
  (tiers.map fun t => if s.tierTotalStake t = 0 then 0 else s.cachedShare t).sum

/-- A tick at `now` has something to distribute. -/
def EmissionDue (s : StakingMaster) (now : Nat) : Prop :=
  s.emissionStartTime ≠ 0 ∧ s.lastEmitTime + EmitMinIntervalSec ≤ now
    ∧ s.emittedSoFar < s.emissionFunded ∧ s.emittedSoFar < TotalEmissionNano

instance (s : StakingMaster) (now : Nat) : Decidable (s.EmissionDue now) :=
  inferInstanceAs (Decidable (_ ∧ _ ∧ _ ∧ _))

theorem emissionPending_eq (s : StakingMaster) (elapsed : Int) :
    s.emissionPending elapsed = min ((s.emissionFunded : Int) - s.emittedSoFar)
      (min ((TotalEmissionNano : Int) - s.emittedSoFar) (elapsed * EmissionNanoPerSec)) := by
  have hmin : ∀ a b : Int, (if a < b then a else b) = min a b := by
    intro a b
    split <;> omega
  simp only [emissionPending, hmin]

theorem tickFee_cases (ctx : Ctx) (s : StakingMaster) :
    tickFee ctx s = 0
      ∨ (s.emissionStartTime ≠ 0 ∧ (EmitMinIntervalSec : Int) ≤ (ctx.now : Int) - s.lastEmitTime
        ∧ tickFee ctx s = (s.emissionPending ((ctx.now : Int) - s.lastEmitTime)).toNat) := by
  unfold tickFee
  split
  · exact .inl rfl
  · split
    · exact .inl rfl
    · split
      · exact .inl rfl
      · exact .inr ⟨by assumption, by omega, rfl⟩

theorem tickFee_of_not_due (h : ¬ s.EmissionDue ctx.now) : tickFee ctx s = 0 := by
  rcases tickFee_cases ctx s with h0 | ⟨hst, hel, hfee⟩
  · exact h0
  · rw [hfee, emissionPending_eq]
    refine Int.toNat_eq_zero.mpr ?_
    simp only [EmissionDue, not_and_or, not_lt, not_le, ne_eq, not_not] at h
    rcases h with h | h | h | h <;> omega

/-- What a tick distributes respects the schedule, the budget and the funding. -/
theorem tickFee_le (hclock : s.lastEmitTime ≤ ctx.now) (hb : s.emittedSoFar ≤ TotalEmissionNano)
    (hf : s.emittedSoFar ≤ s.emissionFunded) :
    s.emittedSoFar + tickFee ctx s ≤ TotalEmissionNano
      ∧ s.emittedSoFar + tickFee ctx s ≤ s.emissionFunded
      ∧ tickFee ctx s ≤ 3170 * (ctx.now - s.lastEmitTime) := by
  rcases tickFee_cases ctx s with h0 | ⟨-, -, hfee⟩
  · omega
  · rw [hfee, emissionPending_eq, EmissionNanoPerSec]
    omega

theorem slices_le (s : StakingMaster) (fee : Nat) :
    100 * (tiers.map (s.appliedSlice fee)).sum ≤ fee * s.activeShares := by
  have hone : ∀ t, 100 * s.appliedSlice fee t
      ≤ fee * if s.tierTotalStake t = 0 then 0 else s.cachedShare t := by
    intro t
    unfold appliedSlice
    split
    · simp
    · exact Nat.mul_div_le _ _
  simp only [activeShares, tiers, List.map_cons, List.map_nil, List.sum_cons, List.sum_nil,
    Nat.mul_add]
  have h0 := hone 0
  have h1 := hone 1
  have h2 := hone 2
  have h3 := hone 3
  omega

/-- A tick credits no more than it distributes while the shares fit. -/
theorem tickCredit_le (h : s.EmissionDue ctx.now → s.activeShares ≤ 100) :
    tickCredit ctx s ≤ tickFee ctx s := by
  by_cases hd : s.EmissionDue ctx.now
  · have h1 := slices_le s (tickFee ctx s)
    have h2 : tickFee ctx s * s.activeShares ≤ tickFee ctx s * 100 :=
      Nat.mul_le_mul_left _ (h hd)
    unfold tickCredit
    omega
  · simp [tickCredit, tickFee_of_not_due hd, appliedSlice_zero, tiers]

/-! ## The log -/

/-- The credits to the pool among some messages. -/
def creditsIn (out : List Msg) : Nat :=
  (out.map fun r =>
    match r.body with
    | .creditPoolBalance c => c.delta
    | _ => 0).sum

/-- Adds the credits the tick of an accepted execution sends. -/
def emissionEntry (ctx : Ctx) (s : StakingMaster) (b : Body) (_ : StakingMaster) (_ : List Body)
    (credited : Nat) : Nat :=
  match actsOn ctx s b, tickEmission ctx s with
  | some _, .ok (_, ticked) => credited + creditsIn ticked
  | _, _ => credited

theorem creditsIn_tick (h : tickEmission ctx s = .ok (s₁, ticked)) :
    creditsIn ticked = tickCredit ctx s := by
  obtain ⟨r, -, -, rfl⟩ := tickEmission_spec h
  split
  · rfl
  · rename_i h0
    exact (Nat.eq_zero_of_not_pos h0).symm

theorem emissionEntry_tick {t n : Nat} {bodies : List Body} (hb : actsOn ctx s b = some t)
    (h : tickEmission ctx s = .ok (s₁, ticked)) :
    emissionEntry ctx s b s' bodies n = n + tickCredit ctx s := by
  simp only [emissionEntry, hb, h, creditsIn_tick h]

/-- Emission is bounded by the schedule, the budget and the funding, and is what
the pool was credited. -/
structure EmissionBounded (s : StakingMaster) (credited : Nat) : Prop where
  funded : s.emittedSoFar ≤ s.emissionFunded
  budget : s.emittedSoFar ≤ TotalEmissionNano
  schedule : (s.emittedSoFar : Int)
    ≤ EmissionNanoPerSec * ((s.lastEmitTime : Int) - s.emissionStartTime)
  credited : s.emittedSoFar = credited

/-- The bounds with what keeps them: the clock has not run ahead, and nothing was
emitted before it started. -/
structure Emitting (now : Nat) (s : StakingMaster) (credited : Nat) : Prop
    extends EmissionBounded s credited where
  clock : s.emissionStartTime ≤ s.lastEmitTime ∧ s.lastEmitTime ≤ now
  unstarted : s.emissionStartTime = 0 → s.emittedSoFar = 0

theorem Emitting.wait {now n : Nat} (h : Emitting now s n) (d : Nat) : Emitting (now + d) s n :=
  ⟨h.toEmissionBounded, ⟨h.clock.1, by have := h.clock.2; omega⟩, h.unstarted⟩

/-- Only the funding changed, if anything, and it still covers the emission. -/
theorem Emitting.congr {now n : Nat} (h : Emitting now s n)
    (he : s'.emittedSoFar = s.emittedSoFar) (hf : s.emittedSoFar ≤ s'.emissionFunded)
    (hs : s'.emissionStartTime = s.emissionStartTime) (hl : s'.lastEmitTime = s.lastEmitTime) :
    Emitting now s' n := by
  refine ⟨⟨?_, ?_, ?_, ?_⟩, ?_, ?_⟩
  · exact he ▸ hf
  · exact he ▸ h.budget
  · rw [he, hs, hl]
    exact h.schedule
  · exact he ▸ h.credited
  · rw [hs, hl]
    exact h.clock
  · rw [hs, he]
    exact h.unstarted

theorem Emitting.tick {n : Nat} (h : Emitting ctx.now s n)
    (hfit : s.EmissionDue ctx.now → s.activeShares ≤ 100)
    (ht : tickEmission ctx s = .ok (s₁, ticked)) :
    Emitting ctx.now s₁ (n + tickCredit ctx s) := by
  have hle := tickCredit_le hfit
  obtain ⟨hb, hf, hrate⟩ := tickFee_le h.clock.2 h.budget h.funded
  have hsched := h.schedule
  have hcred := h.credited
  have hclk := h.clock
  have hun := h.unstarted
  have hfee := tickFee_cases ctx s
  obtain ⟨r, rfl, -, -⟩ := tickEmission_spec ht
  simp only [EmissionNanoPerSec] at hsched
  have hclock : (clockAfter ctx s = (ctx.now, ctx.now) ∧ s.emissionStartTime = 0)
      ∨ (clockAfter ctx s = (s.emissionStartTime, s.lastEmitTime)
        ∧ (ctx.now : Int) - s.lastEmitTime < EmitMinIntervalSec)
      ∨ clockAfter ctx s = (s.emissionStartTime, ctx.now) := by
    unfold clockAfter
    split
    · exact .inl ⟨rfl, by assumption⟩
    · split
      · exact .inr (.inl ⟨rfl, by assumption⟩)
      · exact .inr (.inr rfl)
  rcases hclock with ⟨hc, h0⟩ | ⟨hc, h0⟩ | hc
  · refine ⟨⟨?_, ?_, ?_, ?_⟩, ?_, ?_⟩ <;> simp only [hc, EmissionNanoPerSec] <;> omega
  · refine ⟨⟨?_, ?_, ?_, ?_⟩, ?_, ?_⟩ <;> simp only [hc, EmissionNanoPerSec] <;> omega
  · refine ⟨⟨?_, ?_, ?_, ?_⟩, ?_, ?_⟩ <;> simp only [hc, EmissionNanoPerSec] <;> omega

theorem did_emitting {n : Nat} (h : Did ctx s b s' out) (hI : Emitting ctx.now s n)
    (hfit : (actsOn ctx s b).isSome = true → s.EmissionDue ctx.now → s.activeShares ≤ 100) :
    Emitting ctx.now s' (emissionEntry ctx s b s' (out.map (·.body)) n) := by
  have hidle : actsOn ctx s b = none → ∀ bodies, emissionEntry ctx s b s' bodies n = n := by
    intro hb bodies
    simp only [emissionEntry, hb]
  cases h with
  | @stake msg tier s₁ ticked _ _ _ hv _ _ htick =>
      have hact : actsOn ctx s (.jettonNotification msg) = some tier := by simp [actsOn, hv]
      rw [emissionEntry_tick hact htick]
      have hticked := hI.tick (hfit (by simp [hact])) htick
      exact hticked.congr rfl hticked.funded rfl rfl
  | unstake htick =>
      rw [emissionEntry_tick rfl htick]
      have hticked := hI.tick (hfit rfl) htick
      unfold remainder
      split
      · exact hticked.congr rfl hticked.funded rfl rfl
      · exact hticked.congr rfl hticked.funded rfl rfl
  | claim htick =>
      rw [emissionEntry_tick rfl htick]
      have hticked := hI.tick (hfit rfl) htick
      exact hticked.congr rfl hticked.funded rfl rfl
  | accrue _ happ =>
      obtain ⟨-, r, rfl, -⟩ := applyStakeFeeSlices_spec happ
      rw [hidle rfl]
      exact hI.congr rfl hI.funded rfl rfl
  | sync =>
      rw [hidle rfl]
      exact hI.congr rfl hI.funded rfl rfl
  | @fund q amount =>
      rw [hidle rfl]
      refine hI.congr rfl ?_ rfl rfl
      exact le_min (hI.funded.trans (Nat.le_add_right _ _)) hI.budget
  | relay =>
      rw [hidle rfl]
      exact hI
  | snapshot =>
      rw [hidle rfl]
      exact hI
  | quiet hb =>
      rw [hidle hb]
      exact hI.congr rfl hI.funded rfl rfl

end StakingMaster

open StakingMaster

/-! ## Whole runs -/

variable {D : Deployment} {modelled : Part → Bool} {ordered : Address → Address → Bool}

abbrev emissionRecorder (D : Deployment) : Machine.Recorder Address Body Gas World Nat :=
  masterRecorder D emissionEntry

/-- Whenever a stake, an unstake or a claim reaches the master with emission due,
the cached shares of the tiers with stake add up to at most 100. -/
def SharesFit (D : Deployment) (w : World) (now : Nat) (g : Gas) (m : Msg) : Prop :=
  m.dst = D.S → (actsOn (Ctx.of g now m) w.sm (D.opened m.body)).isSome = true →
    w.sm.EmissionDue now → w.sm.activeShares ≤ 100

instance (D : Deployment) (w : World) (now : Nat) (g : Gas) (m : Msg) :
    Decidable (SharesFit D w now g m) :=
  inferInstanceAs (Decidable (_ → _ → _ → _))

/-- Before the first tick. -/
structure EmissionStart (s : StakingMaster) : Prop where
  start : s.emissionStartTime = 0
  last : s.lastEmitTime = 0
  emitted : s.emittedSoFar = 0

theorem EmissionStart.emitting {s : StakingMaster} (h : EmissionStart s) (now : Nat) :
    Emitting now s 0 := by
  obtain ⟨h1, h2, h3⟩ := h
  refine ⟨⟨?_, ?_, ?_, ?_⟩, ?_, ?_⟩ <;> simp [h1, h2, h3]

/-- **Emission is bounded** in every run in which the shares fit at every tick. -/
theorem emission_bounded {c₀ c : WorldConf} {credited : Nat} (h₀ : EmissionStart c₀.st.sm)
    (h : (network D modelled ordered).Logged (Meets (SharesFit D)) (emissionRecorder D)
      c₀ 0 c credited) :
    EmissionBounded c.st.sm credited := by
  have htracks : (network D modelled ordered).Tracks (Meets (SharesFit D)) (emissionRecorder D)
      fun c n => Emitting c.now c.st.sm n := by
    refine master_tracks (I := Emitting) (fun _ _ h => h) (fun _ d _ _ h => h.wait d) ?_
    intro g now m w s' out n hfit hd _ hdid hI
    exact did_emitting hdid hI fun hact hdue => hfit hd hact hdue
  exact (h.invariant htracks (h₀.emitting c₀.now)).toEmissionBounded

/-- Master, pool and lock are modelled. -/
def stakingContracts : Part → Bool
  | .stakingMaster | .stakingPool | .stakingLock => true
  | _ => false

/-- The wallet of the pool reports jettons for the emission reserve. -/
def fundNotice (amount : Nat) : Msg where
  src := poolWallet
  dst := D₀.P
  value := milliTon 5000
  bounce := false
  bounced := false
  deploy := false
  body := .jettonNotification
    { queryId := 0, amount, sender := bootstrapOwner
      forwardPayload := ⟨[true], [.mk (natToBits 32 EmissionFundForward.opcode) []]⟩ }

/-- The reserve gets 1000 nano, account 3 stakes in tiers 0 and 3, and a day
later the timelock gives all rewards to tier 0. -/
def sharesMoved : List (Action Address Body Gas) :=
  [.send (fundNotice 1000),
   .deliver 0 (freeGas 0) true,
   .deliver 0 (freeGas 0) true,
   .send (stakeNotice 0 10000000 (account 3) (milliTon 5000)),
   .deliver 0 (freeGas 0) true,
   .send (stakeNotice 3 10000000 (account 3) (milliTon 5000)),
   .deliver 4 (freeGas 0) true,
   .wait 86400,
   .send (external D₀.T D₀.L (milliTon 1000)
     (.setAllTierRewardShares { queryId := 0, share0 := 100, share1 := 0, share2 := 0, share3 := 0 })),
   .deliver 8 (freeGas 0) true]

def claimTier0 : Msg :=
  external (account 3) D₀.S (milliTon 5000) (.claimRewards { queryId := 0, tier := 0 })

/-- All four rows arrive before the next tick. -/
theorem emission_bounded_claim :
    ∃ c n, (network D₀ stakingContracts fun _ _ => true).execWhile
        (fun c a => decide (Meets (SharesFit D₀) c a)) (emissionRecorder D₀) (bootstrapAt 1000) 0
        (sharesMoved ++ [.deliver 8 (freeGas 0) true, .deliver 8 (freeGas 0) true,
          .deliver 8 (freeGas 0) true, .deliver 8 (freeGas 0) true, .send claimTier0,
          .deliver 9 (freeGas 0) true]) = some (c, n)
      ∧ c.st.sm.emittedSoFar = 1000 ∧ c.st.sm.emissionFunded = 1000
      ∧ EmissionBounded c.st.sm n := by
  have hrun : ((network D₀ stakingContracts fun _ _ => true).execWhile
      (fun c a => decide (Meets (SharesFit D₀) c a)) (emissionRecorder D₀) (bootstrapAt 1000) 0
      (sharesMoved ++ [.deliver 8 (freeGas 0) true, .deliver 8 (freeGas 0) true,
        .deliver 8 (freeGas 0) true, .deliver 8 (freeGas 0) true, .send claimTier0,
        .deliver 9 (freeGas 0) true])).map
      (fun r => (r.1.st.sm.emittedSoFar, r.1.st.sm.emissionFunded)) = some (1000, 1000) := by
    decide +kernel
  obtain ⟨⟨c, n⟩, hc, hv⟩ := Option.map_eq_some_iff.mp hrun
  obtain ⟨h1, h2⟩ := Prod.mk.inj hv
  have hlogged := Machine.logged_of_execWhile (G := Meets (SharesFit D₀))
    (fun _ _ h => of_decide_eq_true h) hc
  exact ⟨c, n, hc, h1, h2, emission_bounded ⟨rfl, rfl, rfl⟩ hlogged⟩

/-- Only the first of the four rows has arrived when account 3 claims: the cached
shares are 100, 10, 25 and 60, and the tick distributes 1600 nano out of 1000. -/
theorem emission_exceeds_funding :
    ∃ c n, (network D₀ stakingContracts fun _ _ => true).execLogged (emissionRecorder D₀)
        (bootstrapAt 1000) 0
        (sharesMoved ++ [.deliver 8 (freeGas 0) true, .send claimTier0,
          .deliver 12 (freeGas 0) true]) = some (c, n)
      ∧ c.st.sm.emittedSoFar = 1600 ∧ c.st.sm.emissionFunded = 1000
      ∧ ¬ EmissionBounded c.st.sm n := by
  have hrun : ((network D₀ stakingContracts fun _ _ => true).execLogged (emissionRecorder D₀)
      (bootstrapAt 1000) 0
      (sharesMoved ++ [.deliver 8 (freeGas 0) true, .send claimTier0,
        .deliver 12 (freeGas 0) true])).map
      (fun r => (r.1.st.sm.emittedSoFar, r.1.st.sm.emissionFunded)) = some (1600, 1000) := by
    decide +kernel
  obtain ⟨⟨c, n⟩, hc, hv⟩ := Option.map_eq_some_iff.mp hrun
  obtain ⟨h1, h2⟩ : c.st.sm.emittedSoFar = 1600 ∧ c.st.sm.emissionFunded = 1000 :=
    Prod.mk.inj hv
  refine ⟨c, n, hc, h1, h2, fun h => ?_⟩
  have hle := h.funded
  omega

end BurnedChats

import BurnedChats.Jetton.Excluded

/-!
# Configurations on their way to the wallets

What the timelock sets in the master reaches the wallets as a message that each
wallet validates again, packs into a cell of fixed-width fields and later parses.
Two questions are settled here. Does a valid gas configuration ever let a
transfer through the entry gate that the fee fan-out then rejects
(`gate_covers_fanout`)? And does every configuration that the master can hold
arrive in the wallets as it is (`configuration_arrives`)?
-/

namespace BurnedChats

open Network

variable {D : Deployment} {modelled : Part → Bool} {ordered : Address → Address → Bool}

/-! ## Gas parameters -/

theorem isValidGasParams_iff {g : GasParamsView} : isValidGasParams g = true ↔
    (GAS_MIN_TON_FEE_PATH_FLOOR ≤ g.minTonFeePath ∧ g.minTonFeePath ≤ GAS_MIN_TON_FEE_PATH_CEIL)
    ∧ (perInternalDeployTon ≤ g.perInternalDeployTon
      ∧ g.perInternalDeployTon ≤ GAS_DELIVER_CEIL)
    ∧ (gasPoolForwardMin ≤ g.poolForwardMin ∧ g.poolForwardMin ≤ GAS_DELIVER_CEIL)
    ∧ (gasTreasuryForwardMin ≤ g.treasuryForwardMin ∧ g.treasuryForwardMin ≤ GAS_DELIVER_CEIL)
    ∧ (gasBurnNotifyTon ≤ g.burnNotifyTon ∧ g.burnNotifyTon ≤ GAS_DELIVER_CEIL)
    ∧ (gasPropagateTon ≤ g.propagateTon ∧ g.propagateTon ≤ GAS_DELIVER_CEIL)
    ∧ worstFanout g ≤ g.minTonFeePath := by
  have bounds : ∀ {a x b : Nat}, (decide (x < a) || decide (b < x)) = true ↔ ¬ (a ≤ x ∧ x ≤ b) := by
    intro a x b
    simp only [Bool.or_eq_true, decide_eq_true_eq]
    omega
  simp only [isValidGasParams, bounds, ite_not]
  simp only [Bool.if_false_right, Bool.and_eq_true, decide_eq_true_eq]

theorem isValidGasParams_default : isValidGasParams defaultGasParams = true := by decide

/-- The fan-out at a forward fee within the ceiling costs at most the worst case,
and the excess of a large forward amount over the deploy leg. -/
theorem requiredTon_le {g : GasParamsView} (forwardTonAmount : Nat) {fwd : Nat}
    (hdeploy : perInternalDeployTon ≤ g.perInternalDeployTon)
    (hfwd : fwd ≤ GAS_INVARIANT_FWD_CEIL) :
    (computeFeeFanoutPlan g forwardTonAmount fwd).requiredTon
      ≤ forwardTonAmount + fwd + worstFanout g := by
  simp only [computeFeeFanoutPlan, worstFanout, perInternalDeployTon, GAS_INVARIANT_FWD_CEIL,
    minTonsForStorage, gasDeliverPadTon, gasPoolToMasterAccrual, gasPoolForwardEpsilon,
    milliTon] at *
  omega

theorem fanout_covered {g : GasParamsView} {forwardTonAmount fwd value : Nat}
    (hg : isValidGasParams g = true) (hfwd : fwd ≤ GAS_INVARIANT_FWD_CEIL)
    (hgate : forwardTonAmount + BurnJettonWallet.forwards forwardTonAmount * fwd + g.minTonFeePath
      < value) :
    (computeFeeFanoutPlan g forwardTonAmount fwd).requiredTon ≤ value := by
  obtain ⟨-, ⟨hdeploy, -⟩, -, -, -, -, hworst⟩ := isValidGasParams_iff.mp hg
  have hreq := requiredTon_le forwardTonAmount hdeploy hfwd
  have hforwards : fwd ≤ BurnJettonWallet.forwards forwardTonAmount * fwd :=
    Nat.le_mul_of_pos_left fwd (by simp [BurnJettonWallet.forwards])
  omega

/-! ## Stored configurations -/

namespace BurnJettonWallet

variable {W : WalletBook} {ctx : Ctx} {x x' : BurnJettonWallet} {out : List Msg}

theorem executeJettonTransfer_feeConfig {q a f : Nat} {dest : Address} {r : Option Address}
    {payload : Slice} {excluded : Bool}
    (h : executeJettonTransfer W ctx x q a dest r f payload excluded = .ok (x', out)) :
    x'.feeConfig = x.feeConfig := by
  simp only [executeJettonTransfer, bind_eq_ok] at h
  obtain ⟨cfg, -, _, -, _, -, _, -, h⟩ := h
  split at h
  · obtain ⟨_, -, hx⟩ := bind_eq_ok.mp h
    obtain ⟨rfl, -⟩ := Prod.mk.inj (Except.ok.inj hx)
    rfl
  · simp only [bind_eq_ok, Except.ok.injEq, Prod.mk.injEq] at h
    obtain ⟨_, -, _, -, _, -, _, -, _, -, _, -, _, -, rfl, -⟩ := h
    rfl

/-- Only the master's message changes a wallet's configuration. -/
theorem receive_feeConfig {b : Body} (h : x.receive W ctx b = .ok (x', out)) :
    x'.feeConfig = x.feeConfig
      ∨ ∃ msg, b = .jettonUpdateFeeConfig msg
        ∧ receiveUpdateFeeConfig ctx x msg = .ok (x', out) := by
  cases b with
  | jettonUpdateFeeConfig msg => exact .inr ⟨msg, rfl, h⟩
  | jettonTransfer msg =>
      simp only [receive, receiveTransfer, bind_eq_ok] at h
      obtain ⟨_, -, _, -, _, -, _, -, _, -, _, -, _, -, _, -, _, -, _, -, _, -, h⟩ := h
      split at h
      · obtain ⟨_, -, hx⟩ := bind_eq_ok.mp h
        obtain ⟨rfl, -⟩ := Prod.mk.inj (Except.ok.inj hx)
        exact .inl rfl
      · exact .inl (executeJettonTransfer_feeConfig h)
  | commitJettonTransfer msg =>
      simp only [receive, receiveCommit, bind_eq_ok] at h
      obtain ⟨_, -, _, -, h⟩ := h
      split at h
      · obtain ⟨rfl, -⟩ := Prod.mk.inj (Except.ok.inj h)
        exact .inl rfl
      · obtain ⟨_, -, h⟩ := bind_eq_ok.mp h
        split at h
        · obtain ⟨rfl, -⟩ := Prod.mk.inj (Except.ok.inj h)
          exact .inl rfl
        · exact .inl (executeJettonTransfer_feeConfig h)
  | jettonTransferInternal msg =>
      obtain ⟨_, -, hx⟩ := bind_eq_ok.mp h
      obtain ⟨rfl, -⟩ := Prod.mk.inj (Except.ok.inj hx)
      exact .inl rfl
  | jettonBurn msg =>
      simp only [receive, receiveBurn, bind_eq_ok, Except.ok.injEq, Prod.mk.injEq] at h
      obtain ⟨_, -, _, -, _, -, rfl, -⟩ := h
      exact .inl rfl
  | _ => cases h

/-- What a wallet stores is what it reads back. -/
theorem receiveUpdateFeeConfig_decodes {msg : JettonUpdateFeeConfig}
    (h : receiveUpdateFeeConfig ctx x msg = .ok (x', out)) :
    ∃ d, decodeFeeConfig x'.feeConfig = .ok d ∧ isValidGasParams d.gas = true := by
  simp only [receiveUpdateFeeConfig, bind_eq_ok, require_eq_ok, Except.ok.injEq,
    Prod.mk.injEq] at h
  obtain ⟨_, -, _, -, _, hgas, ext, hext, cfg, hcfg, rfl, -⟩ := h
  exact ⟨_, (decodeFeeConfig_pack hext hcfg).1, hgas⟩

end BurnJettonWallet

/-- The gas parameters of a stored configuration are valid. -/
def GasOk (x : BurnJettonWallet) : Prop :=
  ∀ d, decodeFeeConfig x.feeConfig = .ok d → isValidGasParams d.gas = true

theorem gasOk_preserved {G : WorldConf → Action Address Body Gas → Prop} :
    (network D modelled ordered).Preserves G fun c => AllWallets GasOk c.st := by
  refine wallets_preserved ?_ ?_ ?_
  · intro o d hd
    have hempty : decodeFeeConfig (BurnJettonWallet.init o D.J).feeConfig = .ok _ := rfl
    rw [hempty] at hd
    obtain rfl := Except.ok.inj hd
    exact isValidGasParams_default
  · intro x b h d hd
    refine h d ?_
    cases b <;> exact hd
  · intro ctx x b x' out hr h d hd
    rcases BurnJettonWallet.receive_feeConfig hr with hsame | ⟨msg, -, hu⟩
    · exact h d (hsame ▸ hd)
    · obtain ⟨d', hd', hgas⟩ := BurnJettonWallet.receiveUpdateFeeConfig_decodes hu
      rw [hd'] at hd
      obtain rfl := Except.ok.inj hd
      exact hgas

theorem BurnJettonMaster.Configured.gas {ctx : Ctx} {x x' : BurnJettonMaster} {b : Body}
    (h : Configured ctx x b x') (hx : isValidGasParams x.gas = true) :
    isValidGasParams x'.gas = true := by
  cases h with
  | gasParams msg gas hgas => exact hgas
  | _ => exact hx

/-- **The gate covers the fan-out.** A transfer that the entry gate of a valid gas
configuration admits carries what the fee fan-out requires, as long as the
forward fee is within the ceiling; and from the deploy defaults on, the gas
parameters of the master and of every wallet snapshot stay valid. -/
theorem gate_covers_fanout :
    (∀ (g : GasParamsView) (forwardTonAmount fwd value : Nat), isValidGasParams g = true →
        fwd ≤ GAS_INVARIANT_FWD_CEIL →
        forwardTonAmount + BurnJettonWallet.forwards forwardTonAmount * fwd + g.minTonFeePath
          < value →
        (computeFeeFanoutPlan g forwardTonAmount fwd).requiredTon ≤ value)
      ∧ ∀ (D : Deployment) (modelled : Part → Bool) (ordered : Address → Address → Bool)
          (c₀ c : WorldConf), c₀.st.jetton.master.gas = defaultGasParams →
          c₀.st.jetton.wallets = ∅ → (network D modelled ordered).Reach c₀ c →
          isValidGasParams c.st.jetton.master.gas = true
            ∧ ∀ a x d, c.st.jetton.wallets.lookup a = some x → decodeFeeConfig x.feeConfig = .ok d →
              isValidGasParams d.gas = true := by
  refine ⟨fun g f fwd v hg hfwd hgate => fanout_covered hg hfwd hgate, ?_⟩
  intro D modelled ordered c₀ c hg hw h
  constructor
  · have hrun : (network D modelled ordered).Run (Meets fun _ _ _ _ => True) c₀ c :=
      h.mono fun c a _ => meets_true c a
    refine jettonMaster_invariant (I := fun x => isValidGasParams x.gas = true) ?_ ?_ hrun ?_
    · intro x b hx
      cases b <;> exact hx
    · exact fun _ _ _ _ _ _ _ hc hx => hc.gas hx
    · rw [hg]
      exact isValidGasParams_default
  · intro a x d hx
    refine h.invariant gasOk_preserved ?_ a x hx d
    intro a x hx
    rw [hw] at hx
    cases hx

/-- The timelock raises the gate to 2 TON. -/
def raisedGate : List (Action Address Body Gas) :=
  [toMaster (.setGasParams
     { queryId := 0, min_ton_fee_path := milliTon 2000, per_internal_deploy_ton := milliTon 600
       gas_pool_forward_min := milliTon 70, gas_treasury_forward_min := milliTon 10
       gas_burn_notify_ton := milliTon 60, gas_propagate_ton := milliTon 50 }),
   .deliver 0 (freeGas 0) true]

/-- A forward of 1 TON at the ceiling with a nanoton above the default gate, and the
raised gate. -/
theorem gate_covers_fanout_raised :
    (computeFeeFanoutPlan defaultGasParams (milliTon 1000) GAS_INVARIANT_FWD_CEIL).requiredTon
        ≤ milliTon 2020 + 1
      ∧ ∃ c, (network D₀ jettonMasterOnly fun _ _ => false).exec (bootstrapAt 1000) raisedGate
          = some c
        ∧ c.st.jetton.master.gas.minTonFeePath = milliTon 2000
        ∧ isValidGasParams c.st.jetton.master.gas = true := by
  refine ⟨gate_covers_fanout.1 defaultGasParams (milliTon 1000) GAS_INVARIANT_FWD_CEIL _
    (by decide) (by decide) (by decide), ?_⟩
  have hrun : ((network D₀ jettonMasterOnly fun _ _ => false).exec (bootstrapAt 1000)
      raisedGate).map (·.st.jetton.master.gas.minTonFeePath) = some (milliTon 2000) := by
    decide +kernel
  obtain ⟨c, hc, hgate⟩ := Option.map_eq_some_iff.mp hrun
  exact ⟨c, hc, hgate, (gate_covers_fanout.2 D₀ jettonMasterOnly (fun _ _ => false)
    (bootstrapAt 1000) c rfl rfl (Machine.run_of_exec hc)).1⟩

/-! ## Configurations that arrive -/

/-- The wallet's view `d` of the master's configuration. -/
structure Mirrors (x : BurnJettonMaster) (d : DecodedFeeConfig) : Prop where
  active : d.active = true
  burnBps : (d.burnBps : Int) = x.get_effective_fee_params.burnBps
  stakeBps : (d.stakeBps : Int) = x.get_effective_fee_params.stakingBps
  treasBps : (d.treasBps : Int) = x.get_effective_fee_params.treasuryBps
  poolOwner : d.poolOwner = x.stakingPoolOwner
  treasuryOwner : d.treasuryOwner = x.treasuryOwner
  dynamicBurnEnabled : d.dynamicBurnEnabled = x.dynamicBurnEnabled
  largeTxThreshold : d.largeTxThreshold = x.largeTxThreshold
  activityThreshold : (d.activityThreshold : Int) = x.activityThreshold
  maxBurnRateBps : (d.maxBurnRateBps : Int) = x.maxBurnRateBps
  txCountSnapshot : (d.txCountSnapshot : Int) = x.txCountLastHour
  activityHourBucket : (d.activityHourBucket : Int) = x.activityHourBucket
  lowSupplyMode : d.lowSupplyMode = x.lowSupply
  excludedCount : (d.excludedCount : Int) = x.excludedCount
  excludedHead : d.excludedHead = x.excludedHead
  gas : d.gas = x.gas

/-- Every configuration message the master sends is accepted by every wallet of
this master, which then decodes the master's configuration. -/
def Arrives (D : Deployment) (x : BurnJettonMaster) : Prop :=
  ∀ ctx b x' out r msg, x.receive D.wallets ctx b = .ok (x', out) → r ∈ out →
    r.body = .jettonUpdateFeeConfig msg →
    ∀ (ctx' : Ctx) (y : BurnJettonWallet), ctx'.sender = y.master →
      ∃ cfg d, y.receive D.wallets ctx' r.body = .ok ({ y with feeConfig := cfg }, [])
        ∧ decodeFeeConfig cfg = .ok d ∧ Mirrors x d

/-- Three rates that a wallet accepts. -/
def RatesOk (burn staking treasury : Int) : Prop :=
  0 ≤ burn ∧ 0 ≤ staking ∧ 0 ≤ treasury ∧ burn + staking + treasury ≤ MAX_TOTAL_FEE_BPS

/-- The configuration fits the wallets' cell layout. -/
structure Storable (x : BurnJettonMaster) : Prop where
  rates : RatesOk x.burnRateBps x.stakingRateBps x.treasuryRateBps
  lowRates : RatesOk x.lowBurnBps x.lowStakingBps x.lowTreasuryBps
  pool : x.stakingPoolOwner.Standard
  treasury : x.treasuryOwner.Standard
  large : x.largeTxThreshold < 2 ^ 120
  activity : 0 ≤ x.activityThreshold ∧ x.activityThreshold < 2 ^ 32
  maxBurn : 0 ≤ x.maxBurnRateBps ∧ x.maxBurnRateBps < 2 ^ 16
  count : 0 ≤ x.txCountLastHour ∧ x.txCountLastHour < 2 ^ 32
  hour : 0 ≤ x.activityHourBucket ∧ x.activityHourBucket < 2 ^ 32
  gas : isValidGasParams x.gas = true
  listing : ∃ l, Listing x l

theorem packGasParamsCell_ok {g : GasParamsView} (h : isValidGasParams g = true) :
    ∃ c, packGasParamsCell g = .ok c := by
  obtain ⟨⟨-, h1⟩, ⟨-, h2⟩, ⟨-, h3⟩, ⟨-, h4⟩, ⟨-, h5⟩, ⟨-, h6⟩, -⟩ := isValidGasParams_iff.mp h
  have small : ∀ {n k : Nat}, n ≤ k → k < 2 ^ 120 → n < 2 ^ 120 := Nat.lt_of_le_of_lt
  simp only [packGasParamsCell, bind_eq_ok, Slice.storeCoins_eq_ok, Except.ok.injEq]
  exact ⟨_, _, ⟨small h1 (by decide), rfl⟩, _, ⟨small h2 (by decide), rfl⟩, _,
    ⟨small h3 (by decide), rfl⟩, _, ⟨small h4 (by decide), rfl⟩, _, ⟨small h5 (by decide), rfl⟩, _,
    ⟨small h6 (by decide), rfl⟩, rfl⟩

theorem packFeeConfigExtension_ok {dyn low : Bool} {large : Nat} {act maxBurn txc hour cnt : Int}
    {head : Cell} {gas : GasParamsView} (hlarge : large < 2 ^ 120)
    (hact : 0 ≤ act ∧ act < 2 ^ 32) (hmax : 0 ≤ maxBurn ∧ maxBurn < 2 ^ 16)
    (htxc : 0 ≤ txc ∧ txc < 2 ^ 32) (hhour : 0 ≤ hour ∧ hour < 2 ^ 32)
    (hcnt : 0 ≤ cnt ∧ cnt < 2 ^ 16) (hgas : isValidGasParams gas = true) :
    ∃ ext, packFeeConfigExtension dyn large act maxBurn txc hour low cnt head gas = .ok ext := by
  obtain ⟨g, hg⟩ := packGasParamsCell_ok hgas
  simp only [packFeeConfigExtension, bind_eq_ok, Slice.storeCoins_eq_ok, Slice.storeUint_eq_ok,
    Except.ok.injEq]
  exact ⟨_, _, ⟨hlarge, rfl⟩, _, ⟨hact.1, hact.2, rfl⟩, _, ⟨hmax.1, hmax.2, rfl⟩, _,
    ⟨htxc.1, htxc.2, rfl⟩, _, ⟨hhour.1, hhour.2, rfl⟩, _, ⟨hcnt.1, hcnt.2, rfl⟩, g, hg, rfl⟩

theorem packFeeConfigCell_ok {burn staking treasury : Int} (h : RatesOk burn staking treasury)
    (pool treasuryOwner : Address) (ext : Cell) :
    ∃ cfg, packFeeConfigCell burn staking treasury pool treasuryOwner ext = .ok cfg := by
  obtain ⟨hb, hs, ht, hsum⟩ := h
  have small : ∀ {n : Int}, n ≤ MAX_TOTAL_FEE_BPS → n < 2 ^ 16 := by
    intro n hn
    simp only [MAX_TOTAL_FEE_BPS] at hn
    omega
  simp only [packFeeConfigCell, bind_eq_ok, Slice.storeUint_eq_ok, Except.ok.injEq]
  exact ⟨_, _, ⟨by decide, by decide, rfl⟩, _, ⟨hb, small (by omega), rfl⟩, _,
    ⟨hs, small (by omega), rfl⟩, _, ⟨ht, small (by omega), rfl⟩, rfl⟩

namespace Storable

variable {x x' : BurnJettonMaster}

theorem effective (h : Storable x) :
    RatesOk x.get_effective_fee_params.burnBps x.get_effective_fee_params.stakingBps
      x.get_effective_fee_params.treasuryBps := by
  unfold BurnJettonMaster.get_effective_fee_params
  cases x.lowSupply with
  | true => exact h.lowRates
  | false => exact h.rates

/-- A storable configuration is accepted as it is. -/
theorem accepted (h : Storable x) (q : Nat) {ctx : Ctx} {y : BurnJettonWallet}
    (hsender : ctx.sender = y.master) :
    ∃ cfg d, BurnJettonWallet.receiveUpdateFeeConfig ctx y (x.feeConfigMessage q)
        = .ok ({ y with feeConfig := cfg }, [])
      ∧ decodeFeeConfig cfg = .ok d ∧ Mirrors x d := by
  obtain ⟨l, hl⟩ := h.listing
  have hcount : 0 ≤ x.excludedCount ∧ x.excludedCount < 2 ^ 16 := by
    have := hl.bound
    rw [hl.count]
    simp only [MAX_EXCLUDED_ADDRESSES] at this
    omega
  obtain ⟨ext, hext⟩ : ∃ ext, packFeeConfigExtension x.dynamicBurnEnabled x.largeTxThreshold
      x.activityThreshold x.maxBurnRateBps x.txCountLastHour x.activityHourBucket x.lowSupply
      x.excludedCount x.excludedHead x.gas = .ok ext :=
    packFeeConfigExtension_ok h.large h.activity h.maxBurn h.count h.hour hcount h.gas
  obtain ⟨cfg, hcfg⟩ := packFeeConfigCell_ok h.effective x.stakingPoolOwner x.treasuryOwner ext
  obtain ⟨hb, hs, ht, hsum⟩ := h.effective
  refine ⟨cfg, _, ?_, (decodeFeeConfig_pack hext hcfg).1, ?_⟩
  · simp only [BurnJettonWallet.receiveUpdateFeeConfig, bind_eq_ok, require_eq_ok, exists_const,
      Except.ok.injEq, Prod.mk.injEq]
    exact ⟨hsender, hsum, h.gas, ext, hext, cfg, hcfg, rfl, trivial⟩
  · exact ⟨rfl, Int.toNat_of_nonneg hb, Int.toNat_of_nonneg hs, Int.toNat_of_nonneg ht,
      Address.wrap_of_standard h.pool, Address.wrap_of_standard h.treasury, rfl, rfl,
      Int.toNat_of_nonneg h.activity.1, Int.toNat_of_nonneg h.maxBurn.1,
      Int.toNat_of_nonneg h.count.1, Int.toNat_of_nonneg h.hour.1, rfl,
      Int.toNat_of_nonneg hcount.1, rfl, rfl⟩

theorem bounced (h : Storable x) (b : Body) : Storable (x.bounced b) := by
  obtain ⟨l, hl⟩ := h.listing
  have hl' : Listing (x.bounced b) l := hl.of_eq (by cases b <;> rfl) (by cases b <;> rfl)
  cases b <;> exact ⟨h.rates, h.lowRates, h.pool, h.treasury, h.large, h.activity, h.maxBurn,
    h.count, h.hour, h.gas, l, hl'⟩

end Storable

/-! ## Whole runs -/

/-- A message to the master keeps its configuration within the wallets' cell
layout: an activity threshold has 32 bits, and so has the number of burns within
the hour. -/
def fits (x : BurnJettonMaster) (now : Nat) : Body → Bool
  | .setDynamicBurnThresholds msg =>
      decide (0 ≤ msg.activity_threshold ∧ msg.activity_threshold < 2 ^ 32)
  | .jettonBurnNotification _ =>
      decide ((now / 3600 : Int) = x.activityHourBucket → x.txCountLastHour + 1 < 2 ^ 32)
  | _ => true

def Fits (D : Deployment) (w : World) (now : Nat) (_ : Gas) (m : Msg) : Prop :=
  m.dst = D.J → fits w.jetton.master now (D.opened m.body) = true

instance (w : World) (now : Nat) (g : Gas) (m : Msg) : Decidable (Fits D w now g m) :=
  inferInstanceAs (Decidable (_ → _))

theorem Storable.configured {w : World} {now : Nat} {g : Gas} {m : Msg} {x' : BurnJettonMaster}
    (h : Storable w.jetton.master) (ht : Typed D w now g m) (hnow : now < 2 ^ 32)
    (hfits : Fits D w now g m) (hd : m.dst = D.J)
    (hr : BurnJettonMaster.Configured (Ctx.of g now m) w.jetton.master (D.opened m.body) x') :
    Storable x' := by
  have hlist : ∃ l, Listing x' l := by
    obtain ⟨l, hl⟩ := h.listing
    obtain ⟨l', hl', -⟩ := hl.configured ht hr
    exact ⟨l', hl'⟩
  replace hfits := hfits hd
  unfold Typed at ht
  generalize D.opened m.body = b at ht hr hfits
  cases hr with
  | feeParams msg hbps => exact { h with rates := hbps, listing := hlist }
  | autoReduce msg hbps => exact { h with lowRates := hbps, listing := hlist }
  | feeDestinations msg =>
      obtain ⟨hp, ht⟩ := of_decide_eq_true ht
      exact { h with pool := hp, treasury := ht, listing := hlist }
  | thresholds msg =>
      exact { h with
        large := of_decide_eq_true ht
        activity := of_decide_eq_true hfits
        listing := hlist }
  | gasParams msg gas hgas => exact { h with gas := hgas, listing := hlist }
  | burn msg =>
      have hhour : (now / 3600 : Int) < 2 ^ 32 := by omega
      have hcount : ∀ k : Int, k = (if (now / 3600 : Int) ≠ w.jetton.master.activityHourBucket
          then 0 else w.jetton.master.txCountLastHour) + 1 → 0 ≤ k ∧ k < 2 ^ 32 := by
        rintro k rfl
        split
        · omega
        · rename_i hsame
          have hnonneg := h.count.1
          exact ⟨by omega, of_decide_eq_true hfits (not_not.mp hsame)⟩
      exact { h with count := hcount _ rfl, hour := ⟨by positivity, hhour⟩, listing := hlist }
  | _ => exact { h with listing := hlist }

/-- Every configuration message of the master carries its configuration. -/
theorem BurnJettonMaster.receive_feeConfigMessage {W : WalletBook} {ctx : Ctx}
    {x x' : BurnJettonMaster} {b : Body} {out : List Msg} {r : Msg} {msg : JettonUpdateFeeConfig}
    (h : x.receive W ctx b = .ok (x', out)) (hr : r ∈ out)
    (hbody : r.body = .jettonUpdateFeeConfig msg) : ∃ q, msg = x.feeConfigMessage q := by
  cases b with
  | syncFeeConfigToWallet q owner =>
      simp only [receive, receiveSync, bind_eq_ok, Except.ok.injEq, Prod.mk.injEq] at h
      obtain ⟨_, -, _, -, _, -, -, rfl⟩ := h
      obtain rfl := List.mem_singleton.mp hr
      exact ⟨q, (Body.jettonUpdateFeeConfig.inj hbody).symm⟩
  | propagateFeeConfigToOwner p =>
      simp only [receive, receivePropagate, bind_eq_ok, Except.ok.injEq, Prod.mk.injEq] at h
      obtain ⟨_, -, _, -, -, rfl⟩ := h
      obtain rfl := List.mem_singleton.mp hr
      exact ⟨p.queryId, (Body.jettonUpdateFeeConfig.inj hbody).symm⟩
  | resolveJettonTransfer p =>
      simp only [receive, receiveResolve, bind_eq_ok, Except.ok.injEq, Prod.mk.injEq] at h
      obtain ⟨_, -, _, -, _, -, _, -, _, -, -, rfl⟩ := h
      rcases List.mem_cons.mp hr with rfl | hr
      · exact ⟨p.queryId, (Body.jettonUpdateFeeConfig.inj hbody).symm⟩
      · obtain rfl := List.mem_singleton.mp hr
        cases hbody
  | empty =>
      obtain ⟨-, rfl⟩ := Prod.mk.inj (Except.ok.inj h)
      split at hr
      · obtain rfl := List.mem_singleton.mp hr
        cases hbody
      · cases hr
  | provideWalletAddress p =>
      obtain ⟨_, -, hx⟩ := bind_eq_ok.mp h
      obtain ⟨-, rfl⟩ := Prod.mk.inj (Except.ok.inj hx)
      obtain rfl := List.mem_singleton.mp hr
      cases hbody
  | mint p =>
      simp only [receive, receiveMint, bind_eq_ok, Except.ok.injEq, Prod.mk.injEq] at h
      obtain ⟨_, -, _, -, _, -, _, -, _, -, -, rfl⟩ := h
      obtain rfl := List.mem_singleton.mp hr
      cases hbody
  | jettonBurnNotification p =>
      obtain ⟨_, -, hx⟩ := bind_eq_ok.mp h
      obtain ⟨-, rfl⟩ := Prod.mk.inj (Except.ok.inj hx)
      split at hr
      · obtain rfl := List.mem_singleton.mp hr
        cases hbody
      · cases hr
  | _ =>
      obtain ⟨_, -, hx⟩ := bind_eq_ok.mp h
      obtain ⟨-, rfl⟩ := Prod.mk.inj (Except.ok.inj hx)
      cases hr

theorem Storable.arrives {x : BurnJettonMaster} (h : Storable x) : Arrives D x := by
  intro ctx b x' out r msg hr hmem hbody ctx' y hsender
  obtain ⟨q, rfl⟩ := BurnJettonMaster.receive_feeConfigMessage hr hmem hbody
  rw [hbody]
  exact h.accepted q hsender

/-- Nothing wider arrives: once the master has fee destinations, a threshold
outside 32 bits makes its messages fail. -/
theorem Arrives.activityThreshold {x : BurnJettonMaster} (h : Arrives D x)
    (hactive : x.feeDestinationsActive = true) :
    0 ≤ x.activityThreshold ∧ x.activityThreshold < 2 ^ 32 := by
  let ctx : Ctx := ⟨⟨0, 0, 0, 0, 0⟩, D.J, x.timelock, milliTon 31, 0⟩
  let ctx' : Ctx := ⟨⟨0, 0, 0, 0, 0⟩, D.J, D.J, 0, 0⟩
  have hsync : x.receive D.wallets ctx (.syncFeeConfigToWallet 0 x.timelock)
      = .ok (x, [BurnJettonMaster.pushFeeConfigToOwner D.wallets ctx x 0 x.timelock]) := by
    have hvalue : milliTon 30 < milliTon 31 := by decide
    simp only [BurnJettonMaster.receive, BurnJettonMaster.receiveSync, bind_eq_ok, require_eq_ok,
      exists_const]
    exact ⟨rfl, hactive, hvalue, trivial⟩
  obtain ⟨cfg, d, hy, -, -⟩ := h ctx _ x _ _ _ hsync (List.mem_singleton.mpr rfl) rfl ctx'
    (.init x.timelock D.J) rfl
  have hupdate : BurnJettonWallet.receiveUpdateFeeConfig ctx' (.init x.timelock D.J)
      (x.feeConfigMessage 0) = .ok _ := hy
  simp only [BurnJettonWallet.receiveUpdateFeeConfig, packFeeConfigExtension, bind_eq_ok,
    Slice.storeUint_eq_ok] at hupdate
  obtain ⟨_, -, _, -, _, -, ext, ⟨_, -, _, ⟨hlow, hhigh, -⟩, -⟩, -⟩ := hupdate
  exact ⟨hlow, hhigh⟩

theorem storable_fromInitDeployed {admin timelock : Address} {content : Cell}
    (h : admin.Standard) : Storable (.fromInitDeployed admin timelock content) where
  rates := by simp [RatesOk, BurnJettonMaster.fromInitDeployed, MAX_TOTAL_FEE_BPS]
  lowRates := by simp [RatesOk, BurnJettonMaster.fromInitDeployed, MAX_TOTAL_FEE_BPS]
  pool := h
  treasury := h
  large := by simp [BurnJettonMaster.fromInitDeployed]
  activity := by simp [BurnJettonMaster.fromInitDeployed]
  maxBurn := by simp [BurnJettonMaster.fromInitDeployed]
  count := by simp [BurnJettonMaster.fromInitDeployed]
  hour := by simp [BurnJettonMaster.fromInitDeployed]
  gas := isValidGasParams_default
  listing := ⟨[], rfl, rfl, nofun, List.nodup_nil, Nat.zero_le _⟩

/-- **Configurations arrive.** In every run from a deployed master whose steps keep
the activity threshold and the hourly count within 32 bits, every configuration
message of the master is accepted by every wallet and decodes to the master's
configuration. -/
theorem configuration_arrives {c₀ c : WorldConf} {admin timelock : Address} {content : Cell}
    (h₀ : c₀.st.jetton.master = .fromInitDeployed admin timelock content) (ha : admin.Standard)
    (h : (network D modelled ordered).Run
      (Meets fun w now g m => Typed D w now g m ∧ now < 2 ^ 32 ∧ Fits D w now g m) c₀ c) :
    Arrives D c.st.jetton.master := by
  refine Storable.arrives (jettonMaster_invariant (fun x b hx => hx.bounced b) ?_ h ?_)
  · rintro w now g m x' ⟨ht, hnow, hfits⟩ hd hr hx
    exact hx.configured ht hnow hfits hd hr
  · rw [h₀]
    exact storable_fromInitDeployed ha

/-- Fee destinations, then the activity threshold `t`. -/
def thresholdSet (t : Int) : List (Action Address Body Gas) :=
  [toMaster (.setFeeDestinations { queryId := 0, staking_pool := account 3, treasury := account 4 }),
   .deliver 0 (freeGas 0) true,
   toMaster (.setDynamicBurnThresholds
     { queryId := 0, large_tx_threshold := 10, activity_threshold := t }),
   .deliver 0 (freeGas 0) true]

theorem configuration_arrives_threshold :
    ∃ c, (network D₀ jettonMasterOnly fun _ _ => false).execWhile
        (fun c a => decide (Meets (fun w now g m => Typed D₀ w now g m ∧ now < 2 ^ 32
          ∧ Fits D₀ w now g m) c a)) .silent (bootstrapAt 1000) () (thresholdSet 7) = some (c, ())
      ∧ c.st.jetton.master.activityThreshold = 7 ∧ Arrives D₀ c.st.jetton.master := by
  have hrun : ((network D₀ jettonMasterOnly fun _ _ => false).execWhile
      (fun c a => decide (Meets (fun w now g m => Typed D₀ w now g m ∧ now < 2 ^ 32
        ∧ Fits D₀ w now g m) c a)) .silent (bootstrapAt 1000) () (thresholdSet 7)).map
        (fun r => r.1.st.jetton.master.activityThreshold) = some 7 := by
    decide +kernel
  obtain ⟨⟨c, l⟩, hc, hseven⟩ := Option.map_eq_some_iff.mp hrun
  exact ⟨c, hc, hseven, configuration_arrives rfl (by decide)
    (Machine.logged_of_execWhile (fun _ _ h => of_decide_eq_true h) hc).run⟩

/-- A negative threshold is accepted by the master and by no wallet. -/
theorem threshold_strands_configuration :
    ∃ c, (network D₀ jettonMasterOnly fun _ _ => false).Run
        (Meets fun w now g m => Typed D₀ w now g m ∧ now < 2 ^ 32) (bootstrapAt 1000) c
      ∧ ¬ Arrives D₀ c.st.jetton.master := by
  have hrun : ((network D₀ jettonMasterOnly fun _ _ => false).execWhile
      (fun c a => decide (Meets (fun w now g m => Typed D₀ w now g m ∧ now < 2 ^ 32) c a)) .silent
      (bootstrapAt 1000) () (thresholdSet (-1))).map (fun r =>
        (r.1.st.jetton.master.activityThreshold, r.1.st.jetton.master.feeDestinationsActive))
      = some (-1, true) := by
    decide +kernel
  obtain ⟨⟨c, l⟩, hc, hrun⟩ := Option.map_eq_some_iff.mp hrun
  obtain ⟨hneg, hactive⟩ : c.st.jetton.master.activityThreshold = -1
      ∧ c.st.jetton.master.feeDestinationsActive = true := Prod.mk.inj hrun
  refine ⟨c, (Machine.logged_of_execWhile (fun _ _ h => of_decide_eq_true h) hc).run, fun h => ?_⟩
  have := (h.activityThreshold hactive).1
  omega

end BurnedChats

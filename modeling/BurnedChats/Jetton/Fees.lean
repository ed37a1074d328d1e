import BurnedChats.Jetton.Config
import BurnedChats.Jetton.Conservation

/-!
# What a transfer costs

A wallet takes the fees of a transfer from its snapshot: three base rates, a burn
rate that depends on the amount and on the traffic, and two caps. The three parts
are rounded down one by one, so together they stay below the rounded total
(`computeFeeParts_capped`), and no snapshot that a wallet can hold exceeds the cap
of five percent (`fees_capped`).

`BurnJettonWallet.executeJettonTransfer_legs` says what an accepted transfer then
sends: the net amount first, and the three parts after it.
-/

namespace BurnedChats

open Network

variable {D : Deployment} {modelled : Part → Bool} {ordered : Address → Address → Bool}

/-! ## The parts of one transfer -/

/-- The fee path of a transfer under the configuration `d`. -/
def feePath (d : DecodedFeeConfig) (amount : Nat) : FeeParts :=
  computeFeeParts amount (computeDynamicBurnBps d amount) d.stakeBps d.treasBps

namespace FeeParts

def fees (p : FeeParts) : Int := p.burn + p.staking + p.treasury

/-- The parts are the amount, and the fees at most five percent of it. -/
structure Capped (p : FeeParts) (amount : Nat) : Prop where
  burn : 0 ≤ p.burn
  staking : 0 ≤ p.staking
  treasury : 0 ≤ p.treasury
  net : 0 ≤ p.net
  whole : p.burn + p.staking + p.treasury + p.net = amount
  cap : p.burn + p.staking + p.treasury ≤ amount * 500 / 10000

end FeeParts

/-- The dynamic burn rate stays within what the cap leaves to it. -/
theorem computeDynamicBurnBps_le {cfg : DecodedFeeConfig} (amount : Nat)
    (h : cfg.burnBps + cfg.stakeBps + cfg.treasBps ≤ MAX_TOTAL_FEE_BPS) :
    computeDynamicBurnBps cfg amount + cfg.stakeBps + cfg.treasBps ≤ MAX_TOTAL_FEE_BPS := by
  unfold computeDynamicBurnBps
  split
  · exact_mod_cast h
  · simp only [MAX_TOTAL_FEE_BPS] at h ⊢
    split <;> split <;> split <;> omega

/-- Three rounded parts are no more than the rounded whole. -/
theorem computeFeeParts_capped (amount stakeBps treasBps : Nat) {burnBps : Int} (hb : 0 ≤ burnBps)
    (h : burnBps + stakeBps + treasBps ≤ MAX_TOTAL_FEE_BPS) :
    (computeFeeParts amount burnBps stakeBps treasBps).Capped amount := by
  obtain ⟨hwhole, hburn, hstaking, htreasury⟩ := computeFeeParts_sum amount stakeBps treasBps hb
  have hrates : (amount : Int) * (burnBps + stakeBps + treasBps) ≤ amount * 500 :=
    mul_le_mul_of_nonneg_left h (Int.natCast_nonneg _)
  simp only [mul_add] at hrates
  have hcap : (computeFeeParts amount burnBps stakeBps treasBps).burn
      + (computeFeeParts amount burnBps stakeBps treasBps).staking
      + (computeFeeParts amount burnBps stakeBps treasBps).treasury
      ≤ (amount : Int) * 500 / 10000 := by
    simp only [computeFeeParts]
    omega
  exact ⟨hburn, hstaking, htreasury, by omega, hwhole, hcap⟩

theorem feePath_capped {d : DecodedFeeConfig} (amount : Nat)
    (h : d.burnBps + d.stakeBps + d.treasBps ≤ MAX_TOTAL_FEE_BPS) :
    (feePath d amount).Capped amount :=
  computeFeeParts_capped amount d.stakeBps d.treasBps (computeDynamicBurnBps_nonneg amount h)
    (computeDynamicBurnBps_le amount h)

/-! ## What an accepted transfer sends -/

/-- What the first message carries, and what the others carry. -/
def legs : List Msg → Int × Int
  | [] => (0, 0)
  | m :: l => (tokens m.body, sentTokens l)

theorem legs_sum (out : List Msg) : (legs out).1 + (legs out).2 = sentTokens out := by
  cases out with
  | nil => simp [legs]
  | cons m l => simp [legs]

namespace BurnJettonWallet

variable {W : WalletBook} {ctx : Ctx} {x x' : BurnJettonWallet} {out : List Msg}

theorem executeJettonTransfer_legs {q a f : Nat} {dest : Address} {r : Option Address}
    {p : Slice} {excluded : Bool} {d : DecodedFeeConfig} (hc : ConfigOk x.feeConfig)
    (hd : decodeFeeConfig x.feeConfig = .ok d)
    (h : executeJettonTransfer W ctx x q a dest r f p excluded = .ok (x', out)) :
    legs out = if excluded then ((a : Int), 0) else ((feePath d a).net, (feePath d a).fees) := by
  obtain ⟨-, -, hsum, -⟩ := executeJettonTransfer_spec hc h
  simp only [executeJettonTransfer, hd, ok_bind, bind_eq_ok] at h
  obtain ⟨_, -, _, -, _, -, h⟩ := h
  cases excluded with
  | true =>
      simp only [if_true, bind_eq_ok, Except.ok.injEq, Prod.mk.injEq] at h
      obtain ⟨_, -, -, rfl⟩ := h
      rw [if_pos rfl]
      rfl
  | false =>
      simp only [Bool.false_eq_true, if_false, bind_eq_ok, require_eq_ok, Except.ok.injEq,
        Prod.mk.injEq] at h
      obtain ⟨_, -, _, -, _, -, net, hnet, _, -, _, -, _, -, -, hout⟩ := h
      obtain ⟨-, hnet⟩ := coins_eq_ok.mp hnet
      have hfirst : (legs out).1 = (feePath d a).net := by
        rw [← hout]
        exact hnet
      have hwhole := (feePath_capped a (hc d hd)).whole
      rw [← legs_sum] at hsum
      refine Prod.ext hfirst ?_
      simp only [Bool.false_eq_true, if_false, FeeParts.fees]
      omega

/-- The rates of the message, as far as a wallet with the configuration `d` has
accepted them. -/
structure Accepts (msg : JettonUpdateFeeConfig) (d : DecodedFeeConfig) : Prop where
  active : d.active = true
  burnBps : (d.burnBps : Int) = msg.burn_rate_bps
  stakeBps : (d.stakeBps : Int) = msg.staking_rate_bps
  treasBps : (d.treasBps : Int) = msg.treasury_rate_bps
  capped : d.burnBps + d.stakeBps + d.treasBps ≤ MAX_TOTAL_FEE_BPS
  dynamicBurnEnabled : d.dynamicBurnEnabled = msg.dynamic_burn_enabled
  largeTxThreshold : d.largeTxThreshold = msg.large_tx_threshold
  activityThreshold : (d.activityThreshold : Int) = msg.activity_threshold
  maxBurnRateBps : (d.maxBurnRateBps : Int) = msg.max_burn_rate_bps
  txCountSnapshot : (d.txCountSnapshot : Int) = msg.tx_count_snapshot
  lowSupplyMode : d.lowSupplyMode = msg.low_supply_mode
  excludedCount : (d.excludedCount : Int) = msg.excluded_count
  excludedHead : d.excludedHead = msg.excluded_head

theorem receiveUpdateFeeConfig_accepts {msg : JettonUpdateFeeConfig}
    (h : receiveUpdateFeeConfig ctx x msg = .ok (x', out)) :
    ∃ d, decodeFeeConfig x'.feeConfig = .ok d ∧ Accepts msg d := by
  simp only [receiveUpdateFeeConfig, bind_eq_ok, require_eq_ok, Except.ok.injEq,
    Prod.mk.injEq] at h
  obtain ⟨_, -, _, hsum, _, -, ext, hext, cfg, hcfg, rfl, -⟩ := h
  obtain ⟨hd, hb, hs, ht⟩ := decodeFeeConfig_pack hext hcfg
  simp only [packFeeConfigExtension, bind_eq_ok, Slice.storeUint_eq_ok] at hext
  obtain ⟨_, -, _, ⟨hactivity, -⟩, _, ⟨hmax, -⟩, _, ⟨hcount, -⟩, _, -, _, ⟨hexcluded, -⟩, -⟩ := hext
  refine ⟨_, hd, rfl, Int.toNat_of_nonneg hb, Int.toNat_of_nonneg hs, Int.toNat_of_nonneg ht, ?_,
    rfl, rfl, Int.toNat_of_nonneg hactivity, Int.toNat_of_nonneg hmax, Int.toNat_of_nonneg hcount,
    rfl, Int.toNat_of_nonneg hexcluded, rfl⟩
  simp only [MAX_TOTAL_FEE_BPS] at hsum ⊢
  omega

end BurnJettonWallet

/-! ## Whole runs -/

theorem configOk_preserved {G : WorldConf → Action Address Body Gas → Prop} :
    (network D modelled ordered).Preserves G
      fun c => AllWallets (fun x => ConfigOk x.feeConfig) c.st := by
  refine wallets_preserved (fun o => configOk_empty) ?_ ?_
  · intro x b h d hd
    refine h d ?_
    cases b <;> exact hd
  · intro ctx x b x' out hr h d hd
    rcases BurnJettonWallet.receive_feeConfig hr with hsame | ⟨msg, -, hu⟩
    · exact h d (hsame ▸ hd)
    · obtain ⟨d', hd', haccepts⟩ := BurnJettonWallet.receiveUpdateFeeConfig_accepts hu
      rw [hd'] at hd
      obtain rfl := Except.ok.inj hd
      exact haccepts.capped

/-- The rates of the master, those of a low supply included, are storable. -/
def RatesStorable (x : BurnJettonMaster) : Prop :=
  RatesOk x.burnRateBps x.stakingRateBps x.treasuryRateBps
    ∧ RatesOk x.lowBurnBps x.lowStakingBps x.lowTreasuryBps

theorem RatesStorable.effective {x : BurnJettonMaster} (h : RatesStorable x) :
    RatesOk x.get_effective_fee_params.burnBps x.get_effective_fee_params.stakingBps
      x.get_effective_fee_params.treasuryBps := by
  unfold BurnJettonMaster.get_effective_fee_params
  cases x.lowSupply with
  | true => exact h.2
  | false => exact h.1

/-- Every run keeps the master's rates within the cap. -/
theorem ratesStorable_of_reach {c₀ c : WorldConf}
    (h : (network D modelled ordered).Reach c₀ c) (h₀ : RatesStorable c₀.st.jetton.master) :
    RatesStorable c.st.jetton.master := by
  have hrun : (network D modelled ordered).Run (Meets fun _ _ _ _ => True) c₀ c :=
    h.mono fun c a _ => meets_true c a
  refine jettonMaster_invariant ?_ ?_ hrun h₀
  · intro x b hx
    cases b <;> exact hx
  · intro w now g m x' _ _ hc hx
    generalize D.opened m.body = b at hc
    cases hc with
    | feeParams msg hbps => exact ⟨hbps, hx.2⟩
    | autoReduce msg hbps => exact ⟨hx.1, hbps⟩
    | _ => exact hx

/-- **Fees are capped.** In every run from a deployed master, the rates in force stay
within the cap; every snapshot that a wallet takes from the master, and every
snapshot that a deployed wallet holds, splits every amount into non-negative parts
of which the fees are at most five percent; and that is what an accepted transfer
sends. -/
theorem fees_capped {c₀ c : WorldConf} {admin timelock : Address} {content : Cell}
    (h₀ : c₀.st.jetton.master = .fromInitDeployed admin timelock content)
    (hw : c₀.st.jetton.wallets = ∅) (h : (network D modelled ordered).Reach c₀ c) :
    RatesOk c.st.jetton.master.get_effective_fee_params.burnBps
        c.st.jetton.master.get_effective_fee_params.stakingBps
        c.st.jetton.master.get_effective_fee_params.treasuryBps
      ∧ (∀ q ctx x x' out d amount,
          BurnJettonWallet.receiveUpdateFeeConfig ctx x (c.st.jetton.master.feeConfigMessage q)
            = .ok (x', out) →
          decodeFeeConfig x'.feeConfig = .ok d → 0 < amount → (feePath d amount).Capped amount)
      ∧ (∀ a x d amount, c.st.jetton.wallets.lookup a = some x →
          decodeFeeConfig x.feeConfig = .ok d → 0 < amount → (feePath d amount).Capped amount)
      ∧ ∀ a x ctx q amount dest r f p excluded x' out, c.st.jetton.wallets.lookup a = some x →
          BurnJettonWallet.executeJettonTransfer D.wallets ctx x q amount dest r f p excluded
            = .ok (x', out) →
          (legs out).1 + (legs out).2 = amount ∧ (legs out).2 ≤ (amount : Int) * 500 / 10000 := by
  have hwallets : AllWallets (fun x => ConfigOk x.feeConfig) c.st := by
    refine h.invariant configOk_preserved ?_
    intro a x hx
    rw [hw] at hx
    cases hx
  refine ⟨?_, ?_, ?_, ?_⟩
  · refine (ratesStorable_of_reach h ?_).effective
    rw [h₀]
    simp [RatesStorable, RatesOk, BurnJettonMaster.fromInitDeployed, MAX_TOTAL_FEE_BPS]
  · intro q ctx x x' out d amount hu hd _
    obtain ⟨d', hd', haccepts⟩ := BurnJettonWallet.receiveUpdateFeeConfig_accepts hu
    rw [hd'] at hd
    obtain rfl := Except.ok.inj hd
    exact feePath_capped amount haccepts.capped
  · intro a x d amount hx hd _
    exact feePath_capped amount (hwallets a x hx d hd)
  · intro a x ctx q amount dest r f p excluded x' out hx hex
    have hc := hwallets a x hx
    obtain ⟨-, -, hsum, -⟩ := BurnJettonWallet.executeJettonTransfer_spec hc hex
    refine ⟨(legs_sum out).trans hsum, ?_⟩
    obtain ⟨d, hd, -⟩ := bind_eq_ok.mp hex
    rw [BurnJettonWallet.executeJettonTransfer_legs hc hd hex]
    cases excluded with
    | true => simp only [if_true]; omega
    | false => exact (feePath_capped amount (hc d hd)).cap

/-- Fee destinations are set and the dynamic burn is enabled; an owner gets jettons
and the configuration. -/
def dynamicBurning (owner : Address) (amount : Nat) : List (Action Address Body Gas) :=
  [toMaster (.setFeeDestinations { queryId := 0, staking_pool := account 3, treasury := account 4 }),
   .deliver 0 (freeGas 0) true,
   toMaster (.setDynamicBurnEnabled 0 true), .deliver 0 (freeGas 0) true,
   .send (external (account 1) D₀.J (milliTon 1000) (.mint
     { queryId := 0, receiver := owner
       mintMessage := { queryId := 0, amount, sender := account 1
                        responseDestination := none, forwardTonAmount := 0
                        forwardPayload := noForwardPayload } })),
   .deliver 0 (freeGas 0) true, .deliver 0 (freeGas 0) true,
   toMaster (.syncFeeConfigToWallet 0 owner), .deliver 0 (freeGas 0) true,
   .deliver 0 (freeGas 0) true]

/-- A large transfer burns 75 basis points of its amount. -/
theorem fees_capped_large :
    ∃ c x d, (network D₀ jettonParts fun _ _ => false).exec (bootstrapAt 1000)
        (dynamicBurning (account 5) (200 * 10 ^ 9)) = some c
      ∧ c.st.jetton.wallets.lookup (D₀.addr (.jettonWallet (account 5) D₀.J)) = some x
      ∧ decodeFeeConfig x.feeConfig = .ok d
      ∧ (feePath d (20 * 10 ^ 9)).burn = 20 * 10 ^ 9 * 75 / 10000
      ∧ (feePath d (20 * 10 ^ 9)).Capped (20 * 10 ^ 9) := by
  have hrun : (((network D₀ jettonParts fun _ _ => false).exec (bootstrapAt 1000)
      (dynamicBurning (account 5) (200 * 10 ^ 9))).bind fun c =>
        (c.st.jetton.wallets.lookup (D₀.addr (.jettonWallet (account 5) D₀.J))).bind fun x =>
          (decodeFeeConfig x.feeConfig).toOption.map fun d => (feePath d (20 * 10 ^ 9)).burn)
      = some (20 * 10 ^ 9 * 75 / 10000) := by
    decide +kernel
  obtain ⟨c, hc, hrun⟩ := Option.bind_eq_some_iff.mp hrun
  obtain ⟨x, hx, hrun⟩ := Option.bind_eq_some_iff.mp hrun
  obtain ⟨d, hd, hburn⟩ := Option.map_eq_some_iff.mp hrun
  have hd : decodeFeeConfig x.feeConfig = .ok d := by
    cases hdec : decodeFeeConfig x.feeConfig with
    | error e => rw [hdec] at hd; cases hd
    | ok d' => rw [hdec] at hd; cases hd; rfl
  exact ⟨c, x, d, hc, hx, hd, hburn, (fees_capped rfl rfl (Machine.run_of_exec hc)).2.2.1 _ x d _ hx
    hd (by decide)⟩

/-! ## The dynamic burn -/

/-- The dynamic burn rate is no lower than the base rate, and no lower for a larger
amount. -/
def RaisesBurn (d : DecodedFeeConfig) : Prop :=
  ∀ a b, a ≤ b → (d.burnBps : Int) ≤ computeDynamicBurnBps d a
    ∧ computeDynamicBurnBps d a ≤ computeDynamicBurnBps d b

theorem computeDynamicBurnBps_eq_min {d : DecodedFeeConfig} (amount : Nat)
    (hdynamic : d.dynamicBurnEnabled = true) (hlow : d.lowSupplyMode = false) :
    computeDynamicBurnBps d amount
      = min ((d.burnBps : Int) + (if d.largeTxThreshold < amount then 25 else 0)
            + if d.activityThreshold < d.txCountSnapshot then 12 else 0)
          (min (d.maxBurnRateBps : Int) ((MAX_TOTAL_FEE_BPS : Int) - d.stakeBps - d.treasBps)) := by
  rw [computeDynamicBurnBps, hdynamic, hlow, if_neg (by decide)]
  dsimp only
  split <;> split <;> split <;> omega

/-- The cap on the dynamic rate cuts the base rate as well. -/
theorem raisesBurn_iff {d : DecodedFeeConfig}
    (hcap : d.burnBps + d.stakeBps + d.treasBps ≤ MAX_TOTAL_FEE_BPS)
    (hdynamic : d.dynamicBurnEnabled = true) (hlow : d.lowSupplyMode = false) :
    RaisesBurn d ↔ d.burnBps ≤ d.maxBurnRateBps := by
  simp only [RaisesBurn, computeDynamicBurnBps_eq_min _ hdynamic hlow]
  constructor
  · intro h
    have hbase := (h 0 0 le_rfl).1
    omega
  · intro h a b hab
    have hbonus : (if d.largeTxThreshold < a then (25 : Int) else 0)
        ≤ if d.largeTxThreshold < b then 25 else 0 := by
      split <;> split <;> omega
    have hpositive : (0 : Int) ≤ (if d.largeTxThreshold < a then 25 else 0) := by
      split <;> omega
    have hbusy : (0 : Int) ≤ if d.activityThreshold < d.txCountSnapshot then 12 else 0 := by
      split <;> omega
    refine ⟨?_, by omega⟩
    simp only [MAX_TOTAL_FEE_BPS] at hcap ⊢
    omega

/-- The message sets no base burn rate above the cap on the dynamic one. -/
def moderate (x : BurnJettonMaster) : Body → Bool
  | .setFeeParams msg => decide (msg.burn_rate_bps ≤ x.maxBurnRateBps)
  | _ => true

def Moderate (D : Deployment) (w : World) (_ : Nat) (_ : Gas) (m : Msg) : Prop :=
  m.dst = D.J → moderate w.jetton.master (D.opened m.body) = true

instance (w : World) (now : Nat) (g : Gas) (m : Msg) : Decidable (Moderate D w now g m) :=
  inferInstanceAs (Decidable (_ → _))

/-- No message changes the cap on the dynamic rate. -/
theorem maxBurnRateBps_of_reach {c₀ c : WorldConf} (h : (network D modelled ordered).Reach c₀ c) :
    c.st.jetton.master.maxBurnRateBps = c₀.st.jetton.master.maxBurnRateBps := by
  have hrun : (network D modelled ordered).Run (Meets fun _ _ _ _ => True) c₀ c :=
    h.mono fun c a _ => meets_true c a
  refine jettonMaster_invariant
    (I := fun x => x.maxBurnRateBps = c₀.st.jetton.master.maxBurnRateBps) ?_ ?_ hrun rfl
  · intro x b hx
    cases b <;> exact hx
  · intro w now g m x' _ _ hc hx
    generalize D.opened m.body = b at hc
    cases hc <;> exact hx

theorem burnRateBps_of_run {c₀ c : WorldConf}
    (h : (network D modelled ordered).Run (Meets (Moderate D)) c₀ c)
    (h₀ : c₀.st.jetton.master.burnRateBps ≤ c₀.st.jetton.master.maxBurnRateBps) :
    c.st.jetton.master.burnRateBps ≤ c.st.jetton.master.maxBurnRateBps := by
  refine jettonMaster_invariant (I := fun x => x.burnRateBps ≤ x.maxBurnRateBps) ?_ ?_ h h₀
  · intro x b hx
    cases b <;> exact hx
  · intro w now g m x' hmoderate hd hc hx
    replace hmoderate := hmoderate hd
    generalize D.opened m.body = b at hmoderate hc
    cases hc with
    | feeParams msg hbps => exact of_decide_eq_true hmoderate
    | _ => exact hx

/-- A snapshot pushed from the master, with the dynamic burn enabled and the supply not
low. -/
structure DynamicSnapshot (m : BurnJettonMaster) (d : DecodedFeeConfig) : Prop where
  pushed : ∃ q ctx x x' out, BurnJettonWallet.receiveUpdateFeeConfig ctx x (m.feeConfigMessage q)
    = .ok (x', out) ∧ decodeFeeConfig x'.feeConfig = .ok d
  dynamic : d.dynamicBurnEnabled = true
  low : d.lowSupplyMode = false

theorem DynamicSnapshot.raisesBurn_iff {m : BurnJettonMaster} {d : DecodedFeeConfig}
    (h : DynamicSnapshot m d) : RaisesBurn d ↔ m.burnRateBps ≤ m.maxBurnRateBps := by
  obtain ⟨q, ctx, x, x', out, hu, hd⟩ := h.pushed
  obtain ⟨d', hd', haccepts⟩ := BurnJettonWallet.receiveUpdateFeeConfig_accepts hu
  rw [hd'] at hd
  obtain rfl := Except.ok.inj hd
  have hlow : m.lowSupply = false := haccepts.lowSupplyMode.symm.trans h.low
  have hburn : (d'.burnBps : Int) = if m.lowSupply then m.lowBurnBps else m.burnRateBps :=
    haccepts.burnBps
  have hmax : (d'.maxBurnRateBps : Int) = m.maxBurnRateBps := haccepts.maxBurnRateBps
  rw [hlow, if_neg Bool.false_ne_true] at hburn
  rw [BurnedChats.raisesBurn_iff haccepts.capped h.dynamic h.low]
  omega

/-- **The dynamic burn.** In every run from a deployed master whose burn rates stay below
the cap on the dynamic rate, no snapshot lowers the burn; and in every run a snapshot of
a reached state does not lower it if and only if the base rate is within 100 basis
points. -/
theorem dynamicBurn_raises {c₀ c : WorldConf} {admin timelock : Address} {content : Cell}
    (h₀ : c₀.st.jetton.master = .fromInitDeployed admin timelock content) :
    ((network D modelled ordered).Run (Meets (Moderate D)) c₀ c →
      ∀ d, DynamicSnapshot c.st.jetton.master d → RaisesBurn d)
    ∧ ((network D modelled ordered).Reach c₀ c → ∀ d, DynamicSnapshot c.st.jetton.master d →
      (RaisesBurn d ↔ c.st.jetton.master.burnRateBps ≤ 100)) := by
  refine ⟨fun h d hd => hd.raisesBurn_iff.mpr (burnRateBps_of_run h ?_), fun h d hd => ?_⟩
  · rw [h₀]
    simp [BurnJettonMaster.fromInitDeployed]
  · rw [hd.raisesBurn_iff, maxBurnRateBps_of_reach h, h₀]
    rfl

/-- What a wallet of account 5 decodes of the master's configuration. -/
def snapshotOf (c : WorldConf) : Tx DecodedFeeConfig := do
  let (y, _) ← BurnJettonWallet.receiveUpdateFeeConfig
    (.of (freeGas 0) 1000 (external D₀.J D₀.J 0 .empty)) (.init (account 5) D₀.J)
    (c.st.jetton.master.feeConfigMessage 0)
  decodeFeeConfig y.feeConfig

theorem exists_of_map_ok {α β : Type} {x : Tx α} {f : α → β} {r : β} (h : x.map f = .ok r) :
    ∃ a, x = .ok a ∧ f a = r := by
  cases x with
  | error e => cases h
  | ok a => exact ⟨a, rfl, Except.ok.inj h⟩

theorem dynamicSnapshot_of {c : WorldConf} {d : DecodedFeeConfig} (h : snapshotOf c = .ok d)
    (hdynamic : d.dynamicBurnEnabled = true) (hlow : d.lowSupplyMode = false) :
    DynamicSnapshot c.st.jetton.master d := by
  obtain ⟨⟨y, out⟩, hy, hd⟩ := bind_eq_ok.mp h
  exact ⟨⟨0, _, _, y, out, hy, hd⟩, hdynamic, hlow⟩

/-- At 50 basis points a large transfer burns 75. -/
theorem dynamicBurn_raises_large :
    ∃ c d, (network D₀ jettonParts fun _ _ => false).Run (Meets (Moderate D₀)) (bootstrapAt 1000) c
      ∧ computeDynamicBurnBps d (20 * 10 ^ 9) = 75 ∧ RaisesBurn d := by
  have hrun : ((network D₀ jettonParts fun _ _ => false).execWhile
      (fun c a => decide (Meets (Moderate D₀) c a)) .silent (bootstrapAt 1000) ()
      (dynamicBurning (account 5) (200 * 10 ^ 9))).map (fun r => (snapshotOf r.1).map fun d =>
        (d.dynamicBurnEnabled, d.lowSupplyMode, computeDynamicBurnBps d (20 * 10 ^ 9)))
      = some (.ok (true, false, 75)) := by
    decide +kernel
  obtain ⟨⟨c, l⟩, hc, hrun⟩ := Option.map_eq_some_iff.mp hrun
  obtain ⟨d, hd, hfields⟩ := exists_of_map_ok hrun
  obtain ⟨hdynamic, hfields⟩ := Prod.mk.inj hfields
  obtain ⟨hlow, hrate⟩ := Prod.mk.inj hfields
  have h := (Machine.logged_of_execWhile (G := Meets (Moderate D₀))
    (fun _ _ h => of_decide_eq_true h) hc).run
  exact ⟨c, d, h, hrate, (dynamicBurn_raises rfl).1 h d (dynamicSnapshot_of hd hdynamic hlow)⟩

/-- At 200 basis points the dynamic burn takes 100. -/
theorem dynamicBurn_lowers :
    ∃ c d, (network D₀ jettonParts fun _ _ => false).Reach (bootstrapAt 1000) c
      ∧ DynamicSnapshot c.st.jetton.master d ∧ d.burnBps = 200
      ∧ computeDynamicBurnBps d (20 * 10 ^ 9) = 100 := by
  have hrun : ((network D₀ jettonParts fun _ _ => false).exec (bootstrapAt 1000)
      (dynamicBurning (account 5) (200 * 10 ^ 9) ++ [toMaster (.setFeeParams
        { queryId := 0, burn_rate_bps := 200, staking_rate_bps := 30, treasury_rate_bps := 20 }),
        .deliver 0 (freeGas 0) true])).map (fun c => (snapshotOf c).map fun d =>
        (d.dynamicBurnEnabled, d.lowSupplyMode, d.burnBps, computeDynamicBurnBps d (20 * 10 ^ 9)))
      = some (.ok (true, false, 200, 100)) := by
    decide +kernel
  obtain ⟨c, hc, hrun⟩ := Option.map_eq_some_iff.mp hrun
  obtain ⟨d, hd, hfields⟩ := exists_of_map_ok hrun
  obtain ⟨hdynamic, hfields⟩ := Prod.mk.inj hfields
  obtain ⟨hlow, hfields⟩ := Prod.mk.inj hfields
  obtain ⟨hbase, hrate⟩ := Prod.mk.inj hfields
  exact ⟨c, d, Machine.run_of_exec hc, dynamicSnapshot_of hd hdynamic hlow, hbase, hrate⟩

end BurnedChats

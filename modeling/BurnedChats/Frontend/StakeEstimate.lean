import BurnedChats.Jetton.Transfers

/-!
# The estimate shown before a stake

The client splits the gross amount itself (`estimateStakeNet.ts`), from the three
rates in force and from the exclusion list, both read from getters of the jetton
master. The wallet splits it on the snapshot of the same configuration, but knows
one thing more: the dynamic burn. `estimate_matches` compares the two for every
configuration, and `Unaffected` says when they agree.
-/

namespace BurnedChats.StakeEstimate

open Network

/-! ## The client -/

structure StakeNetEstimate where
  willChargeFee : Bool
  grossNano : Int
  feeNano : Int
  netNano : Int
  deriving DecidableEq

/-- The split of `grossNano` into fee and net. -/
def computeFeeParts (grossNano : Int) (fee : EffectiveFeeParams) : Int × Int :=
  let burn := (grossNano * fee.burnBps).tdiv 10000
  let staking := (grossNano * fee.stakingBps).tdiv 10000
  let treasury := (grossNano * fee.treasuryBps).tdiv 10000
  let netNano := grossNano - burn - staking - treasury
  (grossNano - netNano, netNano)

/-- The getter's answer; a failed call counts as no. -/
def isExcludedBurnHolder (master : BurnJettonMaster) (owner : Address) : Bool :=
  match master.get_is_excluded owner with
  | .ok found => found
  | .error _ => false

def isExcludedTransfer (master : BurnJettonMaster) (sender recipient : Address) : Bool :=
  if isExcludedBurnHolder master sender then true else isExcludedBurnHolder master recipient

def estimateStakeNet (master : BurnJettonMaster) (ownerAddress stakingMaster : Address)
    (grossNano : Int) : StakeNetEstimate :=
  if grossNano ≤ 0 then ⟨false, grossNano, 0, grossNano⟩
  else if isExcludedTransfer master ownerAddress stakingMaster then ⟨false, grossNano, 0, grossNano⟩
  else
    let (feeNano, netNano) := computeFeeParts grossNano master.get_effective_fee_params
    ⟨true, grossNano, feeNano, netNano⟩

theorem isExcludedTransfer_eq (m : BurnJettonMaster) (a b : Address) :
    isExcludedTransfer m a b = (isExcludedBurnHolder m a || isExcludedBurnHolder m b) := by
  unfold isExcludedTransfer
  cases isExcludedBurnHolder m a <;> rfl

/-! ## The wallet -/

/-- The wallet's snapshot was pushed from the configuration of `m`. -/
def Pushed (m : BurnJettonMaster) (x : BurnJettonWallet) : Prop :=
  ∃ q ctx y y' out, BurnJettonWallet.receiveUpdateFeeConfig ctx y (m.feeConfigMessage q)
    = .ok (y', out) ∧ x.feeConfig = y'.feeConfig

/-- What a large amount and a busy hour add to the burn rate, before the caps. -/
def dynamicBonus (m : BurnJettonMaster) (amount : Nat) : Int :=
  (if m.largeTxThreshold < amount then 25 else 0)
    + if m.activityThreshold < m.txCountLastHour then 12 else 0

/-- The cap on a dynamic burn rate. -/
def dynamicCap (m : BurnJettonMaster) : Int :=
  min m.maxBurnRateBps (MAX_TOTAL_FEE_BPS - m.get_effective_fee_params.stakingBps
    - m.get_effective_fee_params.treasuryBps)

/-- The dynamic burn does not change the transfer: a party is excluded, the supply is
low, it is disabled, or the two burn rates round to the same part. -/
def Unaffected (m : BurnJettonMaster) (sender recipient : Address) (amount : Nat) : Prop :=
  isExcludedTransfer m sender recipient = true ∨ m.lowSupply = true ∨ m.dynamicBurnEnabled = false
    ∨ (amount : Int) * min (m.get_effective_fee_params.burnBps + dynamicBonus m amount)
          (dynamicCap m) / 10000
        = amount * m.get_effective_fee_params.burnBps / 10000

theorem computeDynamicBurnBps_pushed {m : BurnJettonMaster} {d : DecodedFeeConfig} {q : Nat}
    (h : BurnJettonWallet.Accepts (m.feeConfigMessage q) d) (amount : Nat) :
    computeDynamicBurnBps d amount
      = if m.lowSupply || !m.dynamicBurnEnabled then m.get_effective_fee_params.burnBps
        else min (m.get_effective_fee_params.burnBps + dynamicBonus m amount) (dynamicCap m) := by
  have hburn : (d.burnBps : Int) = m.get_effective_fee_params.burnBps := h.burnBps
  have hstake : (d.stakeBps : Int) = m.get_effective_fee_params.stakingBps := h.stakeBps
  have htreas : (d.treasBps : Int) = m.get_effective_fee_params.treasuryBps := h.treasBps
  have hlarge : d.largeTxThreshold = m.largeTxThreshold := h.largeTxThreshold
  have hactivity : (d.activityThreshold : Int) = m.activityThreshold := h.activityThreshold
  have hcount : (d.txCountSnapshot : Int) = m.txCountLastHour := h.txCountSnapshot
  have hmax : (d.maxBurnRateBps : Int) = m.maxBurnRateBps := h.maxBurnRateBps
  have hlow : d.lowSupplyMode = m.lowSupply := h.lowSupplyMode
  have hdyn : d.dynamicBurnEnabled = m.dynamicBurnEnabled := h.dynamicBurnEnabled
  have hbusy : d.activityThreshold < d.txCountSnapshot ↔ m.activityThreshold < m.txCountLastHour := by
    omega
  simp only [computeDynamicBurnBps, dynamicBonus, dynamicCap, hlow, hdyn, hburn, hstake, htreas,
    hlarge, hmax, hbusy]
  split
  · rfl
  · split <;> split <;> split <;> omega

/-- The three exclusion tests agree on a list: the client's, the wallet's on its
snapshot and the master's when it resolves a transfer. -/
theorem isExcludedBurnHolder_listing {m : BurnJettonMaster} {l : List Address} (h : Listing m l)
    (a : Address) : isExcludedBurnHolder m a = decide (a ∈ l) := by
  simp only [isExcludedBurnHolder, h.get_is_excluded]

theorem isExcludedMember_pushed {m : BurnJettonMaster} {l : List Address} (h : Listing m l)
    {d : DecodedFeeConfig} {q : Nat}
    (hd : BurnJettonWallet.Accepts (m.feeConfigMessage q) d) (a : Address) :
    isExcludedMember a d.excludedHead d.excludedCount = .ok (isExcludedBurnHolder m a) := by
  have hhead : d.excludedHead = chainOf l := hd.excludedHead.trans h.head
  have hcount : d.excludedCount = l.length := by
    have := hd.excludedCount.trans h.count
    omega
  rw [hhead, hcount, isExcludedMember_chainOf a h.standard, isExcludedBurnHolder_listing h]

theorem receiveResolve_decides {W : WalletBook} {ctx : Ctx} {m m' : BurnJettonMaster}
    {t : ResolveJettonTransfer} {out : List Msg}
    (h : BurnJettonMaster.receiveResolve W ctx m t = .ok (m', out)) :
    out = BurnJettonMaster.resolution ctx m t (isExcludedTransfer m t.sender_owner t.destination) := by
  simp only [BurnJettonMaster.receiveResolve, bind_eq_ok, require_eq_ok, Except.ok.injEq,
    Prod.mk.injEq] at h
  obtain ⟨_, -, _, hsender, s, hs, ex, hex, _, -, -, rfl⟩ := h
  have hdecided : isExcludedTransfer m t.sender_owner t.destination = ex := by
    simp only [isExcludedTransfer, isExcludedBurnHolder, BurnJettonMaster.get_is_excluded, hs]
    cases s with
    | true => exact Except.ok.inj hex
    | false =>
        simp only [Bool.false_eq_true, if_false] at hex ⊢
        rw [hex]
  rw [hdecided, hsender]
  rfl

/-! ## The two splits -/

/-- Off the exclusion list, the client computes the split at the base rates. -/
theorem estimateStakeNet_split {m : BurnJettonMaster} {sender stakingMaster : Address}
    {grossNano : Nat} (hpos : 0 < grossNano)
    (hex : isExcludedTransfer m sender stakingMaster = false)
    (hrates : 0 ≤ m.get_effective_fee_params.burnBps ∧ 0 ≤ m.get_effective_fee_params.stakingBps
      ∧ 0 ≤ m.get_effective_fee_params.treasuryBps) :
    estimateStakeNet m sender stakingMaster grossNano
      = ⟨true, grossNano,
          (BurnedChats.computeFeeParts grossNano m.get_effective_fee_params.burnBps
            m.get_effective_fee_params.stakingBps m.get_effective_fee_params.treasuryBps).fees,
          (BurnedChats.computeFeeParts grossNano m.get_effective_fee_params.burnBps
            m.get_effective_fee_params.stakingBps m.get_effective_fee_params.treasuryBps).net⟩ := by
  obtain ⟨hb, hs, ht⟩ := hrates
  have floor : ∀ {r : Int}, 0 ≤ r →
      ((grossNano : Int) * r).tdiv 10000 = (grossNano : Int) * r / 10000 := fun hr =>
    Int.tdiv_eq_ediv_of_nonneg (mul_nonneg (Int.natCast_nonneg _) hr)
  have hgross : ¬ (grossNano : Int) ≤ 0 := by omega
  rw [estimateStakeNet, if_neg hgross, hex, if_neg Bool.false_ne_true]
  simp only [computeFeeParts, floor hb, floor hs, floor ht, BurnedChats.computeFeeParts,
    FeeParts.fees, StakeNetEstimate.mk.injEq, true_and, and_true]
  omega

/-- The fees and the net amount of two splits that differ in the burn rate. -/
theorem split_eq_iff (amount : Nat) (b b' s t : Int) :
    ((BurnedChats.computeFeeParts amount b' s t).net, (BurnedChats.computeFeeParts amount b' s t).fees)
        = ((BurnedChats.computeFeeParts amount b s t).net,
          (BurnedChats.computeFeeParts amount b s t).fees)
      ↔ (amount : Int) * b' / 10000 = amount * b / 10000 := by
  simp only [BurnedChats.computeFeeParts, FeeParts.fees, Prod.mk.injEq]
  omega

theorem legs_eq_estimate_iff {W : WalletBook} {ctx : Ctx} {m : BurnJettonMaster}
    {x x' : BurnJettonWallet} {stakingMaster : Address} {q grossNano f : Nat} {r : Option Address}
    {p : Slice} {out : List Msg} (hpush : Pushed m x) (hpos : 0 < grossNano)
    (h : BurnJettonWallet.executeJettonTransfer W ctx x q grossNano stakingMaster r f p
      (isExcludedTransfer m x.owner stakingMaster) = .ok (x', out)) :
    legs out = ((estimateStakeNet m x.owner stakingMaster grossNano).netNano,
        (estimateStakeNet m x.owner stakingMaster grossNano).feeNano)
      ↔ Unaffected m x.owner stakingMaster grossNano := by
  obtain ⟨q', ctx', y, y', out', hu, hsame⟩ := hpush
  obtain ⟨d, hd, haccepts⟩ := BurnJettonWallet.receiveUpdateFeeConfig_accepts hu
  rw [← hsame] at hd
  have hc : ConfigOk x.feeConfig := by
    intro d' hd'
    rw [hd] at hd'
    exact Except.ok.inj hd' ▸ haccepts.capped
  rw [BurnJettonWallet.executeJettonTransfer_legs hc hd h]
  cases hex : isExcludedTransfer m x.owner stakingMaster with
  | true =>
      simp [estimateStakeNet, hex, Unaffected]
  | false =>
      have hburn : (d.burnBps : Int) = m.get_effective_fee_params.burnBps := haccepts.burnBps
      have hstake : (d.stakeBps : Int) = m.get_effective_fee_params.stakingBps := haccepts.stakeBps
      have htreas : (d.treasBps : Int) = m.get_effective_fee_params.treasuryBps :=
        haccepts.treasBps
      rw [estimateStakeNet_split hpos hex ⟨by omega, by omega, by omega⟩]
      simp only [Bool.false_eq_true, if_false, feePath, hstake, htreas, split_eq_iff,
        computeDynamicBurnBps_pushed haccepts]
      cases hlow : m.lowSupply <;> cases hdyn : m.dynamicBurnEnabled <;>
        simp [Unaffected, hex, hlow, hdyn]

/-- **The estimate.** In every state that a deployed jetton master reaches, the client,
the wallets on the master's snapshot and the master itself decide alike whether a
transfer is free of fees; and the net amount and the fees that the client shows are
what the wallet sends if and only if the dynamic burn leaves the transfer alone. -/
theorem estimate_matches {D : Deployment} {modelled : Part → Bool}
    {ordered : Address → Address → Bool} {c₀ c : WorldConf} {admin timelock : Address}
    {content : Cell} (h₀ : c₀.st.jetton.master = .fromInitDeployed admin timelock content)
    (h : (network D modelled ordered).Run (Meets (Typed D)) c₀ c) :
    (∀ x d stakingMaster, Pushed c.st.jetton.master x → decodeFeeConfig x.feeConfig = .ok d →
        ∃ s t, isExcludedMember x.owner d.excludedHead d.excludedCount = .ok s
          ∧ isExcludedMember stakingMaster d.excludedHead d.excludedCount = .ok t
          ∧ (s || t) = isExcludedTransfer c.st.jetton.master x.owner stakingMaster)
      ∧ (∀ ctx t m' out,
          BurnJettonMaster.receiveResolve D.wallets ctx c.st.jetton.master t = .ok (m', out) →
          out = BurnJettonMaster.resolution ctx c.st.jetton.master t
            (isExcludedTransfer c.st.jetton.master t.sender_owner t.destination))
      ∧ ∀ x stakingMaster grossNano ctx q r f p x' out, Pushed c.st.jetton.master x →
          0 < grossNano →
          BurnJettonWallet.executeJettonTransfer D.wallets ctx x q grossNano stakingMaster r f p
            (isExcludedTransfer c.st.jetton.master x.owner stakingMaster) = .ok (x', out) →
          (legs out
              = ((estimateStakeNet c.st.jetton.master x.owner stakingMaster grossNano).netNano,
                (estimateStakeNet c.st.jetton.master x.owner stakingMaster grossNano).feeNano)
            ↔ Unaffected c.st.jetton.master x.owner stakingMaster grossNano) := by
  have hlisting : ∃ l, Listing c.st.jetton.master l := by
    refine jettonMaster_invariant (I := fun m => ∃ l, Listing m l) ?_ ?_ h ?_
    · rintro m b ⟨l, hl⟩
      exact ⟨l, hl.of_eq (by cases b <;> rfl) (by cases b <;> rfl)⟩
    · rintro w now g m x' ht - hr ⟨l, hl⟩
      obtain ⟨l', hl', -⟩ := hl.configured ht hr
      exact ⟨l', hl'⟩
    · rw [h₀]
      exact ⟨[], rfl, rfl, nofun, List.nodup_nil, Nat.zero_le _⟩
  obtain ⟨l, hl⟩ := hlisting
  refine ⟨?_, fun ctx t m' out hr => receiveResolve_decides hr, ?_⟩
  · rintro x d stakingMaster ⟨q, ctx, y, y', out, hu, hsame⟩ hd
    obtain ⟨d', hd', haccepts⟩ := BurnJettonWallet.receiveUpdateFeeConfig_accepts hu
    rw [hsame, hd'] at hd
    obtain rfl := Except.ok.inj hd
    exact ⟨_, _, isExcludedMember_pushed hl haccepts _, isExcludedMember_pushed hl haccepts _,
      (isExcludedTransfer_eq _ _ _).symm⟩
  · intro x stakingMaster grossNano ctx q r f p x' out hpush hpos hex
    exact legs_eq_estimate_iff hpush hpos hex

/-! ## A large and a small stake -/

/-- Account 5's wallet takes the master's configuration and sends `amount` to the
staking master: the legs, and the client's estimate. -/
def stakeOf (c : WorldConf) (amount : Nat) : Tx ((Int × Int) × StakeNetEstimate) := do
  let x := (c.st.jetton.wallets.lookup (D₀.addr (.jettonWallet (account 5) D₀.J))).getD
    (.init (account 5) D₀.J)
  let (y, _) ← BurnJettonWallet.receiveUpdateFeeConfig
    (.of (freeGas 0) 1000 (external D₀.J D₀.J 0 .empty)) x (c.st.jetton.master.feeConfigMessage 0)
  let (_, out) ← BurnJettonWallet.executeJettonTransfer D₀.wallets
    (.of (freeGas 0) 1000 (external D₀.J D₀.J (milliTon 4000) .empty)) y 0 amount D₀.S none 0
    noForwardPayload (isExcludedTransfer c.st.jetton.master y.owner D₀.S)
  .ok (legs out, estimateStakeNet c.st.jetton.master y.owner D₀.S amount)

theorem stakeOf_eq_ok {c : WorldConf} {amount : Nat} {r : (Int × Int) × StakeNetEstimate}
    (h : stakeOf c amount = .ok r) :
    ∃ x ctx x' out, Pushed c.st.jetton.master x
      ∧ BurnJettonWallet.executeJettonTransfer D₀.wallets ctx x 0 amount D₀.S none 0
        noForwardPayload (isExcludedTransfer c.st.jetton.master x.owner D₀.S) = .ok (x', out)
      ∧ legs out = r.1 ∧ estimateStakeNet c.st.jetton.master x.owner D₀.S amount = r.2 := by
  simp only [stakeOf, bind_eq_ok, Except.ok.injEq, Prod.exists] at h
  obtain ⟨y, l, hy, x', out, hout, rfl⟩ := h
  exact ⟨y, _, x', out, ⟨0, _, _, y, l, hy, rfl⟩, hout, rfl, rfl⟩

/-- With the dynamic burn enabled, a stake of 20 BURN is estimated at 19.8 and arrives
as 19.75. -/
theorem large_stake_misjudged :
    ∃ c x ctx x' out, (network D₀ jettonParts fun _ _ => false).Run (Meets (Typed D₀))
        (bootstrapAt 1000) c
      ∧ Pushed c.st.jetton.master x
      ∧ BurnJettonWallet.executeJettonTransfer D₀.wallets ctx x 0 (20 * 10 ^ 9) D₀.S none 0
        noForwardPayload (isExcludedTransfer c.st.jetton.master x.owner D₀.S) = .ok (x', out)
      ∧ legs out = (19750000000, 250000000)
      ∧ estimateStakeNet c.st.jetton.master x.owner D₀.S ((20 * 10 ^ 9 : Nat) : Int)
        = ⟨true, 20000000000, 200000000, 19800000000⟩ := by
  have hrun : ((network D₀ jettonParts fun _ _ => false).execWhile
      (fun c a => decide (Meets (Typed D₀) c a)) .silent (bootstrapAt 1000) ()
      (dynamicBurning (account 5) (200 * 10 ^ 9))).map (fun r => stakeOf r.1 (20 * 10 ^ 9))
      = some (.ok ((19750000000, 250000000),
          ⟨true, 20000000000, 200000000, 19800000000⟩)) := by
    decide +kernel
  obtain ⟨⟨c, l⟩, hc, hstake⟩ := Option.map_eq_some_iff.mp hrun
  obtain ⟨x, ctx, x', out, hpush, hout, hlegs, hestimate⟩ := stakeOf_eq_ok hstake
  exact ⟨c, x, ctx, x', out, (Machine.logged_of_execWhile (fun _ _ h => of_decide_eq_true h) hc).run,
    hpush, hout, hlegs, hestimate⟩

/-- A stake of 1 BURN is estimated right. -/
theorem estimate_matches_small :
    ∃ c x ctx x' out, (network D₀ jettonParts fun _ _ => false).Run (Meets (Typed D₀))
        (bootstrapAt 1000) c
      ∧ Pushed c.st.jetton.master x
      ∧ BurnJettonWallet.executeJettonTransfer D₀.wallets ctx x 0 (10 ^ 9) D₀.S none 0
        noForwardPayload (isExcludedTransfer c.st.jetton.master x.owner D₀.S) = .ok (x', out)
      ∧ Unaffected c.st.jetton.master x.owner D₀.S (10 ^ 9) := by
  have hrun : ((network D₀ jettonParts fun _ _ => false).execWhile
      (fun c a => decide (Meets (Typed D₀) c a)) .silent (bootstrapAt 1000) ()
      (dynamicBurning (account 5) (200 * 10 ^ 9))).map (fun r => stakeOf r.1 (10 ^ 9))
      = some (.ok ((990000000, 10000000), ⟨true, 1000000000, 10000000, 990000000⟩)) := by
    decide +kernel
  obtain ⟨⟨c, l⟩, hc, hstake⟩ := Option.map_eq_some_iff.mp hrun
  obtain ⟨x, ctx, x', out, hpush, hout, hlegs, hestimate⟩ := stakeOf_eq_ok hstake
  have h := (Machine.logged_of_execWhile (G := Meets (Typed D₀))
    (fun _ _ h => of_decide_eq_true h) hc).run
  have hmatch := (estimate_matches rfl h).2.2 x D₀.S (10 ^ 9) ctx 0 none 0 noForwardPayload x' out
    hpush (by decide) hout
  refine ⟨c, x, ctx, x', out, h, hpush, hout, hmatch.mp ?_⟩
  rw [hlegs, hestimate]

end BurnedChats.StakeEstimate

import BurnedChats.Governance.Payload
import BurnedChats.Staking.Power
import BurnedChats.Staking.Runs
import BurnedChats.Staking.Tiers

/-!
# Notifications of incoming jettons

The jetton wallet of the staking master reports incoming jettons with a message that
does not bounce: if its handler throws, the jettons stay in the wallet and nothing
records whose they are. Every check of an acceptance is therefore a branch that sends
the jettons back. What can still throw is the parsing of the cell that the payload
refers to, which is the sender's own: it is read for an opcode before anything is
known of its length, and for a tier once the opcode is there (`Legible`).
-/

namespace BurnedChats

open Network StakingMaster

/-! ## Payloads -/

/-- An admitted payload is inline, or one bit and one reference. -/
theorem checkEitherForwardPayload_cases {p : Slice} (h : checkEitherForwardPayload p = .ok ()) :
    (∃ l r, p = ⟨false :: l, r⟩) ∨ ∃ inner, p = ⟨[true], [inner]⟩ := by
  obtain ⟨bits, refs⟩ := p
  cases bits with
  | nil => cases h
  | cons b l =>
      cases b with
      | false => exact .inl ⟨l, refs, rfl⟩
      | true =>
          have hone : (Slice.mk (true :: l) refs).preloadUint 1 = .ok 1 := rfl
          simp only [checkEitherForwardPayload, hone, ok_bind, if_true, require_eq_ok,
            List.length_cons] at h
          obtain ⟨inner, rfl⟩ := List.length_eq_one_iff.mp h.1
          obtain rfl := List.length_eq_zero_iff.mp (Nat.succ.inj h.2)
          exact .inr ⟨inner, rfl⟩

theorem hasForwardPayload_inline (op : Nat) (l : List Bool) (r : List Cell) :
    hasForwardPayload op ⟨false :: l, r⟩ = .ok false := rfl

theorem hasForwardPayload_ref (op : Nat) (inner : Cell) :
    hasForwardPayload op ⟨[true], [inner]⟩
      = if 32 ≤ inner.bits.length then .ok (decide (bitsToNat (inner.bits.take 32) = op))
        else .error "Cell underflow" := by
  have hread : hasForwardPayload op ⟨[true], [inner]⟩ = (do
      let o ← inner.beginParse.preloadUint 32
      .ok (decide (o = op))) := rfl
  rw [hread]
  by_cases h : 32 ≤ inner.bits.length
  · simp [Slice.preloadUint, Slice.loadUint, Slice.loadBits, Cell.beginParse, h]
  · simp [Slice.preloadUint, Slice.loadUint, Slice.loadBits, Cell.beginParse, h]

theorem stakeForwardTier_ref (inner : Cell) :
    stakeForwardTier ⟨[true], [inner]⟩
      = if 40 ≤ inner.bits.length then .ok (bitsToNat ((inner.bits.drop 32).take 8))
        else .error "Cell underflow" := by
  by_cases h : 32 ≤ inner.bits.length
  · by_cases h' : 40 ≤ inner.bits.length
    · have h8 : 8 ≤ inner.bits.length - 32 := by omega
      simp [stakeForwardTier, Slice.loadRef, Cell.beginParse, Slice.skipBits, Slice.loadBits,
        Slice.loadUint, h, h', h8]
    · have h8 : ¬ 8 ≤ inner.bits.length - 32 := by omega
      simp [stakeForwardTier, Slice.loadRef, Cell.beginParse, Slice.skipBits, Slice.loadBits,
        Slice.loadUint, h, h', h8]
  · have h' : ¬ 40 ≤ inner.bits.length := by omega
    simp [stakeForwardTier, Slice.loadRef, Cell.beginParse, Slice.skipBits, Slice.loadBits, h, h']

/-- A referenced cell has an opcode; and where the opcode is the one of a stake and the
amount is large enough for one, a tier. -/
def Legible (msg : JettonNotification) : Prop :=
  ∀ inner, msg.forwardPayload = ⟨[true], [inner]⟩ →
    32 ≤ inner.bits.length
      ∧ (bitsToNat (inner.bits.take 32) = StakeForward.opcode → MinStakeNano ≤ msg.amount →
        40 ≤ inner.bits.length)

namespace StakingMaster

variable {ctx : Ctx} {s s' : StakingMaster} {msg : JettonNotification} {out : List Msg}

theorem stakeVerdict_legible (ctx : Ctx) (s : StakingMaster)
    (hpayload : checkEitherForwardPayload msg.forwardPayload = .ok ()) :
    (∃ v, stakeVerdict ctx s msg = .ok v) ↔ Legible msg := by
  rcases checkEitherForwardPayload_cases hpayload with ⟨l, r, hp⟩ | ⟨inner, hp⟩
  · have hlegible : Legible msg := by
      intro inner hinner
      rw [hp] at hinner
      cases hinner
    refine iff_of_true ?_ hlegible
    simp only [stakeVerdict, hp, hasForwardPayload_inline, ok_bind]
    split <;> exact ⟨_, rfl⟩
  · have hlegible : Legible msg ↔ 32 ≤ inner.bits.length
        ∧ (bitsToNat (inner.bits.take 32) = StakeForward.opcode → MinStakeNano ≤ msg.amount →
          40 ≤ inner.bits.length) := by
      refine ⟨fun h => h inner hp, fun h inner' hinner => ?_⟩
      rw [hp] at hinner
      obtain rfl : inner = inner' := by
        cases hinner
        rfl
      exact h
    rw [hlegible]
    simp only [stakeVerdict, hp, hasForwardPayload_ref, stakeForwardTier_ref]
    by_cases h32 : 32 ≤ inner.bits.length
    · simp only [h32, if_true, ok_bind, true_and]
      by_cases hamount : msg.amount < MinStakeNano
      · have hno : ¬ MinStakeNano ≤ msg.amount := by omega
        simp [hamount, hno]
      · have hyes : MinStakeNano ≤ msg.amount := by omega
        by_cases hop : bitsToNat (inner.bits.take 32) = StakeForward.opcode
        · by_cases h40 : 40 ≤ inner.bits.length
          · simp only [hamount, if_false, hop, decide_true, Bool.not_true, Bool.false_eq_true, h40,
              if_true, ok_bind, implies_true, iff_true]
            split
            · exact ⟨_, rfl⟩
            · split <;> exact ⟨_, rfl⟩
          · simp [hamount, hop, h40, hyes]
        · simp [hamount, hop]
    · simp [h32]

theorem stakeVerdict_ignore (h : stakeVerdict ctx s msg = .ok .ignore) :
    msg.amount < MinStakeNano
      ∧ hasForwardPayload StakeForward.opcode msg.forwardPayload = .ok false := by
  simp only [stakeVerdict, bind_eq_ok] at h
  obtain ⟨staking, hstaking, h⟩ := h
  split at h
  · rename_i hamount
    refine ⟨hamount, ?_⟩
    cases staking with
    | true => cases h
    | false => exact hstaking
  · cases staking with
    | false => cases h
    | true =>
        simp only [Bool.not_true, Bool.false_eq_true, if_false, bind_eq_ok] at h
        obtain ⟨tier, -, h⟩ := h
        split at h
        · cases h
        · split at h <;> cases h

theorem stakeVerdict_accept {tier : Nat} (h : stakeVerdict ctx s msg = .ok (.accept tier)) :
    MinStakeNano ≤ msg.amount ∧ stakeForwardTier msg.forwardPayload = .ok tier ∧ tier ≤ 3
      ∧ (s.tierConfigs.lookup tier).isSome = true := by
  simp only [stakeVerdict, bind_eq_ok] at h
  obtain ⟨staking, -, h⟩ := h
  split at h
  · cases staking <;> cases h
  · rename_i hamount
    cases staking with
    | false => cases h
    | true =>
        simp only [Bool.not_true, Bool.false_eq_true, if_false, bind_eq_ok] at h
        obtain ⟨tier', htier, h⟩ := h
        split at h
        · cases h
        · rename_i hbad
          split at h
          · cases h
          · obtain rfl : tier' = tier := by
              cases h
              rfl
            obtain ⟨hle, hrow⟩ := not_or.mp hbad
            exact ⟨by omega, htier, by omega, Option.ne_none_iff_isSome.mp hrow⟩

/-! ## Acceptance does not throw -/

theorem applySlices_ok (fee : Nat) : ∀ (ts : List Nat) (s : StakingMaster) (d : Nat),
    (∀ t ∈ ts, ∃ cfg, s.tierCfg t = .ok cfg) → ∃ r, applySlices fee ts s d = .ok r := by
  intro ts
  induction ts with
  | nil => exact fun s d _ => ⟨(s, d), rfl⟩
  | cons t ts ih =>
      intro s d hcfg
      obtain ⟨cfg, ht⟩ := hcfg t (List.mem_cons_self ..)
      simp only [applySlices, ht, ok_bind]
      refine ih _ _ fun u hu => ?_
      obtain ⟨cfg', hu'⟩ := hcfg u (List.mem_cons_of_mem t hu)
      refine ⟨cfg', ?_⟩
      rw [← hu']
      unfold accumulateTierRewardFromStakeFeeSlice
      split
      · rfl
      · dsimp only
        split <;> rfl

theorem tickEmission_ok (ctx : Ctx) (hc : s.Configured) : ∃ r, tickEmission ctx s = .ok r := by
  simp only [tickEmission]
  split
  · exact ⟨_, rfl⟩
  split
  · exact ⟨_, rfl⟩
  split
  · exact ⟨_, rfl⟩
  split
  · exact ⟨_, rfl⟩
  rename_i hpending
  have hpos : 0 < (s.emissionPending ((ctx.now : Int) - s.lastEmitTime)).toNat := by omega
  obtain ⟨r, hr⟩ := applySlices_ok (s.emissionPending ((ctx.now : Int) - s.lastEmitTime)).toNat
    tiers s 0 fun t ht => hc.tierCfg ht
  simp only [applyStakeFeeSlices, require_pos hpos, ok_bind, hr]
  split <;> exact ⟨_, rfl⟩

theorem enterPosition_ok (ctx : Ctx) (s : StakingMaster) {tier : Nat} (unlockTime : Nat)
    (htier : tier ≤ 3) (hamount : 0 < msg.amount) :
    ∃ r, enterPosition ctx s msg tier unlockTime = .ok r := by
  have hadd : ∀ s : StakingMaster, ∃ r, s.addTierTotalStake tier msg.amount = .ok r := by
    intro s
    simp only [addTierTotalStake, assertTier, require_pos htier, require_pos hamount,
      require_pos (Nat.le_add_right _ _), ok_bind]
    exact ⟨_, rfl⟩
  unfold enterPosition
  dsimp only
  cases s.stakesMapGet tier msg.sender with
  | some old =>
      dsimp only
      obtain ⟨r, hr⟩ := hadd (s.stakesMapSet tier msg.sender
        { amount := old.amount + msg.amount, tier, startTime := old.startTime
          lastClaimTime := ctx.now, unlockTime })
      split
      · rename_i hpending
        simp only [sendPayRewards, require_pos hpending, ok_bind, hr]
        exact ⟨_, rfl⟩
      · simp only [ok_bind, hr]
        exact ⟨_, rfl⟩
  | none =>
      dsimp only
      obtain ⟨r, hr⟩ := hadd (s.stakesMapSet tier msg.sender
        { amount := msg.amount, tier, startTime := ctx.now, lastClaimTime := ctx.now, unlockTime })
      simp only [hr, ok_bind]
      exact ⟨_, rfl⟩

theorem acceptStake_ok (hc : s.Configured) {tier : Nat}
    (h : stakeVerdict ctx s msg = .ok (.accept tier)) :
    ∃ r, acceptStake ctx s msg tier = .ok r := by
  obtain ⟨hamount, -, htier, -⟩ := stakeVerdict_accept h
  obtain ⟨⟨s₁, ticked⟩, htick⟩ := tickEmission_ok ctx hc
  have hrows : s₁.tierConfigs = s.tierConfigs := (tickEmission_frame htick).2.2.2.2.1
  have hc₁ : s₁.Configured := by
    intro t ht
    rw [hrows]
    exact hc t ht
  obtain ⟨cfg, hcfg⟩ := hc₁.tierCfg (mem_tiers.mpr htier)
  have hpos : 0 < msg.amount := by
    simp only [MinStakeNano] at hamount
    omega
  obtain ⟨⟨s₂, paid⟩, henter⟩ := enterPosition_ok ctx s₁
    (ctx.now + cfg.durationSeconds) htier hpos
  simp only [acceptStake, htick, ok_bind, hcfg, henter]
  exact ⟨_, rfl⟩

/-! ## What becomes of the jettons -/

/-- The transfers that the master orders from its own jetton wallet. -/
def jettonsOut (s : StakingMaster) (out : List Msg) : List JettonTransfer :=
  out.filterMap fun m =>
    match m.body with
    | .jettonTransfer t => if m.dst = s.stakingJettonWallet then some t else none
    | _ => none

/-- The amount joins the sender's position in the tier it asked for, and goes to the
pool. -/
def Staked (s : StakingMaster) (msg : JettonNotification) (s' : StakingMaster) (out : List Msg) :
    Prop :=
  ∃ tier t, stakeForwardTier msg.forwardPayload = .ok tier
    ∧ s'.held tier msg.sender = s.held tier msg.sender + msg.amount
    ∧ s.jettonsOut out = [t] ∧ t.amount = msg.amount ∧ t.destination = s.pool

/-- The amount goes back to the sender. -/
def Refunded (s : StakingMaster) (msg : JettonNotification) (s' : StakingMaster) (out : List Msg) :
    Prop :=
  s' = s ∧ ∃ t, s.jettonsOut out = [t] ∧ t.amount = msg.amount ∧ t.destination = msg.sender

/-- The amount is dust that nobody asked to stake. -/
def Ignored (s : StakingMaster) (msg : JettonNotification) (s' : StakingMaster) (out : List Msg) :
    Prop :=
  s' = s ∧ s.jettonsOut out = [] ∧ msg.amount < MinStakeNano
    ∧ hasForwardPayload StakeForward.opcode msg.forwardPayload = .ok false

def ExactlyOne (p q r : Prop) : Prop := (p ∧ ¬ q ∧ ¬ r) ∨ (¬ p ∧ q ∧ ¬ r) ∨ (¬ p ∧ ¬ q ∧ r)

/-- The notification is handled, in one of three ways. -/
def Settles (ctx : Ctx) (s : StakingMaster) (msg : JettonNotification) : Prop :=
  ∃ s' out, s.receive ctx (.jettonNotification msg) = .ok (s', out)
    ∧ ExactlyOne (Staked s msg s' out) (Refunded s msg s' out) (Ignored s msg s' out)

theorem jettonsOut_append (s : StakingMaster) (l l' : List Msg) :
    s.jettonsOut (l ++ l') = s.jettonsOut l ++ s.jettonsOut l' :=
  List.filterMap_append

theorem Staked.exactlyOne (h : Staked s msg s' out) (hamount : 0 < msg.amount) :
    ExactlyOne (Staked s msg s' out) (Refunded s msg s' out) (Ignored s msg s' out) := by
  obtain ⟨tier, t, -, hheld, hout, -⟩ := id h
  refine .inl ⟨h, fun hr => ?_, fun hi => ?_⟩
  · obtain ⟨rfl, -⟩ := hr
    omega
  · obtain ⟨-, hnone, -⟩ := hi
    rw [hnone] at hout
    cases hout

theorem Refunded.exactlyOne (h : Refunded s msg s' out) (hamount : 0 < msg.amount) :
    ExactlyOne (Staked s msg s' out) (Refunded s msg s' out) (Ignored s msg s' out) := by
  obtain ⟨rfl, t, hout, -⟩ := id h
  refine .inr (.inl ⟨fun hs => ?_, h, fun hi => ?_⟩)
  · obtain ⟨tier, t', -, hheld, -⟩ := hs
    omega
  · obtain ⟨-, hnone, -⟩ := hi
    rw [hnone] at hout
    cases hout

theorem Ignored.exactlyOne (h : Ignored s msg s' out) (hamount : 0 < msg.amount) :
    ExactlyOne (Staked s msg s' out) (Refunded s msg s' out) (Ignored s msg s' out) := by
  obtain ⟨rfl, hnone, -⟩ := id h
  refine .inr (.inr ⟨fun hs => ?_, fun hr => ?_, h⟩)
  · obtain ⟨tier, t', -, hheld, -⟩ := hs
    omega
  · obtain ⟨-, t, hout, -⟩ := hr
    rw [hnone] at hout
    cases hout

theorem jettonsOut_tick {s₁ : StakingMaster} {ticked : List Msg}
    (h : tickEmission ctx s = .ok (s₁, ticked)) : s.jettonsOut ticked = [] := by
  obtain ⟨r, -, -, rfl⟩ := tickEmission_spec h
  split <;> rfl

theorem jettonsOut_rewards (s : StakingMaster) (who : Address) (reward q : Nat) :
    s.jettonsOut (rewardMsgs ctx s who reward q) = [] := by
  unfold rewardMsgs
  split <;> rfl

theorem acceptStake_staked {tier : Nat} (hsender : ctx.sender = s.stakingJettonWallet)
    (hverdict : stakeVerdict ctx s msg = .ok (.accept tier))
    (h : acceptStake ctx s msg tier = .ok (s', out)) : Staked s msg s' out := by
  obtain ⟨-, htier, -, -⟩ := stakeVerdict_accept hverdict
  cases acceptStake_did hsender hverdict h with
  | @stake _ tier' s₁ ticked cfg info _ hverdict' _ _ htick _ hamount _ _ =>
      obtain rfl : tier' = tier := by
        rw [hverdict] at hverdict'
        cases hverdict'
        rfl
      have hjettons : s.jettonsOut (ticked
            ++ rewardMsgs ctx s msg.sender (s₁.calculatePendingRewardFor msg.sender tier') msg.queryId
            ++ [ctx.message s.pool GasToPool true
                  (.incrementTotalStake { queryId := msg.queryId, tier := tier', delta := msg.amount }),
                s.creditPool ctx msg.queryId msg.amount,
                forwardStakeJettonsToPool ctx s msg.amount msg.queryId msg.sender,
                ctx.cashback msg.sender])
          = s.jettonsOut [forwardStakeJettonsToPool ctx s msg.amount msg.queryId msg.sender] := by
        rw [jettonsOut_append, jettonsOut_append, jettonsOut_tick htick, jettonsOut_rewards]
        rfl
      have hone : s.jettonsOut [forwardStakeJettonsToPool ctx s msg.amount msg.queryId msg.sender]
          = [{ queryId := msg.queryId, amount := msg.amount, destination := s.pool
               responseDestination := some msg.sender, customPayload := none
               forwardTonAmount := 0, forwardPayload := noForwardPayload }] := by
        simp [jettonsOut, forwardStakeJettonsToPool, jettonTransferOut, Ctx.message]
      refine ⟨tier', _, htier, ?_, hjettons.trans hone, rfl, rfl⟩
      have hget : (s₁.rebased tier' msg.sender info
          (s.tierTotalStake tier' + msg.amount)).stakesMapGet tier' msg.sender = some info := by
        rw [stakesMapGet, rebased, Table.lookup_insert_of, if_pos rfl]
      rw [held, hget]
      exact hamount
  | quiet hacts =>
      simp [actsOn, hverdict] at hacts

theorem returnSubMinStakeJettons_refunded (hvalue : GasForwardStakeJetton ≤ ctx.value) :
    ∃ out, returnSubMinStakeJettons ctx s msg.amount msg.sender msg.queryId = .ok (s, out)
      ∧ Refunded s msg s out := by
  simp only [returnSubMinStakeJettons, require_pos hvalue, ok_bind]
  refine ⟨_, rfl, rfl, { queryId := msg.queryId, amount := msg.amount, destination := msg.sender
                         responseDestination := some msg.sender, customPayload := none
                         forwardTonAmount := 0, forwardPayload := noForwardPayload }, ?_, rfl, rfl⟩
  simp [jettonsOut, jettonTransferOut, Ctx.message, Ctx.cashback]

/-- A configured master settles a notification exactly when it can read it. -/
theorem settles_iff (hc : s.Configured) (hjw : s.jwConfigured = true)
    (hsender : ctx.sender = s.stakingJettonWallet) (hamount : 1 ≤ msg.amount)
    (hvalue : GasForwardStakeJetton ≤ ctx.value)
    (hpayload : checkEitherForwardPayload msg.forwardPayload = .ok ()) :
    Settles ctx s msg ↔ Legible msg := by
  rw [← stakeVerdict_legible ctx s hpayload]
  constructor
  · rintro ⟨s', out, h, -⟩
    simp only [receive, receiveJettonNotification, bind_eq_ok] at h
    obtain ⟨_, -, _, -, v, hv, -⟩ := h
    exact ⟨v, hv⟩
  · rintro ⟨v, hv⟩
    simp only [Settles, receive, receiveJettonNotification, require_pos hjw, require_pos hsender,
      ok_bind, hv]
    cases v with
    | ignore =>
        obtain ⟨hdust, hplain⟩ := stakeVerdict_ignore hv
        have hi : Ignored s msg s [ctx.cashback ctx.sender] := ⟨rfl, rfl, hdust, hplain⟩
        exact ⟨s, _, rfl, hi.exactlyOne hamount⟩
    | refund =>
        obtain ⟨out, hout, hr⟩ := returnSubMinStakeJettons_refunded (s := s) hvalue
        exact ⟨s, out, hout, hr.exactlyOne hamount⟩
    | accept tier =>
        obtain ⟨⟨s', out⟩, hout⟩ := acceptStake_ok hc hv
        exact ⟨s', out, hout, (acceptStake_staked hsender hv hout).exactlyOne hamount⟩

end StakingMaster

/-! ## Whole runs -/

section Runs

variable {D : Deployment} {modelled : Part → Bool} {ordered : Address → Address → Bool}

theorem configured_tracks :
    (network D modelled ordered).Tracks (fun _ _ => True)
      (masterRecorder D fun _ _ _ _ _ (l : Unit) => l) fun c _ => c.st.sm.Configured :=
  master_tracks (I := fun _ s _ => s.Configured) (fun c a _ => meets_true c a) (fun _ _ _ _ h => h)
    fun _ _ _ _ _ _ _ _ _ _ hdid h => did_configured hdid h

/-- **Notifications settle.** Whatever the deployed master has been through: a
notification of its jetton wallet, with an admitted payload and the TON for a refund,
is handled in exactly one of three ways (staked, refunded, ignored as dust) if and
only if the cell it refers to is long enough to be read. -/
theorem notification_settles {c₀ c : WorldConf}
    (h₀ : c₀.st.sm.tierConfigs = defaultStakingTierConfigs)
    (h : (network D modelled ordered).Reach c₀ c) (ctx : Ctx) (msg : JettonNotification)
    (hjw : c.st.sm.jwConfigured = true) (hsender : ctx.sender = c.st.sm.stakingJettonWallet)
    (hamount : 1 ≤ msg.amount) (hvalue : GasForwardStakeJetton ≤ ctx.value)
    (hpayload : checkEitherForwardPayload msg.forwardPayload = .ok ()) :
    Settles ctx c.st.sm msg ↔ Legible msg := by
  have hstart : c₀.st.sm.Configured := by
    intro t ht
    rw [h₀]
    exact (tierTableOk_default.keys t).mpr (Nat.lt_succ_of_le (mem_tiers.mp ht))
  obtain ⟨l, hl⟩ := h.logged (masterRecorder D fun _ _ _ _ _ (l : Unit) => l) ()
  exact settles_iff (hl.invariant configured_tracks hstart) hjw hsender hamount hvalue hpayload

/-- A transfer of 1 BURN to the staking master, whose payload refers to `inner`. -/
def noticeOf (inner : Cell) : JettonNotification :=
  { queryId := 0, amount := 10 ^ 9, sender := account 3, forwardPayload := ⟨[true], [inner]⟩ }

/-- The master's wallet delivers it with 5 TON. -/
def noticeCtx : Ctx := .of (freeGas 0) 1000 (stakeNotice 0 0 (account 3) (milliTon 5000))

/-- A comment in the referenced cell: the jettons go back. -/
theorem notification_settles_comment :
    Settles noticeCtx bootstrap.sm (noticeOf (.mk (natToBits 32 0) [])) := by
  have hreach : (network D₀ tiersOnly fun _ _ => false).Reach (bootstrapAt 1000)
      (bootstrapAt 1000) := .refl _
  refine (notification_settles rfl hreach noticeCtx _ rfl rfl (by decide) (by decide)
    (by decide)).mpr fun inner h => ?_
  cases h
  decide

theorem not_settles {ctx : Ctx} {s : StakingMaster} {msg : JettonNotification} {e : String}
    (h : s.receive ctx (.jettonNotification msg) = .error e) : ¬ Settles ctx s msg := by
  rintro ⟨s', out, hok, -⟩
  rw [h] at hok
  cases hok

/-- An empty cell has no opcode, and a bare opcode of a stake has no tier: the handler
throws, and the jettons stay. -/
theorem notification_strands :
    (checkEitherForwardPayload (noticeOf .empty).forwardPayload = .ok ()
        ∧ GasForwardStakeJetton ≤ noticeCtx.value
        ∧ bootstrap.sm.receive noticeCtx (.jettonNotification (noticeOf .empty))
          = .error "Cell underflow"
        ∧ ¬ Settles noticeCtx bootstrap.sm (noticeOf .empty))
      ∧ ¬ Settles noticeCtx bootstrap.sm
        (noticeOf (.mk (natToBits 32 StakeForward.opcode) [])) := by
  have hempty : bootstrap.sm.receive noticeCtx (.jettonNotification (noticeOf .empty))
      = .error "Cell underflow" := rfl
  refine ⟨⟨rfl, by decide, hempty, not_settles hempty⟩, ?_⟩
  have hbare : bootstrap.sm.receive noticeCtx
      (.jettonNotification (noticeOf (.mk (natToBits 32 StakeForward.opcode) [])))
      = .error "Cell underflow" := rfl
  exact not_settles hbare

end Runs

end BurnedChats

import BurnedChats.Bootstrap

/-!
# Runs of the jetton master

A property of the jetton master, together with a log of what it has accepted,
that every accepted execution preserves holds throughout every run of every
network that contains the master (`jettonMaster_tracks`); the wallets have the
corresponding rule without a log (`wallets_preserved`).

A message reaches a handler only with fields its declaration can hold.
`Body.inRange` says so for the fields that the master copies into its storage.
-/

namespace BurnedChats

open Network

variable {D : Deployment} {modelled : Part → Bool} {ordered : Address → Address → Bool} {L : Type}

instance (a : Address) : Decidable a.Standard := inferInstanceAs (Decidable (_ < _))

/-- The declared ranges of the fields the master stores: addresses have 256 bits
and coin amounts 120. -/
def Body.inRange : Body → Bool
  | .setFeeDestinations msg => decide (msg.staking_pool.Standard ∧ msg.treasury.Standard)
  | .addExcluded _ address | .removeExcluded _ address => decide address.Standard
  | .setDynamicBurnThresholds msg => decide (msg.large_tx_threshold < 2 ^ 120)
  | _ => true

/-- A delivery of a message the platform can represent. -/
def Typed (D : Deployment) (_ : World) (_ : Nat) (_ : Gas) (m : Msg) : Prop :=
  (D.opened m.body).inRange = true

instance (w : World) (now : Nat) (g : Gas) (m : Msg) : Decidable (Typed D w now g m) :=
  inferInstanceAs (Decidable (_ = _))

namespace BurnJettonMaster

variable {W : WalletBook} {ctx : Ctx} {x x' : BurnJettonMaster} {b : Body} {out : List Msg}

/-- What an accepted execution does to the configuration: the timelock's changes,
the count of burns, and everything else, which leaves the configuration alone. -/
inductive Configured (ctx : Ctx) (x : BurnJettonMaster) : Body → BurnJettonMaster → Prop where
  | feeParams (msg : SetFeeParams)
      (h : 0 ≤ msg.burn_rate_bps ∧ 0 ≤ msg.staking_rate_bps ∧ 0 ≤ msg.treasury_rate_bps
        ∧ msg.burn_rate_bps + msg.staking_rate_bps + msg.treasury_rate_bps ≤ MAX_TOTAL_FEE_BPS) :
      Configured ctx x (.setFeeParams msg)
        { x with
          burnRateBps := msg.burn_rate_bps
          stakingRateBps := msg.staking_rate_bps
          treasuryRateBps := msg.treasury_rate_bps }
  | feeDestinations (msg : SetFeeDestinations) :
      Configured ctx x (.setFeeDestinations msg)
        { x with
          stakingPoolOwner := msg.staking_pool
          treasuryOwner := msg.treasury
          feeDestinationsActive := true }
  | present (q : Nat) (a : Address) (h : isInExcludedChain a x.excludedHead = .ok true) :
      Configured ctx x (.addExcluded q a) x
  | added (q : Nat) (a : Address) (h : isInExcludedChain a x.excludedHead = .ok false)
      (hlt : x.excludedCount < MAX_EXCLUDED_ADDRESSES) :
      Configured ctx x (.addExcluded q a)
        { x with
          excludedHead := excludedChainPrepend x.excludedHead a
          excludedCount := x.excludedCount + 1 }
  | absent (q : Nat) (a : Address) (h : isInExcludedChain a x.excludedHead = .ok false) :
      Configured ctx x (.removeExcluded q a) x
  | removed (q : Nat) (a : Address) (head : Cell)
      (h : isInExcludedChain a x.excludedHead = .ok true)
      (hhead : excludedChainRemove a x.excludedHead = .ok head) :
      Configured ctx x (.removeExcluded q a)
        { x with excludedHead := head, excludedCount := x.excludedCount - 1 }
  | dynamicBurn (q : Nat) (enabled : Bool) :
      Configured ctx x (.setDynamicBurnEnabled q enabled) { x with dynamicBurnEnabled := enabled }
  | thresholds (msg : SetDynamicBurnThresholds) :
      Configured ctx x (.setDynamicBurnThresholds msg)
        { x with
          largeTxThreshold := msg.large_tx_threshold
          activityThreshold := msg.activity_threshold }
  | autoReduce (msg : SetAutoReduceParams)
      (h : 0 ≤ msg.low_burn_bps ∧ 0 ≤ msg.low_staking_bps ∧ 0 ≤ msg.low_treasury_bps
        ∧ msg.low_burn_bps + msg.low_staking_bps + msg.low_treasury_bps ≤ MAX_TOTAL_FEE_BPS) :
      Configured ctx x (.setAutoReduceParams msg)
        { x with
          autoReduceThreshold := msg.threshold
          lowBurnBps := msg.low_burn_bps
          lowStakingBps := msg.low_staking_bps
          lowTreasuryBps := msg.low_treasury_bps }
  | timelock (q : Nat) (newTimelock : Address) :
      Configured ctx x (.setTimelock q newTimelock) { x with timelock := newTimelock }
  | gasParams (msg : SetGasParams) (gas : GasParamsView) (h : isValidGasParams gas = true) :
      Configured ctx x (.setGasParams msg) { x with gas }
  | burn (msg : JettonBurnNotification) :
      Configured ctx x (.jettonBurnNotification msg)
        { x with
          activityHourBucket := ctx.now / 3600
          txCountLastHour :=
            (if (ctx.now / 3600 : Int) ≠ x.activityHourBucket then 0 else x.txCountLastHour) + 1
          totalSupply := x.totalSupply - msg.amount }
  | other (b : Body) (supply : Int) (admin : Address) (mintable : Bool) (content : Cell)
      (hadd : ∀ q a, b ≠ .addExcluded q a) (hremove : ∀ q a, b ≠ .removeExcluded q a) :
      Configured ctx x b { x with totalSupply := supply, admin, mintable, content }

theorem receiveTimelock_configured (h : x.receiveTimelock ctx b = .ok x') :
    Configured ctx x b x' := by
  cases b with
  | setFeeParams msg =>
      simp only [receiveTimelock, bind_eq_ok, require_eq_ok, Except.ok.injEq] at h
      obtain ⟨_, -, _, hbps, rfl⟩ := h
      exact .feeParams msg hbps
  | setAutoReduceParams msg =>
      simp only [receiveTimelock, bind_eq_ok, require_eq_ok, Except.ok.injEq] at h
      obtain ⟨_, -, _, hbps, rfl⟩ := h
      exact .autoReduce msg hbps
  | setGasParams msg =>
      simp only [receiveTimelock, bind_eq_ok, require_eq_ok, Except.ok.injEq] at h
      obtain ⟨_, -, _, hgas, rfl⟩ := h
      exact .gasParams msg _ hgas
  | setFeeDestinations msg =>
      obtain ⟨_, -, hx⟩ := bind_eq_ok.mp h
      exact Except.ok.inj hx ▸ .feeDestinations msg
  | setDynamicBurnEnabled q enabled =>
      obtain ⟨_, -, hx⟩ := bind_eq_ok.mp h
      exact Except.ok.inj hx ▸ .dynamicBurn q enabled
  | setDynamicBurnThresholds msg =>
      obtain ⟨_, -, hx⟩ := bind_eq_ok.mp h
      exact Except.ok.inj hx ▸ .thresholds msg
  | setTimelock q newTimelock =>
      obtain ⟨_, -, hx⟩ := bind_eq_ok.mp h
      exact Except.ok.inj hx ▸ .timelock q newTimelock
  | addExcluded q a =>
      simp only [receiveTimelock, bind_eq_ok] at h
      obtain ⟨_, -, found, hfound, h⟩ := h
      cases found with
      | true => exact Except.ok.inj h ▸ .present q a hfound
      | false =>
          simp only [Bool.false_eq_true, if_false, bind_eq_ok, require_eq_ok, exists_const] at h
          exact Except.ok.inj h.2 ▸ .added q a hfound h.1
  | removeExcluded q a =>
      simp only [receiveTimelock, bind_eq_ok] at h
      obtain ⟨_, -, found, hfound, h⟩ := h
      cases found with
      | false => exact Except.ok.inj h ▸ .absent q a hfound
      | true =>
          obtain ⟨head, hhead, hx⟩ := bind_eq_ok.mp h
          exact Except.ok.inj hx ▸ .removed q a head hfound hhead
  | _ => cases h

theorem receive_configured (h : x.receive W ctx b = .ok (x', out)) : Configured ctx x b x' := by
  cases b with
  | jettonBurnNotification msg =>
      obtain ⟨_, -, hx⟩ := bind_eq_ok.mp h
      exact (Prod.mk.inj (Except.ok.inj hx)).1 ▸ .burn msg
  | empty => exact (Prod.mk.inj (Except.ok.inj h)).1 ▸ .other _ _ _ _ _ nofun nofun
  | closeMint | jettonUpdateContent | changeOwner | provideWalletAddress =>
      obtain ⟨_, -, hx⟩ := bind_eq_ok.mp h
      exact (Prod.mk.inj (Except.ok.inj hx)).1 ▸ .other _ _ _ _ _ nofun nofun
  | mint msg =>
      simp only [receive, receiveMint, bind_eq_ok, Except.ok.injEq, Prod.mk.injEq] at h
      obtain ⟨_, -, _, -, _, -, _, -, _, -, rfl, -⟩ := h
      exact .other _ _ _ _ _ nofun nofun
  | syncFeeConfigToWallet q owner =>
      simp only [receive, receiveSync, bind_eq_ok, Except.ok.injEq, Prod.mk.injEq] at h
      obtain ⟨_, -, _, -, _, -, rfl, -⟩ := h
      exact .other _ _ _ _ _ nofun nofun
  | propagateFeeConfigToOwner msg =>
      simp only [receive, receivePropagate, bind_eq_ok, Except.ok.injEq, Prod.mk.injEq] at h
      obtain ⟨_, -, _, -, rfl, -⟩ := h
      exact .other _ _ _ _ _ nofun nofun
  | resolveJettonTransfer msg =>
      simp only [receive, receiveResolve, bind_eq_ok, Except.ok.injEq, Prod.mk.injEq] at h
      obtain ⟨_, -, _, -, _, -, _, -, _, -, rfl, -⟩ := h
      exact .other _ _ _ _ _ nofun nofun
  | _ =>
      obtain ⟨_, hx, h⟩ := bind_eq_ok.mp h
      exact receiveTimelock_configured ((Prod.mk.inj (Except.ok.inj h)).1 ▸ hx)

end BurnJettonMaster

/-- Logs the accepted executions of the jetton master. -/
def jettonMasterRecorder (D : Deployment) (entry : Body → L → L) :
    Machine.Recorder Address Body Gas World L where
  accepted _ _ m _ _ l :=
    if m.dst = D.J ∧ m.bounced = false then entry (D.opened m.body) l else l

/-- An accepted execution anywhere in the network, seen from the jetton master. -/
theorem receive_jettonMaster {g : Gas} {now : Nat} {m : Msg} {w w' : World} {out : List Msg}
    (h : World.receive D g now m w = .ok (w', out)) :
    (¬ (m.dst = D.J ∧ m.bounced = false) ∧ (w'.jetton.master = w.jetton.master
        ∨ ∃ b, w'.jetton.master = w.jetton.master.bounced b))
      ∨ (m.dst = D.J ∧ m.bounced = false ∧ ∃ out', out = out'.map (stamp m.dst)
        ∧ w.jetton.master.receive D.wallets (Ctx.of g now m) (D.opened m.body)
          = .ok (w'.jetton.master, out')) := by
  by_cases hJ : m.dst = D.J
  · rcases World.run_eq_ok (World.receive_master h hJ).1 with ⟨hb, hs, -⟩ | ⟨hb, out', hs, ho⟩
    · exact .inl ⟨by simp [hb], .inr ⟨m.body, (Except.ok.inj hs).symm⟩⟩
    · exact .inr ⟨hJ, hb, out', ho, hs⟩
  · refine .inl ⟨fun hc => hJ hc.1, .inl ?_⟩
    by_cases hW : ∃ o j, m.dst = D.addr (.jettonWallet o j)
    · obtain ⟨o, j, hd⟩ := hW
      obtain ⟨_, _, -, -, -, hm⟩ := World.receive_wallet h hd
      exact hm
    · rw [World.receive_jetton_other h hJ fun o j hd => hW ⟨o, j, hd⟩]

theorem jettonMaster_tracks {entry : Body → L → L} {Q : World → Nat → Gas → Msg → Prop}
    {I : BurnJettonMaster → L → Prop}
    (hbounced : ∀ x b l, I x l → I (x.bounced b) l)
    (hreceive : ∀ w now g m x' out l, Q w now g m → m.dst = D.J →
      w.jetton.master.receive D.wallets (Ctx.of g now m) (D.opened m.body) = .ok (x', out) →
      I w.jetton.master l → I x' (entry (D.opened m.body) l)) :
    (network D modelled ordered).Tracks (Meets Q) (jettonMasterRecorder D entry)
      fun c l => I c.st.jetton.master l := by
  constructor
  case send => exact fun _ _ _ h _ _ _ => h
  case ok =>
    intro c l i g accept m pre post w' out h hg hm _ _ _ hr
    show I w'.jetton.master (if m.dst = D.J ∧ m.bounced = false then _ else l)
    rcases receive_jettonMaster hr with ⟨hno, hs | ⟨b, hs⟩⟩ | ⟨hd, hb, out', -, hs⟩
    · rw [if_neg hno, hs]
      exact h
    · rw [if_neg hno, hs]
      exact hbounced _ b l h
    · rw [if_pos ⟨hd, hb⟩]
      exact hreceive c.st c.now g m w'.jetton.master out' l (hg.at hm) hd hs h
  case error => exact fun _ _ _ _ _ _ _ _ _ h _ _ _ _ _ _ => h
  case outside => exact fun _ _ _ _ _ h _ _ => h
  case returned => exact fun _ _ _ _ _ h _ _ _ => h
  case wait => exact fun _ _ _ h _ => h

/-- The rule for properties of the master alone. -/
theorem jettonMaster_invariant {Q : World → Nat → Gas → Msg → Prop} {I : BurnJettonMaster → Prop}
    (hbounced : ∀ x b, I x → I (x.bounced b))
    (hreceive : ∀ w now g m x', Q w now g m → m.dst = D.J →
      BurnJettonMaster.Configured (Ctx.of g now m) w.jetton.master (D.opened m.body) x' →
      I w.jetton.master → I x')
    {c₀ c : WorldConf} (h : (network D modelled ordered).Run (Meets Q) c₀ c)
    (h₀ : I c₀.st.jetton.master) : I c.st.jetton.master := by
  have ht : (network D modelled ordered).Tracks (Meets Q)
      (jettonMasterRecorder D fun _ (l : Unit) => l) fun c _ => I c.st.jetton.master := by
    refine jettonMaster_tracks (I := fun x _ => I x) (fun x b _ hx => hbounced x b hx) ?_
    intro w now g m x' out _ hq hd hr hx
    exact hreceive w now g m x' hq hd (BurnJettonMaster.receive_configured hr) hx
  obtain ⟨l, hl⟩ := h.logged (jettonMasterRecorder D fun _ (l : Unit) => l) ()
  exact hl.invariant ht h₀

/-- The wallet a message finds or creates has what every deployed and every fresh
wallet has. -/
theorem walletAt_has {I : Address → BurnJettonWallet → Prop} {s : JettonState} {m : Msg}
    {x : BurnJettonWallet} (hinit : ∀ o, I (D.addr (.jettonWallet o D.J)) (.init o D.J))
    (hs : ∀ a x, s.wallets.lookup a = some x → I a x)
    (h : JettonState.walletAt D.wallets D.J s m = some x) : I m.dst x := by
  unfold JettonState.walletAt at h
  split at h
  · rename_i y hy
    obtain rfl := Option.some.inj h
    exact hs _ _ hy
  · split at h
    · obtain ⟨o, ho, rfl⟩ := Option.map_eq_some_iff.mp h
      have haddr : D.addr (.jettonWallet o D.J) = m.dst := (D.wallets.ownerOf_iff o D.J m.dst).mp ho
      exact haddr ▸ hinit o
    · cases h

/-- A property of every deployed wallet and its address. -/
theorem walletsAt_preserved {G : WorldConf → Action Address Body Gas → Prop}
    {I : Address → BurnJettonWallet → Prop}
    (hinit : ∀ o, I (D.addr (.jettonWallet o D.J)) (.init o D.J))
    (hbounced : ∀ a x b, I a x → I a (x.bounced b))
    (hreceive : ∀ a ctx x b x' out, BurnJettonWallet.receive D.wallets ctx x b = .ok (x', out) →
      I a x → I a x') :
    (network D modelled ordered).Preserves G
      fun c => ∀ a x, c.st.jetton.wallets.lookup a = some x → I a x := by
  constructor
  case send => exact fun _ _ h _ _ _ => h
  case ok =>
    intro c i g accept m pre post w' out h _ _ _ _ _ hr
    by_cases hW : ∃ o j, m.dst = D.addr (.jettonWallet o j)
    · obtain ⟨o, j, hd⟩ := hW
      obtain ⟨x, x', hx, hrun, hins, -⟩ := World.receive_wallet hr hd
      have hIx : I m.dst x := walletAt_has hinit h hx
      have hIx' : I m.dst x' := by
        rcases World.run_eq_ok hrun with ⟨-, hs, -⟩ | ⟨-, out', hs, -⟩
        · obtain rfl := Except.ok.inj hs
          exact hbounced _ x m.body hIx
        · exact hreceive _ _ x _ x' out' hs hIx
      intro a y hy
      simp only [hins, Table.lookup_insert_of] at hy
      split at hy
      · rename_i ha
        obtain rfl := Option.some.inj hy
        exact ha ▸ hIx'
      · exact h a y hy
    · have hsame : w'.jetton.wallets = c.st.jetton.wallets := by
        by_cases hJ : m.dst = D.J
        · exact (World.receive_master hr hJ).2
        · rw [World.receive_jetton_other hr hJ fun o j hd => hW ⟨o, j, hd⟩]
      intro a y hy
      rw [hsame] at hy
      exact h a y hy
  case error => exact fun _ _ _ _ _ _ _ _ h _ _ _ _ _ _ => h
  case outside => exact fun _ _ _ _ h _ _ => h
  case returned => exact fun _ _ _ _ h _ _ _ => h
  case wait => exact fun _ _ h _ => h

/-- A property of every deployed wallet. -/
def AllWallets (I : BurnJettonWallet → Prop) (w : World) : Prop :=
  ∀ a x, w.jetton.wallets.lookup a = some x → I x

theorem wallets_preserved {G : WorldConf → Action Address Body Gas → Prop}
    {I : BurnJettonWallet → Prop} (hinit : ∀ o, I (.init o D.J))
    (hbounced : ∀ x b, I x → I (x.bounced b))
    (hreceive : ∀ ctx x b x' out, BurnJettonWallet.receive D.wallets ctx x b = .ok (x', out) →
      I x → I x') :
    (network D modelled ordered).Preserves G fun c => AllWallets I c.st :=
  walletsAt_preserved (I := fun _ x => I x) hinit (fun _ => hbounced) fun _ => hreceive

/-- Only the jetton master is modelled. -/
def jettonMasterOnly : Part → Bool
  | .jettonMaster => true
  | _ => false

/-- The jetton master and all its wallets are modelled. -/
def jettonParts : Part → Bool
  | .jettonMaster | .jettonWallet _ _ => true
  | _ => false

end BurnedChats

import BurnedChats.Jetton.Fees

/-!
# One step of a transfer

A transfer that the wallet does not settle at once goes to the master and back:
`JettonTransfer` becomes `ResolveJettonTransfer`, then `CommitJettonTransfer`.
What an accepted message does to the transfers of a wallet is one of four things
(`BurnJettonWallet.Handled`), and only the resolution makes the master send a
commit (`BurnJettonMaster.receive_sends`).

A throw of the second or the third stage returns to the wallet or to the master
and not to the owner. Of all the checks on the way, two are not made again before
the commit: the TON that the resolution needs, and the chain of the two fee
destinations, which the timelock may have moved since the transfer entered
(`BurnJettonWallet.receiveCommit_ok`, `BurnJettonMaster.receiveResolve_ok`).
-/

namespace BurnedChats

open Network

/-! ## What a wallet does with a transfer -/

/-- The bodies by which a transfer proceeds or its failure is reported, and the
bodies that only their recipient can tell from these. -/
def Body.proceeds : Body → Bool
  | .jettonTransfer _ | .resolveJettonTransfer _ | .commitJettonTransfer _
  | .jettonTransferCommitFailed _ _ | .raw _ => true
  | _ => false

/-- A configuration for a wallet. -/
def Body.configures : Body → Bool
  | .jettonUpdateFeeConfig _ => true
  | _ => false

/-- A transfer is known by its query id and its amount. -/
abbrev Key := Nat × Nat

/-- The transfer that a body asks a wallet to carry out. -/
def Body.asks : Body → Option Key
  | .jettonTransfer t => some (t.queryId, t.amount)
  | .commitJettonTransfer t => some (t.queryId, t.amount)
  | _ => none

namespace BurnJettonWallet

variable {W : WalletBook} {ctx : Ctx} {x x' : BurnJettonWallet} {out : List Msg}

/-- The wallet's configuration has arrived. -/
def Active (x : BurnJettonWallet) : Prop :=
  ∃ d, decodeFeeConfig x.feeConfig = .ok d ∧ d.active = true

theorem feeLeg_quiet {q d f : Nat} {amount : Int} {sink : Address} {r : Option Address}
    {l : List Msg} (h : feeLeg W ctx x q amount sink r d f = .ok l) :
    ∀ m ∈ l, m.body.proceeds = false := by
  unfold feeLeg at h
  split at h
  · obtain ⟨n, -, hl⟩ := bind_eq_ok.mp h
    obtain rfl := Except.ok.inj hl
    exact fun m hm => List.mem_singleton.mp hm ▸ rfl
  · obtain rfl := Except.ok.inj h
    exact fun m hm => absurd hm List.not_mem_nil

theorem burnLeg_quiet {q v : Nat} {amount : Int} {r : Option Address} {l : List Msg}
    (h : burnLeg ctx x q amount r v = .ok l) : ∀ m ∈ l, m.body.proceeds = false := by
  unfold burnLeg at h
  split at h
  · obtain ⟨n, -, hl⟩ := bind_eq_ok.mp h
    obtain rfl := Except.ok.inj hl
    exact fun m hm => List.mem_singleton.mp hm ▸ rfl
  · obtain rfl := Except.ok.inj h
    exact fun m hm => absurd hm List.not_mem_nil

theorem executeJettonTransfer_quiet {q a f : Nat} {dest : Address} {r : Option Address}
    {p : Slice} {ex : Bool} (h : executeJettonTransfer W ctx x q a dest r f p ex = .ok (x', out)) :
    ∀ m ∈ out, m.body.proceeds = false := by
  simp only [executeJettonTransfer, bind_eq_ok] at h
  obtain ⟨cfg, -, _, -, _, -, _, -, h⟩ := h
  split at h
  · simp only [bind_eq_ok, Except.ok.injEq, Prod.mk.injEq] at h
    obtain ⟨_, -, -, rfl⟩ := h
    intro m hm
    simp only [List.mem_cons, List.not_mem_nil, or_false] at hm
    rcases hm with rfl | rfl | rfl <;> rfl
  · simp only [bind_eq_ok, Except.ok.injEq, Prod.mk.injEq] at h
    obtain ⟨_, -, _, -, _, -, net, -, staking, hst, treasury, htr, burn, hbu, -, rfl⟩ := h
    intro m hm
    simp only [List.mem_append, List.mem_cons, List.not_mem_nil, or_false] at hm
    rcases hm with (((rfl | hm) | hm) | hm) | rfl | rfl | rfl | rfl
    · rfl
    · exact feeLeg_quiet hst m hm
    · exact feeLeg_quiet htr m hm
    · exact burnLeg_quiet hbu m hm
    all_goals rfl

/-- What an accepted message does to the transfers of a wallet: it carries one
out, passes it on to the master, reports that it failed, or has to do with none. -/
inductive Handled (ctx : Ctx) (x : BurnJettonWallet) :
    Body → BurnJettonWallet → List Msg → Prop where
  | executed (b : Body) (queryId amount : Nat) (out : List Msg)
      (hasks : b.asks = some (queryId, amount))
      (hsender : ∀ t, b = .jettonTransfer t → ctx.sender = x.owner)
      (hmaster : ∀ t, b = .commitJettonTransfer t → ctx.sender = x.master)
      (hlegs : sentTokens out = amount) (hquiet : ∀ m ∈ out, m.body.proceeds = false) :
      Handled ctx x b { x with balance := x.balance - amount } out
  | resolved (t : JettonTransfer) (hsender : ctx.sender = x.owner) (hpos : 0 < t.amount)
      (hactive : x.Active) (hpayload : checkEitherForwardPayload t.forwardPayload = .ok ()) :
      Handled ctx x (.jettonTransfer t) x
        [ctx.message x.master ctx.remaining true
          (.resolveJettonTransfer
            { queryId := t.queryId, sender_owner := x.owner, amount := t.amount,
              destination := t.destination, responseDestination := t.responseDestination,
              forwardTonAmount := t.forwardTonAmount,
              forwardPayload := t.forwardPayload.endCell })]
  | reported (t : CommitJettonTransfer) (hmaster : ctx.sender = x.master) :
      Handled ctx x (.commitJettonTransfer t) x
        [reportCommitFailure ctx x t.queryId t.amount]
  | other (b : Body) (x' : BurnJettonWallet) (out : List Msg) (hasks : b.asks = none)
      (hquiet : ∀ m ∈ out, m.body.proceeds = false) : Handled ctx x b x' out

theorem receiveTransfer_handled {t : JettonTransfer} (hc : ConfigOk x.feeConfig)
    (h : receiveTransfer W ctx x t = .ok (x', out)) :
    Handled ctx x (.jettonTransfer t) x' out := by
  simp only [receiveTransfer, bind_eq_ok] at h
  obtain ⟨_, -, _, hsender, _, hpos, cfg, hcfg, _, hactive, _, -, _, -, _, hpayload, se, -, de, -,
    _, -, h⟩ := h
  split at h
  · simp only [bind_eq_ok, Except.ok.injEq, Prod.mk.injEq] at h
    obtain ⟨_, -, rfl, rfl⟩ := h
    exact .resolved t (require_eq_ok.mp hsender) (require_eq_ok.mp hpos)
      ⟨cfg, hcfg, require_eq_ok.mp hactive⟩ hpayload
  · obtain ⟨rfl, -, hlegs, -⟩ := executeJettonTransfer_spec hc h
    exact .executed _ _ _ out rfl (fun _ _ => require_eq_ok.mp hsender)
      (fun _ h => by cases h) hlegs
      (executeJettonTransfer_quiet h)

theorem receiveCommit_handled {t : CommitJettonTransfer} (hc : ConfigOk x.feeConfig)
    (h : receiveCommit W ctx x t = .ok (x', out)) :
    Handled ctx x (.commitJettonTransfer t) x' out := by
  simp only [receiveCommit, bind_eq_ok] at h
  obtain ⟨_, hmaster, _, -, h⟩ := h
  have hreport : Handled ctx x (.commitJettonTransfer t) x
      [reportCommitFailure ctx x t.queryId t.amount] := .reported t (require_eq_ok.mp hmaster)
  split at h
  · obtain ⟨rfl, rfl⟩ := Prod.mk.inj (Except.ok.inj h)
    exact hreport
  · obtain ⟨cfg, -, h⟩ := bind_eq_ok.mp h
    split at h
    · obtain ⟨rfl, rfl⟩ := Prod.mk.inj (Except.ok.inj h)
      exact hreport
    · obtain ⟨rfl, -, hlegs, -⟩ := executeJettonTransfer_spec hc h
      exact .executed _ _ _ out rfl (fun _ h => by cases h)
        (fun _ _ => require_eq_ok.mp hmaster) hlegs
        (executeJettonTransfer_quiet h)

theorem receive_handled {b : Body} (hc : ConfigOk x.feeConfig)
    (h : x.receive W ctx b = .ok (x', out)) : Handled ctx x b x' out := by
  cases b with
  | jettonTransfer t => exact receiveTransfer_handled hc h
  | commitJettonTransfer t => exact receiveCommit_handled hc h
  | jettonUpdateFeeConfig msg =>
      simp only [receive, receiveUpdateFeeConfig, bind_eq_ok, Except.ok.injEq, Prod.mk.injEq] at h
      obtain ⟨_, -, _, -, _, -, ext, -, cfg, -, -, rfl⟩ := h
      exact .other _ _ _ rfl fun m hm => absurd hm List.not_mem_nil
  | jettonTransferInternal msg =>
      obtain ⟨_, -, hx⟩ := bind_eq_ok.mp h
      obtain ⟨-, rfl⟩ := Prod.mk.inj (Except.ok.inj hx)
      refine .other _ _ _ rfl fun m hm => ?_
      rcases List.mem_append.mp hm with hm | hm
      · unfold notifyOwner at hm
        split at hm
        · exact List.mem_singleton.mp hm ▸ rfl
        · exact absurd hm List.not_mem_nil
      · unfold returnExcesses at hm
        cases hr : msg.responseDestination with
        | none => simp [hr] at hm
        | some r =>
            simp only [hr] at hm
            generalize (if 0 < msg.forwardTonAmount then _ else _ : Int) = msgValue at hm
            split at hm
            · exact List.mem_singleton.mp hm ▸ rfl
            · exact absurd hm List.not_mem_nil
  | jettonBurn msg =>
      simp only [receive, receiveBurn, bind_eq_ok, Except.ok.injEq, Prod.mk.injEq] at h
      obtain ⟨_, -, _, -, _, -, -, rfl⟩ := h
      exact .other _ _ _ rfl fun m hm => List.mem_singleton.mp hm ▸ rfl
  | _ => cases h

/-! ### A commit that does not throw -/

/-- The commit finds the balance and the TON it needs. -/
def covers (ctx : Ctx) (x : BurnJettonWallet) (cfg : DecodedFeeConfig)
    (t : CommitJettonTransfer) : Bool :=
  decide ((t.amount : Int) ≤ x.balance)
    && decide (commitRequiredTon (computeFeeFanoutPlan cfg.gas t.forwardTonAmount ctx.fwdFee)
      cfg.gas t.excludedTransfer ≤ ctx.value)

/-- A commit that would be carried out finds both fee destinations on the base
chain. -/
def sinksReachable (ctx : Ctx) (x : BurnJettonWallet) (t : CommitJettonTransfer) : Bool :=
  match decodeFeeConfig x.feeConfig with
  | .ok cfg => !covers ctx x cfg t || (decide (cfg.poolOwner.workchain = .basechain)
      && decide (cfg.treasuryOwner.workchain = .basechain))
  | .error _ => true

theorem bind_ok {α β : Type} {y : Tx α} {f : α → Tx β} (hy : ∃ a, y = .ok a)
    (hf : ∀ a, ∃ b, f a = .ok b) : ∃ b, (y >>= f) = .ok b := by
  obtain ⟨a, rfl⟩ := hy
  exact hf a

theorem coins_ok {n : Int} (h : 0 ≤ n) : ∃ k, coins n = .ok k :=
  ⟨n.toNat, coins_eq_ok.mpr ⟨h, Int.toNat_of_nonneg h⟩⟩

theorem feeLeg_ok {q d f : Nat} {amount : Int} {sink : Address} {r : Option Address} :
    ∃ l, feeLeg W ctx x q amount sink r d f = .ok l := by
  unfold feeLeg
  split
  · rename_i hpos
    obtain ⟨k, hk⟩ := coins_ok (Int.le_of_lt hpos)
    rw [hk]
    exact ⟨_, rfl⟩
  · exact ⟨_, rfl⟩

theorem burnLeg_ok {q v : Nat} {amount : Int} {r : Option Address} :
    ∃ l, burnLeg ctx x q amount r v = .ok l := by
  unfold burnLeg
  split
  · rename_i hpos
    obtain ⟨k, hk⟩ := coins_ok (Int.le_of_lt hpos)
    rw [hk]
    exact ⟨_, rfl⟩
  · exact ⟨_, rfl⟩

/-- With everything the two pre-checks of the commit leave open, a transfer is
carried out. -/
theorem executeJettonTransfer_ok {q a f : Nat} {dest : Address} {r : Option Address} {p : Slice}
    {ex : Bool} {cfg : DecodedFeeConfig} (hc : ConfigOk x.feeConfig)
    (hcfg : decodeFeeConfig x.feeConfig = .ok cfg) (hactive : cfg.active = true)
    (hpool : cfg.poolOwner.workchain = .basechain)
    (htreasury : cfg.treasuryOwner.workchain = .basechain) (hbalance : (a : Int) ≤ x.balance)
    (hton : ex = false → (computeFeeFanoutPlan cfg.gas f ctx.fwdFee).requiredTon ≤ ctx.value) :
    ∃ r', executeJettonTransfer W ctx x q a dest r f p ex = .ok r' := by
  have hleft : 0 ≤ x.balance - a := by omega
  simp only [executeJettonTransfer, hcfg, ok_bind, require_pos hactive, forceBasechain,
    require_pos hpool, require_pos htreasury]
  cases ex with
  | true =>
      simp only [if_true, require_pos hleft, ok_bind]
      exact ⟨_, rfl⟩
  | false =>
      have hcap := hc cfg hcfg
      have hburn := computeDynamicBurnBps_nonneg a hcap
      obtain ⟨hsum, -⟩ := computeFeeParts_sum a cfg.stakeBps cfg.treasBps hburn
      obtain ⟨net, hnet⟩ := coins_ok (computeFeeParts_capped a cfg.stakeBps cfg.treasBps hburn
        (computeDynamicBurnBps_le a hcap)).net
      simp only [Bool.false_eq_true, if_false, require_pos hsum, require_pos (hton rfl),
        require_pos hleft, ok_bind, hnet]
      refine bind_ok feeLeg_ok fun _ => bind_ok feeLeg_ok fun _ => ?_
      exact bind_ok burnLeg_ok fun _ => ⟨_, rfl⟩

theorem receiveCommit_ok {t : CommitJettonTransfer} (hc : ConfigOk x.feeConfig)
    (hactive : x.Active) (hmaster : ctx.sender = x.master)
    (hpayload : checkEitherForwardPayload t.forwardPayload.beginParse = .ok ())
    (hsinks : sinksReachable ctx x t = true) : ∃ r, receiveCommit W ctx x t = .ok r := by
  obtain ⟨cfg, hcfg, hactive⟩ := hactive
  simp only [receiveCommit, require_pos hmaster, hpayload, ok_bind, hcfg]
  split
  · exact ⟨_, rfl⟩
  · rename_i hbalance
    split
    · exact ⟨_, rfl⟩
    · rename_i hton
      have hcovers : covers ctx x cfg t = true := by
        simp only [covers, Bool.and_eq_true, decide_eq_true_eq]
        omega
      simp only [sinksReachable, hcfg, hcovers, Bool.not_true, Bool.false_or, Bool.and_eq_true,
        decide_eq_true_eq] at hsinks
      refine executeJettonTransfer_ok hc hcfg hactive hsinks.1 hsinks.2 (by omega) fun hex => ?_
      simp only [commitRequiredTon, hex, Bool.false_eq_true, if_false] at hton
      omega

end BurnJettonWallet

/-! ## What the master does with one -/

namespace BurnJettonMaster

variable {W : WalletBook} {ctx : Ctx} {x x' : BurnJettonMaster} {b : Body} {out : List Msg}

/-- The answer to a resolution: the configuration in force, then the commit. -/
def resolution (ctx : Ctx) (x : BurnJettonMaster) (t : ResolveJettonTransfer)
    (excludedTransfer : Bool) : List Msg :=
  [ctx.message ctx.sender cfgPushTon false (.jettonUpdateFeeConfig (x.feeConfigMessage t.queryId)),
   ctx.message ctx.sender ctx.remaining true
    (.commitJettonTransfer
      { queryId := t.queryId, amount := t.amount, destination := t.destination,
        responseDestination := t.responseDestination, forwardTonAmount := t.forwardTonAmount,
        forwardPayload := t.forwardPayload, excludedTransfer })]

/-- What the master may send otherwise: configurations, once it has one, and
messages that have nothing to do with transfers under way. -/
def Aside (x : BurnJettonMaster) (m : Msg) : Prop :=
  m.body.proceeds = false ∧ (m.body.configures = true → x.feeDestinationsActive = true)

theorem receive_sends (h : x.receive W ctx b = .ok (x', out)) :
    (∃ t ex, b = .resolveJettonTransfer t ∧ x' = x ∧ x.feeDestinationsActive = true
        ∧ W.addr t.sender_owner ctx.myAddress = ctx.sender ∧ out = resolution ctx x t ex)
      ∨ (∀ t, b ≠ .resolveJettonTransfer t) ∧ ∀ m ∈ out, x.Aside m := by
  have hquiet : ∀ m : Msg, m.body.proceeds = false → m.body.configures = false → x.Aside m :=
    fun m hm hu => ⟨hm, fun h => absurd (hu.symm.trans h) Bool.false_ne_true⟩
  cases b with
  | resolveJettonTransfer t =>
      simp only [receive, receiveResolve, bind_eq_ok, require_eq_ok, Except.ok.injEq,
        Prod.mk.injEq] at h
      obtain ⟨_, hactive, _, hsender, _, -, ex, -, _, -, rfl, rfl⟩ := h
      refine .inl ⟨t, ex, rfl, rfl, hactive, hsender, ?_⟩
      rw [hsender]
      rfl
  | empty =>
      obtain ⟨-, rfl⟩ := Prod.mk.inj (Except.ok.inj h)
      refine .inr ⟨(fun _ h => by cases h), fun m hm => ?_⟩
      split at hm
      · obtain rfl := List.mem_singleton.mp hm
        exact hquiet _ rfl rfl
      · exact absurd hm List.not_mem_nil
  | jettonBurnNotification msg =>
      obtain ⟨_, -, hx⟩ := bind_eq_ok.mp h
      obtain ⟨-, rfl⟩ := Prod.mk.inj (Except.ok.inj hx)
      refine .inr ⟨(fun _ h => by cases h), fun m hm => ?_⟩
      cases hr : msg.responseDestination with
      | none => simp [hr] at hm
      | some r =>
          rw [hr] at hm
          obtain rfl := List.mem_singleton.mp hm
          exact hquiet _ rfl rfl
  | provideWalletAddress msg =>
      obtain ⟨_, -, hx⟩ := bind_eq_ok.mp h
      obtain ⟨-, rfl⟩ := Prod.mk.inj (Except.ok.inj hx)
      refine .inr ⟨(fun _ h => by cases h), fun m hm => ?_⟩
      exact List.mem_singleton.mp hm ▸ hquiet _ rfl rfl
  | mint msg =>
      simp only [receive, receiveMint, bind_eq_ok, Except.ok.injEq, Prod.mk.injEq] at h
      obtain ⟨_, -, _, -, _, -, _, -, _, -, -, rfl⟩ := h
      refine .inr ⟨(fun _ h => by cases h), fun m hm => ?_⟩
      exact List.mem_singleton.mp hm ▸ hquiet _ rfl rfl
  | syncFeeConfigToWallet q owner =>
      simp only [receive, receiveSync, bind_eq_ok, require_eq_ok, Except.ok.injEq,
        Prod.mk.injEq] at h
      obtain ⟨_, -, _, hactive, _, -, -, rfl⟩ := h
      refine .inr ⟨(fun _ h => by cases h), fun m hm => ?_⟩
      exact List.mem_singleton.mp hm ▸ ⟨rfl, fun _ => hactive⟩
  | propagateFeeConfigToOwner msg =>
      simp only [receive, receivePropagate, bind_eq_ok, require_eq_ok, Except.ok.injEq,
        Prod.mk.injEq] at h
      obtain ⟨_, hactive, _, -, -, rfl⟩ := h
      refine .inr ⟨(fun _ h => by cases h), fun m hm => ?_⟩
      exact List.mem_singleton.mp hm ▸ ⟨rfl, fun _ => hactive⟩
  | closeMint | jettonUpdateContent | changeOwner =>
      obtain ⟨_, -, hx⟩ := bind_eq_ok.mp h
      obtain ⟨-, rfl⟩ := Prod.mk.inj (Except.ok.inj hx)
      exact .inr ⟨(fun _ h => by cases h), fun m hm => absurd hm List.not_mem_nil⟩
  | _ =>
      obtain ⟨_, -, h⟩ := bind_eq_ok.mp h
      obtain ⟨-, rfl⟩ := Prod.mk.inj (Except.ok.inj h)
      exact .inr ⟨(fun _ h => by cases h), fun m hm => absurd hm List.not_mem_nil⟩

/-- The master never deactivates its fee destinations. -/
theorem Configured.active (h : Configured ctx x b x') (hx : x.feeDestinationsActive = true) :
    x'.feeDestinationsActive = true := by
  cases h with
  | feeDestinations msg => rfl
  | _ => exact hx

theorem bounced_active (b : Body) :
    (x.bounced b).feeDestinationsActive = x.feeDestinationsActive := by
  cases b <;> rfl

/-- With a configuration in force and the TON it needs, the resolution of a
wallet's transfer goes through. -/
theorem receiveResolve_ok {t : ResolveJettonTransfer} {l : List Address} (hl : Listing x l)
    (hactive : x.feeDestinationsActive = true)
    (hsender : W.addr t.sender_owner ctx.myAddress = ctx.sender)
    (hton : cfgPushTon + milliTon 50 < ctx.value) : ∃ r, receiveResolve W ctx x t = .ok r := by
  have hlist : ∀ a, isInExcludedChain a x.excludedHead = .ok (decide (a ∈ l)) := fun a => by
    rw [hl.head, isInExcludedChain_chainOf a hl.standard]
  simp only [receiveResolve, require_pos hactive, require_pos hsender, hlist, require_pos hton,
    ok_bind]
  split <;> exact ⟨_, rfl⟩

end BurnJettonMaster

end BurnedChats

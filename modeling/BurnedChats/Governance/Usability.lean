import BurnedChats.Governance.Queueing
import BurnedChats.Staking.Power

/-!
# Governance stays usable

The terms of a proposal are those its type was configured with when it was
created: they travel with the request and the reply into the proposal, with its
report to the governor and with the queue message to the timelock. The check the
governor makes on a new configuration does not cover what the later stations
check: the end of the vote and the scheduled time must fit 64 bits, the governor
passes on a delay of zero or of at least a day only, and the timelock wants the
floor for high-value methods. If every accepted configuration of an executable
type meets these checks too, every station accepts what the one before it sends.
-/

namespace BurnedChats

open Network Timelock

variable {D : Deployment} {modelled : Part → Bool} {ordered : Address → Address → Bool}

/-! ## Terms -/

/-- ParameterChange, TreasurySpend and Emergency. -/
def ExecutableType (ty : Nat) : Prop := ty = 0 ∨ ty = 2 ∨ ty = 3

instance (ty : Nat) : Decidable (ExecutableType ty) := inferInstanceAs (Decidable (_ ∨ _ ∨ _))

/-- A delay that governor and timelock accept for proposals of type `ty` until
`horizon`. -/
def DelayFits (floor horizon ty delay : Nat) : Prop :=
  (delay = 0 ∨ TIMELOCK_MIN_DELAY_SEC ≤ delay) ∧ (ty = 2 → 0 < delay ∧ floor ≤ delay)
    ∧ horizon + delay < 2 ^ 64

instance (floor horizon ty delay : Nat) : Decidable (DelayFits floor horizon ty delay) :=
  inferInstanceAs (Decidable (_ ∧ _ ∧ _))

/-- Terms that take an executable proposal from its creation into the timelock until
`horizon`. -/
def TermsFit (floor lag horizon ty period delay : Nat) : Prop :=
  ExecutableType ty → horizon + lag + period < 2 ^ 64 ∧ DelayFits floor horizon ty delay

instance (floor lag horizon ty period delay : Nat) :
    Decidable (TermsFit floor lag horizon ty period delay) :=
  inferInstanceAs (Decidable (_ → _ ∧ _))

/-- A configuration with which proposals of type `ty` can be created and queued. -/
structure Offers (floor lag horizon ty : Nat) (cfg : ProposalConfig) : Prop where
  threshold : 0 ≤ cfg.thresholdPercent ∧ cfg.thresholdPercent ≤ 100
  quorum : 0 ≤ cfg.quorumPercent ∧ cfg.quorumPercent < 2 ^ 16
  terms : TermsFit floor lag horizon ty cfg.period cfg.timelockDelay

/-- A configuration the governor takes. -/
def configAccepted (cfg : ProposalConfig) : Bool :=
  decide ((5 ≤ cfg.quorumPercent ∧ cfg.quorumPercent ≤ 100)
    ∧ (51 ≤ cfg.thresholdPercent ∧ cfg.thresholdPercent ≤ 100) ∧ 0 < cfg.period)

/-- A configuration that is taken brings terms that fit. -/
def bringsFit (floor lag horizon : Nat) : Body → Bool
  | .timelockSetProposalConfig msg => !configAccepted msg.config
      || decide (TermsFit floor lag horizon msg.proposalType msg.config.period
        msg.config.timelockDelay)
  | _ => true

/-- Every configuration the timelock gives the governor brings terms that fit. -/
def KeepsUsable (D : Deployment) (horizon : Nat) (w : World) (_ : Nat) (_ : Gas) (m : Msg) : Prop :=
  m.src = D.T → m.dst = D.G → m.bounced = false →
    bringsFit w.timelock.highValueDelayFloorSec w.governor.cancelLagSec horizon (D.opened m.body)
      = true

instance (horizon : Nat) (w : World) (now : Nat) (g : Gas) (m : Msg) :
    Decidable (KeepsUsable D horizon w now g m) :=
  inferInstanceAs (Decidable (_ → _ → _ → _))

/-- What an original message says about terms, depending on who sent it. -/
def Terms (D : Deployment) (floor lag horizon : Nat) (src : Address) : Body → Prop
  | .requestTotalVpSnapshot r => src = D.G →
      TermsFit floor lag horizon r.proposalType r.period r.timelockDelay
  | .totalVpSnapshotReply r => src = D.S →
      TermsFit floor lag horizon r.proposalType r.period r.timelockDelay
  | .proposalStateReportToGovernor r => ∀ i, src = D.addr (.proposal i) → r.newState = 1 →
      r.queueDelay = i.timelockDelaySec
  | .timelockQueue q => src = D.G → ∃ i, q.proposalContract = D.addr (.proposal i)
      ∧ q.delay = i.timelockDelaySec ∧ DelayFits floor horizon i.proposalType i.timelockDelaySec
  | _ => True

/-- Every executable type is configured with terms that fit, and all terms under way
fit. -/
structure Usable (D : Deployment) (floor lag horizon : Nat) (c : WorldConf) : Prop where
  cancelLag : c.st.governor.cancelLagSec = lag
  delayFloor : c.st.timelock.highValueDelayFloorSec = floor
  configs : ∀ ty, ExecutableType ty → ∃ cfg, c.st.governor.proposalConfigs.lookup ty = some cfg
    ∧ Offers floor lag horizon ty cfg
  listed : ∀ n i, c.st.governor.proposals.lookup n = some (D.addr (.proposal i)) →
    ExecutableType i.proposalType → DelayFits floor horizon i.proposalType i.timelockDelaySec
  stakes : c.st.sm.Tagged ∧ c.st.sm.Configured
  flight : ∀ m ∈ c.flight, m.bounced = false → Terms D floor lag horizon m.src m.body

/-! ## The steps -/

theorem Requested.executable {treasury : Address} {i : ProposalInit} {q : QueueRequest}
    (h : Requested treasury i q) : ExecutableType i.proposalType := by
  rcases h with ⟨h0 | h3, -⟩ | ⟨h2, -⟩
  · exact .inl h0
  · exact .inr (.inr h3)
  · exact .inr (.inl h2)

namespace Usable

variable {floor lag horizon : Nat} {treasury : Address} {c : WorldConf} {m : Msg}
  {pre post out : List Msg} {w' : World} {g : Gas} {now : Nat}

theorem terms_of_foreign {src : Address} (b : Body) (hS : src ≠ D.S) (hG : src ≠ D.G)
    (hP : ∀ i, src ≠ D.addr (.proposal i)) : Terms D floor lag horizon src b := by
  cases b with
  | requestTotalVpSnapshot | timelockQueue => exact fun h => absurd h hG
  | totalVpSnapshotReply => exact fun h => absurd h hS
  | proposalStateReportToGovernor => exact fun i h => absurd h (hP i)
  | _ => trivial

/-- A message is delivered and `out` is sent. -/
theorem next (h : Usable D floor lag horizon c) (hf : c.flight = pre ++ m :: post)
    (hlag : w'.governor.cancelLagSec = c.st.governor.cancelLagSec)
    (hfloor : w'.timelock.highValueDelayFloorSec = c.st.timelock.highValueDelayFloorSec)
    (hconfigs : ∀ ty, ExecutableType ty → ∃ cfg, w'.governor.proposalConfigs.lookup ty = some cfg
      ∧ Offers floor lag horizon ty cfg)
    (hlisted : ∀ n i, w'.governor.proposals.lookup n = some (D.addr (.proposal i)) →
      ExecutableType i.proposalType → DelayFits floor horizon i.proposalType i.timelockDelaySec)
    (hstakes : w'.sm.Tagged ∧ w'.sm.Configured)
    (hout : ∀ r ∈ out, r.bounced = false → Terms D floor lag horizon r.src r.body) :
    Usable D floor lag horizon ⟨w', pre ++ post ++ out, now⟩ := by
  refine ⟨hlag.trans h.cancelLag, hfloor.trans h.delayFloor, hconfigs, hlisted, hstakes, fun r hr hb => ?_⟩
  rcases List.mem_append.mp hr with hr | hr
  · exact h.flight r (mem_rest hf hr) hb
  · exact hout r hr hb

theorem dropped (h : Usable D floor lag horizon c) (hf : c.flight = pre ++ m :: post)
    (hout : ∀ r ∈ out, r.bounced = true) :
    Usable D floor lag horizon ⟨c.st, pre ++ post ++ out, now⟩ := by
  refine h.next hf rfl rfl h.configs h.listed h.stakes fun r hr hb => ?_
  rw [hout r hr] at hb
  cases hb

/-- Any account but the governor keeps the governor's books. -/
theorem away (h : Usable D floor lag horizon c) (hf : c.flight = pre ++ m :: post)
    (hG : m.dst ≠ D.G) (hr : World.receive D g c.now m c.st = .ok (w', out))
    (hfloor : w'.timelock.highValueDelayFloorSec = c.st.timelock.highValueDelayFloorSec)
    (hstakes : w'.sm.Tagged ∧ w'.sm.Configured)
    (hout : ∀ r ∈ out, Terms D floor lag horizon m.dst r.body) :
    Usable D floor lag horizon ⟨w', pre ++ post ++ out, c.now⟩ := by
  have hframe := World.receive_framed hr
  have hgov := hframe.governor hG
  refine h.next hf (by rw [hgov]) hfloor (hgov ▸ h.configs) (hgov ▸ h.listed) hstakes
    fun r hr' _ => ?_
  rw [(hframe.out r hr').1]
  exact hout r hr'

/-- An account other than the four kinds. -/
theorem elsewhere (h : Usable D floor lag horizon c) (hf : c.flight = pre ++ m :: post)
    (hS : m.dst ≠ D.S) (hG : m.dst ≠ D.G) (hT : m.dst ≠ D.T)
    (hP : ∀ i, m.dst ≠ D.addr (.proposal i))
    (hr : World.receive D g c.now m c.st = .ok (w', out)) :
    Usable D floor lag horizon ⟨w', pre ++ post ++ out, c.now⟩ := by
  have hframe := World.receive_framed hr
  refine h.away hf hG hr (by rw [hframe.timelock hT]) ?_ fun r _ =>
    terms_of_foreign r.body hS hG hP
  rw [hframe.sm hS]
  exact h.stakes

/-- The timelock. -/
theorem atTimelock (h : Usable D floor lag horizon c) (hf : c.flight = pre ++ m :: post)
    (hd : m.dst = D.T) (hr : World.receive D g c.now m c.st = .ok (w', out)) :
    Usable D floor lag horizon ⟨w', pre ++ post ++ out, c.now⟩ := by
  have hframe := World.receive_framed hr
  have hfloor : w'.timelock.highValueDelayFloorSec = c.st.timelock.highValueDelayFloorSec := by
    rcases World.run_eq_ok (World.receive_timelock hr hd) with ⟨-, hs, -⟩ | ⟨-, out', hs, -⟩
    · rw [bounced_eq, Except.ok.injEq] at hs
      rw [← hs]
      split
      · exact rearm_fixed.2
      · rfl
    · have hact := receive_acted hs
      generalize w'.timelock = s' at hact
      generalize D.opened m.body = b at hact
      cases hact <;> rfl
  refine h.away hf (by simp [hd]) hr hfloor ?_ fun r _ =>
    terms_of_foreign r.body (by simp [hd]) (by simp [hd]) (by simp [hd])
  rw [hframe.sm (by simp [hd])]
  exact h.stakes

/-- A proposal reports the delay it was created with. -/
theorem atProposal (h : Usable D floor lag horizon c) (hI : Governing D treasury c)
    (hf : c.flight = pre ++ m :: post) {i : ProposalInit} (hd : m.dst = D.addr (.proposal i))
    (hr : World.receive D g c.now m c.st = .ok (w', out)) :
    Usable D floor lag horizon ⟨w', pre ++ post ++ out, c.now⟩ := by
  have hframe := World.receive_framed hr
  refine h.away hf (by simp [hd]) hr (by rw [hframe.timelock (by simp [hd])]) ?_ fun r hr' => ?_
  · rw [hframe.sm (by simp [hd])]
    exact h.stakes
  · obtain ⟨p, p', hat, hrun, -⟩ := World.receive_proposal hr hd
    have hp : p.toProposalInit = i := by
      unfold World.proposalAt at hat
      rw [hd] at hat
      split at hat
      · rename_i p₀ hp₀
        obtain rfl := Except.ok.inj hat
        exact hI.deployed i _ hp₀
      · split at hat
        · rw [← Except.ok.inj hat]
          rfl
        · cases hat
    have hreport : ∀ {ctx : Ctx} {ns : ProposalState} {delay : Nat} {q : QueueRequest},
        (ns.code = 1 → delay = i.timelockDelaySec) →
        Terms D floor lag horizon (D.addr (.proposal i))
          (Proposal.reportStateEx ctx p ns delay q).body := by
      intro ctx ns delay q hdelay j hj hnew
      obtain rfl : i = j := by simpa using hj
      exact hdelay hnew
    rw [hd]
    rcases World.run_eq_ok hrun with ⟨-, -, rfl⟩ | ⟨-, out', hs, rfl⟩
    · cases hr'
    · obtain ⟨r, hrm, rfl⟩ := List.mem_map.mp hr'
      rw [stamp_body]
      have hdecided := Proposal.receive_cases hs
      generalize D.opened m.body = b at hdecided
      cases hdecided with
      | vote =>
          obtain rfl := List.mem_singleton.mp hrm
          trivial
      | defeat | cancel =>
          simp only [List.mem_cons, List.not_mem_nil, or_false] at hrm
          rcases hrm with rfl | rfl
          · exact hreport fun hns => absurd hns (by decide)
          · trivial
      | succeed =>
          simp only [List.mem_cons, List.not_mem_nil, or_false] at hrm
          rcases hrm with rfl | rfl
          · exact hreport fun _ => by rw [← hp]
          · trivial
      | execute =>
          obtain rfl := List.mem_singleton.mp hrm
          exact hreport fun hns => absurd hns (by decide)
      | idle hcash =>
          rw [hcash r hrm]
          trivial

/-- The staking master repeats the terms of a request. -/
theorem atMaster (h : Usable D floor lag horizon c) (hI : Governing D treasury c)
    (hf : c.flight = pre ++ m :: post) (hd : m.dst = D.S)
    (hr : World.receive D g c.now m c.st = .ok (w', out)) :
    Usable D floor lag horizon ⟨w', pre ++ post ++ out, c.now⟩ := by
  have hmem : m ∈ c.flight := by simp [hf]
  have hframe := World.receive_framed hr
  have hstakes : w'.sm.Tagged ∧ w'.sm.Configured := by
    rcases receive_did hr with ⟨-, hs⟩ | ⟨-, -, out', -, hdid⟩
    · rw [hs]
      exact h.stakes
    · exact ⟨StakingMaster.did_tagged hdid h.stakes.1, StakingMaster.did_configured hdid h.stakes.2⟩
  refine h.away hf (by simp [hd]) hr (by rw [hframe.timelock (by simp [hd])]) hstakes
    fun r hr' => ?_
  rw [hd]
  rcases World.receive_sm hr hd with ⟨-, -, rfl⟩ | ⟨hb, out', hs, rfl⟩
  · cases hr'
  · obtain ⟨r, hrm, rfl⟩ := List.mem_map.mp hr'
    rw [stamp_body]
    rcases StakingMaster.sends_reply hs with ⟨msg, totalVp, proposerVp, hbody, rfl⟩ | ⟨-, hout⟩
    · obtain rfl := List.mem_singleton.mp hrm
      intro _
      -- the master takes requests from its governor only
      have hsrc : m.src = D.G := by
        rw [hbody] at hs
        simp only [StakingMaster.receive, StakingMaster.receiveRequestTotalVpSnapshot, bind_eq_ok,
          require_eq_ok, exists_const] at hs
        exact hs.1.trans hI.master.1
      have hterms := h.flight m hmem hb
      rw [hI.opened hmem hb (.inr (.inl hsrc))] at hbody
      rw [hbody] at hterms
      exact hterms hsrc
    · cases hrb : r.body with
      | totalVpSnapshotReply q => exact absurd hrb ((hout r hrm).2 q)
      | requestTotalVpSnapshot | timelockQueue => exact fun hi => absurd hi (by simp)
      | proposalStateReportToGovernor => exact fun i hi => absurd hi (by simp)
      | _ => trivial

/-- The governor. -/
theorem atGovernor (h : Usable D floor lag horizon c) (hI : Governing D treasury c)
    (hf : c.flight = pre ++ m :: post) (hd : m.dst = D.G)
    (hkeep : KeepsUsable D horizon c.st c.now g m)
    (hr : World.receive D g c.now m c.st = .ok (w', out)) :
    Usable D floor lag horizon ⟨w', pre ++ post ++ out, c.now⟩ := by
  have hmem : m ∈ c.flight := by simp [hf]
  have hframe := World.receive_framed hr
  simp only [KeepsUsable, h.cancelLag, h.delayFloor] at hkeep
  have hfloor : w'.timelock.highValueDelayFloorSec = c.st.timelock.highValueDelayFloorSec := by
    rw [hframe.timelock (by simp [hd])]
  have hstakes : w'.sm.Tagged ∧ w'.sm.Configured := by
    rw [hframe.sm (by simp [hd])]
    exact h.stakes
  rcases World.run_eq_ok (World.receive_governor hr hd) with ⟨-, hs, rfl⟩ | ⟨hb, out', hs, rfl⟩
  · have hsame : w'.governor.cancelLagSec = c.st.governor.cancelLagSec
        ∧ w'.governor.proposalConfigs = c.st.governor.proposalConfigs
        ∧ w'.governor.proposals = c.st.governor.proposals := by
      rw [← Except.ok.inj hs]
      unfold Governor.bounced
      split <;> exact ⟨rfl, rfl, rfl⟩
    exact h.next hf hsame.1 hfloor (hsame.2.1 ▸ h.configs) (hsame.2.2 ▸ h.listed) hstakes
      fun r hr' => absurd hr' List.not_mem_nil
  · have hgov := Governor.receive_cases hs
    have hopened := fun hsrc => hI.opened hmem hb hsrc
    have hrequested := fun (msg : ProposalStateReportToGovernor)
      (hlook : c.st.governor.proposals.lookup msg.proposalId = some m.src) =>
      hI.requested hmem hb hlook
    generalize hbody : D.opened m.body = b at hgov hkeep hopened hrequested hs
    generalize hs' : w'.governor = s' at hgov hs
    -- most executions keep configurations and proposals
    have hkept : s'.cancelLagSec = c.st.governor.cancelLagSec →
        s'.proposalConfigs = c.st.governor.proposalConfigs →
        s'.proposals = c.st.governor.proposals →
        (∀ r ∈ out', Terms D floor lag horizon D.G r.body) →
        Usable D floor lag horizon ⟨w', pre ++ post ++ out'.map (stamp m.dst), c.now⟩ := by
      intro h1 h2 h3 hout
      refine h.next hf (hs' ▸ h1) hfloor (by rw [hs', h2]; exact h.configs)
        (by rw [hs', h3]; exact h.listed) hstakes fun r hr' _ => ?_
      obtain ⟨r, hrm, rfl⟩ := List.mem_map.mp hr'
      rw [stamp_src, stamp_body, hd]
      exact hout r hrm
    cases hgov with
    | @create msg req cfg _ _ _ hty _ _ hcfg hperiod hdelay =>
        refine hkept rfl rfl rfl fun r hr' => ?_
        obtain rfl := List.mem_singleton.mp hr'
        intro _ hexec
        rw [hty] at hexec
        obtain ⟨cfg', hcfg', hoffers⟩ := h.configs _ hexec
        obtain rfl := Option.some.inj (hcfg.symm.trans hcfg')
        have hterms := hoffers.terms hexec
        rw [hty, hperiod, hdelay]
        exact hterms
    | @deploy msg i hsrc hi =>
        have hsrc' : m.src = D.S := hsrc.trans hI.governor.master
        have hterms := h.flight m hmem hb
        rw [← hopened (.inl hsrc')] at hterms
        have hterms := hterms hsrc'
        refine h.next hf (by rw [hs']) hfloor (by rw [hs']; exact h.configs) (fun n j hn hexec => ?_)
          hstakes fun r hr' _ => ?_
        · rw [hs'] at hn
          simp only [Table.lookup_insert_of] at hn
          split at hn
          · obtain rfl : i = j := by simpa using hn
            subst hi
            exact (hterms hexec).2
          · exact h.listed n j hn hexec
        · obtain ⟨r, hrm, rfl⟩ := List.mem_map.mp hr'
          obtain rfl := List.mem_singleton.mp hrm
          trivial
    | @queue msg hlook hnew hact =>
        refine hkept rfl rfl rfl fun r hr' => ?_
        obtain rfl := List.mem_singleton.mp hr'
        intro _
        obtain ⟨i, hi, -, -, -, hreq⟩ := hrequested msg hlook rfl hnew hact
        have hterms := h.flight m hmem hb
        rw [← hopened (.inr (.inr ⟨i, hi⟩))] at hterms
        exact ⟨i, hi, hterms i hi hnew, h.listed _ i (hlook.trans (congrArg some hi)) hreq.executable⟩
    | @config msg hsrc =>
        have hsrc' : m.src = D.T := hsrc.trans hI.governor.timelock
        have haccepted : configAccepted msg.config = true := by
          simp only [Governor.receive, Governor.receiveSetProposalConfig, bind_eq_ok, require_eq_ok,
            exists_const] at hs
          exact decide_eq_true ⟨hs.2.1, hs.2.2.1, hs.2.2.2.1⟩
        have hterms : TermsFit floor lag horizon msg.proposalType msg.config.period
            msg.config.timelockDelay := by
          have hfit := hkeep hsrc' hd hb
          simp only [bringsFit, haccepted, Bool.not_true, Bool.false_or, decide_eq_true_eq] at hfit
          exact hfit
        obtain ⟨hq, ht, -⟩ := of_decide_eq_true haccepted
        refine h.next hf (by rw [hs']) hfloor (fun ty hexec => ?_) (by rw [hs']; exact h.listed)
          hstakes fun r hr' _ => ?_
        · rw [hs']
          simp only [Table.lookup_insert_of]
          split
          · rename_i hty
            exact ⟨_, rfl, ⟨by omega, ht.2⟩, ⟨by omega, by omega⟩, hty ▸ hterms⟩
          · exact h.configs ty hexec
        · obtain ⟨r, hrm, rfl⟩ := List.mem_map.mp hr'
          obtain rfl := List.mem_singleton.mp hrm
          trivial
    | decline | report => exact hkept rfl rfl rfl fun r hr' => absurd hr' List.not_mem_nil
    | vote =>
        refine hkept rfl rfl rfl fun r hr' => ?_
        obtain rfl := List.mem_singleton.mp hr'
        trivial
    | execute =>
        refine hkept rfl rfl rfl fun r hr' => ?_
        simp only [List.mem_cons, List.not_mem_nil, or_false] at hr'
        rcases hr' with rfl | rfl <;> trivial
    | idle hcash =>
        refine hkept rfl rfl rfl fun r hr' => ?_
        rw [hcash r hr']
        trivial

end Usable

/-! ## Whole runs -/

/-- Every configuration taken on the way brings terms that fit. -/
theorem usable_preserved {floor lag horizon : Nat} {treasury : Address}
    (hS : (network D modelled ordered).owns D.S = true)
    (hG : (network D modelled ordered).owns D.G = true)
    (hP : ∀ i, (network D modelled ordered).owns (D.addr (.proposal i)) = true)
    {G : WorldConf → Action Address Body Gas → Prop}
    (hguard : ∀ c a, G c a → Meets (KeepsUsable D horizon) c a ∧ Governing D treasury c) :
    (network D modelled ordered).Preserves G (Usable D floor lag horizon) where
  send c m h _ hsrc _ := by
    refine ⟨h.cancelLag, h.delayFloor, h.configs, h.listed, h.stakes, fun r hr hb => ?_⟩
    rcases List.mem_append.mp hr with hr | hr
    · exact h.flight r hr hb
    · obtain rfl := List.mem_singleton.mp hr
      exact Usable.terms_of_foreign _ (owns_of_modelled hS hsrc) (owns_of_modelled hG hsrc)
        fun i => owns_of_modelled (hP i) hsrc
  ok c i g accept m pre post w' out h hg hm hf _ _ hr := by
    obtain ⟨hmeets, hI⟩ := hguard _ _ hg
    by_cases hdG : m.dst = D.G
    · exact h.atGovernor hI hf hdG (hmeets.at hm) hr
    by_cases hdS : m.dst = D.S
    · exact h.atMaster hI hf hdS hr
    by_cases hdT : m.dst = D.T
    · exact h.atTimelock hf hdT hr
    by_cases hdP : ∃ i, m.dst = D.addr (.proposal i)
    · obtain ⟨i, hi⟩ := hdP
      exact h.atProposal hI hf hi hr
    · exact h.elsewhere hf hdS hdG hdT (fun i hi => hdP ⟨i, hi⟩) hr
  error c i g accept m pre post err h _ _ hf _ _ _ :=
    h.dropped hf fun r hr => (mem_bounceOf hr).2.2.2.2.1
  outside c m pre post h hf _ := by
    rw [← List.append_nil (pre ++ post)]
    exact h.dropped hf fun r hr => absurd hr List.not_mem_nil
  returned c m pre post h hf _ _ := h.dropped hf fun r hr => (mem_bounceOf hr).2.2.2.2.1
  wait c d h _ := ⟨h.cancelLag, h.delayFloor, h.configs, h.listed, h.stakes, h.flight⟩

/-- Nothing proposed yet, and every executable type can be used until `horizon`. -/
structure UsableStart (D : Deployment) (horizon : Nat) (c : WorldConf) : Prop
    extends GovernanceStart D c where
  count : c.st.governor.proposalCount = 0
  tagged : c.st.sm.Tagged
  configured : c.st.sm.Configured
  configs : ∀ ty, ExecutableType ty → ∃ cfg, c.st.governor.proposalConfigs.lookup ty = some cfg
    ∧ Offers c.st.timelock.highValueDelayFloorSec c.st.governor.cancelLagSec horizon ty cfg

theorem UsableStart.reservation {horizon : Nat} {c : WorldConf} (h : UsableStart D horizon c) :
    ReservationStart D c :=
  ⟨h.master, h.count, h.proposals.1, h.flight⟩

theorem UsableStart.queueing {horizon : Nat} {c : WorldConf} (h : UsableStart D horizon c) :
    Queueing D c := by
  refine ⟨fun i => ?_, fun n i hn => ?_, fun n _ => ?_⟩
  · rw [h.flight]
    exact Nat.zero_le _
  · rw [h.proposals.1] at hn
    cases hn
  · rw [h.flight, entered, h.entries]
    rfl

theorem UsableStart.usable {horizon : Nat} {c : WorldConf} (h : UsableStart D horizon c) :
    Usable D c.st.timelock.highValueDelayFloorSec c.st.governor.cancelLagSec horizon c := by
  refine ⟨rfl, rfl, h.configs, fun n i hn => ?_, ⟨h.tagged, h.configured⟩, fun m hm => ?_⟩
  · rw [h.proposals.1] at hn
    cases hn
  · rw [h.flight] at hm
    cases hm

/-! ## The stations -/

/-- A high-value method is asked for under a delay that reaches the floor. A spend
is always one; its delay is a matter of the configuration. -/
def MethodFits (floor : Nat) (i : ProposalInit) : Prop :=
  i.proposalType = 2 ∨ ∀ target method args, payloadAction i.payload = .ok (target, method, args) →
    highValue method = true → 0 < i.timelockDelaySec ∧ floor ≤ i.timelockDelaySec

/-- The way of an executable proposal from its creation into the timelock: every
station accepts what the one before it sends. -/
structure Unbricked (D : Deployment) (c : WorldConf) : Prop where
  creates : ∀ ctx msg, ExecutableType msg.proposalType →
    validateProposalPayloadShape msg.proposalType msg.payload c.st.governor.treasury = .ok () →
    c.st.governor.minProposalVp ≤ msg.claimedVp → milliTon 450 ≤ ctx.value →
    c.st.governor.proposalCount + 1 < 2 ^ 64 →
    ∃ s' req, c.st.governor.receive (fun i => D.addr (.proposal i)) ctx (.createProposal msg)
        = .ok (s', [ctx.message D.S ctx.remaining true (.requestTotalVpSnapshot req)])
      ∧ req.proposer = ctx.sender ∧ req.proposalType = msg.proposalType ∧ req.payload = msg.payload
  answers : ∀ g, ∀ m ∈ c.flight, m.src = D.G → m.dst = D.S → m.bounced = false →
    ∀ req, m.body = .requestTotalVpSnapshot req →
    ∃ w' value totalVp proposerVp, World.receive D g c.now m c.st
      = .ok (w', [stamp D.S ((Ctx.of g c.now m).message D.G value true
          (.totalVpSnapshotReply { req with totalVp, proposerVp }))])
  deploys : ∀ g, ∀ m ∈ c.flight, m.src = D.S → m.dst = D.G → m.bounced = false →
    ∀ msg, m.body = .totalVpSnapshotReply msg → ExecutableType msg.proposalType →
    c.st.governor.minProposalVp ≤ msg.proposerVp →
    0 < Governor.quorumAbsFromSnapshot msg.totalVp msg.quorumPercent →
    ∃ w' i, World.receive D g c.now m c.st
        = .ok (w', [stamp D.G ((Ctx.of g c.now m).deploy (D.addr (.proposal i)) (milliTon 180)
          false .empty)])
      ∧ w'.governor.proposals.lookup msg.proposalId = some (D.addr (.proposal i))
      ∧ i.proposalType = msg.proposalType ∧ i.payload = msg.payload
      ∧ i.timelockDelaySec = msg.timelockDelay
  finalizes : ∀ ctx n i p, c.st.governor.proposals.lookup n = some (D.addr (.proposal i)) →
    c.st.proposals.lookup (D.addr (.proposal i)) = some p → ExecutableType i.proposalType →
    p.endTime < ctx.now → p.state = .active → p.passes = true →
    ∃ p' q rest, p.receive ctx .proposalFinalize
        = .ok (p', Proposal.reportStateEx ctx p .succeeded i.timelockDelaySec q :: rest)
      ∧ q.active = true
  reports : ∀ g, ∀ m ∈ c.flight, m.dst = D.G → m.bounced = false →
    ∀ msg, m.body = .proposalStateReportToGovernor msg → msg.newState = 1 →
    msg.queueActive = true → c.st.governor.proposals.lookup msg.proposalId = some m.src →
    ∃ w', World.receive D g c.now m c.st
      = .ok (w', [stamp D.G ((Ctx.of g c.now m).message D.T (milliTon 150) true
          (.timelockQueue
            { queryId := 0, proposalId := msg.proposalId, proposalContract := m.src
              target := msg.queueTarget, method := msg.queueMethod, args := msg.queueArgs
              delay := msg.queueDelay }))])
  queues : ∀ g, ∀ m ∈ c.flight, m.src = D.G → m.dst = D.T → m.bounced = false →
    ∀ q, m.body = .timelockQueue q →
    ∃ i, q.proposalContract = D.addr (.proposal i) ∧ i.id = q.proposalId
      ∧ (MethodFits c.st.timelock.highValueDelayFloorSec i →
        ∃ w', World.receive D g c.now m c.st = .ok (w', [])
          ∧ w'.timelock.pendingActions.lookup q.proposalId = some (entryOf c.now q))

section Stations

variable {floor lag horizon : Nat} {treasury : Address} {c : WorldConf} {m : Msg} {g : Gas}

/-- The governor accepts a request for a proposal. -/
theorem Usable.creates (h : Usable D floor lag horizon c) (hI : Governing D treasury c) {ctx : Ctx}
    {msg : CreateProposal} (hexec : ExecutableType msg.proposalType)
    (hshape : validateProposalPayloadShape msg.proposalType msg.payload c.st.governor.treasury
      = .ok ())
    (hvp : c.st.governor.minProposalVp ≤ msg.claimedVp) (hvalue : milliTon 450 ≤ ctx.value)
    (hcount : c.st.governor.proposalCount + 1 < 2 ^ 64) :
    ∃ s' req, c.st.governor.receive (fun i => D.addr (.proposal i)) ctx (.createProposal msg)
        = .ok (s', [ctx.message D.S ctx.remaining true (.requestTotalVpSnapshot req)])
      ∧ req.proposer = ctx.sender ∧ req.proposalType = msg.proposalType
      ∧ req.payload = msg.payload := by
  obtain ⟨cfg, hcfg, hoffers⟩ := h.configs _ hexec
  obtain ⟨t, ht⟩ := Int.eq_ofNat_of_zero_le hoffers.threshold.1
  obtain ⟨q, hq⟩ := Int.eq_ofNat_of_zero_le hoffers.quorum.1
  have hthreshold := hoffers.threshold
  have hquorum := hoffers.quorum
  rw [ht] at hthreshold
  rw [hq] at hquorum
  have hbps : uintField 16 (cfg.thresholdPercent * 100) = .ok (t * 100) := by
    rw [ht]
    exact uintField_of_lt (n := t * 100) (by omega)
  have hid : uintField 64 ((c.st.governor.proposalCount : Int) + 1)
      = .ok (c.st.governor.proposalCount + 1) := uintField_of_lt hcount
  have hpercent : uintField 16 cfg.quorumPercent = .ok q := by
    rw [hq]
    exact uintField_of_lt (by omega)
  have hbound : t * 100 ≤ 10000 := by omega
  have hrcv : c.st.governor.receive (fun i => D.addr (.proposal i)) ctx (.createProposal msg)
      = .ok ({ c.st.governor with proposalCount := c.st.governor.proposalCount + 1 },
        [ctx.message D.S ctx.remaining true (.requestTotalVpSnapshot
          { queryId := msg.queryId, proposalId := c.st.governor.proposalCount
            proposer := ctx.sender, proposalType := msg.proposalType, payload := msg.payload
            period := cfg.period, quorumPercent := q, thresholdBps := t * 100
            timelockDelay := cfg.timelockDelay })]) := by
    simp only [Governor.receive, Governor.receiveCreateProposal, hshape, ok_bind, hcfg,
      require_pos hoffers.threshold, hbps, require_pos hbound, require_pos hvp, require_pos hvalue,
      hid, hpercent, hI.governor.master]
  exact ⟨_, _, hrcv, rfl, rfl, rfl⟩

/-- The staking master answers. -/
theorem Usable.answers (h : Usable D floor lag horizon c) (hI : Governing D treasury c)
    (hs : m.src = D.G) (hd : m.dst = D.S) (hb : m.bounced = false) {req : RequestTotalVpSnapshot}
    (hbody : m.body = .requestTotalVpSnapshot req) :
    ∃ w' value totalVp proposerVp, World.receive D g c.now m c.st
      = .ok (w', [stamp D.S ((Ctx.of g c.now m).message D.G value true
          (.totalVpSnapshotReply { req with totalVp, proposerVp }))]) := by
  have hgov : (Ctx.of g c.now m).sender = D.G := hs
  have htotal := StakingMaster.computeTotalVotingPower_eq h.stakes.2
  obtain ⟨vp, hvp⟩ := StakingMaster.computeOwnerVotingPower_ok h.stakes.2 h.stakes.1 req.proposer
  have hrcv : c.st.sm.receive (Ctx.of g c.now m) (D.opened m.body)
      = .ok (c.st.sm, [(Ctx.of g c.now m).message D.G (Ctx.of g c.now m).remaining true
        (.totalVpSnapshotReply
          { req with totalVp := (c.st.sm.totalPower : Int), proposerVp := (vp : Int) })]) := by
    rw [hbody]
    simp only [Deployment.opened, StakingMaster.receive,
      StakingMaster.receiveRequestTotalVpSnapshot, require_pos hgov, ok_bind, htotal, hvp,
      hI.master.1]
  exact ⟨_, _, _, _, World.receive_sm_of_ok hd hb hrcv⟩

/-- The governor deploys the proposal. -/
theorem Usable.deploys (h : Usable D floor lag horizon c) (hI : Governing D treasury c)
    (hnow : c.now ≤ horizon) (hm : m ∈ c.flight) (hs : m.src = D.S) (hd : m.dst = D.G)
    (hb : m.bounced = false) {msg : TotalVpSnapshotReply}
    (hbody : m.body = .totalVpSnapshotReply msg) (hexec : ExecutableType msg.proposalType)
    (hvp : c.st.governor.minProposalVp ≤ msg.proposerVp)
    (hquorum : 0 < Governor.quorumAbsFromSnapshot msg.totalVp msg.quorumPercent) :
    ∃ w' i, World.receive D g c.now m c.st
        = .ok (w', [stamp D.G ((Ctx.of g c.now m).deploy (D.addr (.proposal i)) (milliTon 180)
          false .empty)])
      ∧ w'.governor.proposals.lookup msg.proposalId = some (D.addr (.proposal i))
      ∧ i.proposalType = msg.proposalType ∧ i.payload = msg.payload
      ∧ i.timelockDelaySec = msg.timelockDelay := by
  have hterms := h.flight m hm hb
  rw [hbody] at hterms
  obtain ⟨hperiod, -⟩ := hterms hs hexec
  have hmaster : (Ctx.of g c.now m).sender = c.st.governor.stakingMaster :=
    hs.trans hI.governor.master.symm
  have hpos : 0 < msg.totalVp := by
    by_contra hle
    have hmul : msg.totalVp * (msg.quorumPercent : Int) ≤ 0 :=
      Int.mul_nonpos_of_nonpos_of_nonneg (by omega) (Int.natCast_nonneg _)
    unfold Governor.quorumAbsFromSnapshot at hquorum
    omega
  obtain ⟨i, hi⟩ : ∃ i, i = Governor.proposalInit (Ctx.of g c.now m) c.st.governor msg
    (Governor.quorumAbsFromSnapshot msg.totalVp msg.quorumPercent) := ⟨_, rfl⟩
  have hend : i.endTime < 2 ^ 64 := by
    have heq : i.endTime = c.now + c.st.governor.cancelLagSec + msg.period := by
      rw [hi]
      rfl
    rw [heq, h.cancelLag]
    omega
  have hrcv : c.st.governor.receive (fun i => D.addr (.proposal i)) (Ctx.of g c.now m)
      (D.opened m.body) = .ok ({ c.st.governor with
          proposals := c.st.governor.proposals.insert msg.proposalId (D.addr (.proposal i))
          proposalStateById :=
            c.st.governor.proposalStateById.insert msg.proposalId ProposalState.active.code
          proposalEndTimeById := c.st.governor.proposalEndTimeById.insert msg.proposalId i.endTime
          knownProposals := c.st.governor.knownProposals.insert (D.addr (.proposal i)) true },
        [(Ctx.of g c.now m).deploy (D.addr (.proposal i)) (milliTon 180) false .empty]) := by
    rw [hbody]
    simp only [Deployment.opened, Governor.receive, Governor.receiveTotalVpSnapshotReply,
      require_pos hmaster, require_pos hpos, ok_bind, if_neg (not_lt.mpr hvp), require_pos hquorum,
      ← hi, uintField_of_lt hend]
  refine ⟨_, i, World.receive_governor_of_ok hd hb hrcv, AList.lookup_insert _, ?_, ?_, ?_⟩
  all_goals rw [hi]; rfl

theorem queueRequest_active {p : Proposal} {q : QueueRequest} (h : p.queueRequest = .ok q)
    (hexec : ExecutableType p.proposalType) : q.active = true := by
  unfold Proposal.queueRequest at h
  simp only at h
  rcases hexec with h0 | h2 | h3
  · rw [if_pos h0] at h
    simp only [bind_eq_ok, Prod.exists, Except.ok.injEq] at h
    obtain ⟨_, _, -, _, _, -, _, _, -, rfl⟩ := h
    rfl
  · rw [if_neg (by omega), if_neg (by omega), if_pos h2] at h
    simp only [bind_eq_ok, Prod.exists, Except.ok.injEq] at h
    obtain ⟨_, _, -, _, _, -, _, _, -, _, _, -, _, -, rfl⟩ := h
    rfl
  · rw [if_neg (by omega), if_neg (by omega), if_neg (by omega), if_pos h3] at h
    simp only [bind_eq_ok, Prod.exists, Except.ok.injEq] at h
    obtain ⟨_, _, -, _, _, -, _, _, -, _, _, -, rfl⟩ := h
    rfl

/-- A passing proposal asks to be queued. -/
theorem Governing.finalizes (hI : Governing D treasury c) {ctx : Ctx} {n : Nat} {i : ProposalInit}
    {p : Proposal} (hn : c.st.governor.proposals.lookup n = some (D.addr (.proposal i)))
    (hp : c.st.proposals.lookup (D.addr (.proposal i)) = some p)
    (hexec : ExecutableType i.proposalType) (ht : p.endTime < ctx.now) (hs : p.state = .active)
    (hpass : p.passes = true) :
    ∃ p' q rest, p.receive ctx .proposalFinalize
        = .ok (p', Proposal.reportStateEx ctx p .succeeded i.timelockDelaySec q :: rest)
      ∧ q.active = true := by
  obtain ⟨hk, -⟩ := hI.governor.listed _ _ hn
  obtain ⟨j, hj, hchecked⟩ := hI.governor.known _ hk
  obtain rfl : i = j := by simpa using hj
  have hinit := hI.deployed i p hp
  rw [← hinit] at hchecked hexec
  obtain ⟨p', out, hrcv, hstate⟩ :=
    finalize_ok hchecked.shape hchecked.id hchecked.bps ht hs hpass
  cases Proposal.receive_cases hrcv with
  | defeat => cases hstate
  | @succeed q _ _ _ hq =>
      have hactive := queueRequest_active hq hexec
      subst hinit
      exact ⟨_, q, _, hrcv, hactive⟩
  | execute hs' =>
      rw [hs] at hs'
      cases hs'

/-- The governor passes a success report on. -/
theorem Usable.reports (h : Usable D floor lag horizon c) (hI : Governing D treasury c)
    (hm : m ∈ c.flight) (hd : m.dst = D.G) (hb : m.bounced = false)
    {msg : ProposalStateReportToGovernor} (hbody : m.body = .proposalStateReportToGovernor msg)
    (hnew : msg.newState = 1) (hact : msg.queueActive = true)
    (hlook : c.st.governor.proposals.lookup msg.proposalId = some m.src) :
    ∃ w', World.receive D g c.now m c.st
      = .ok (w', [stamp D.G ((Ctx.of g c.now m).message D.T (milliTon 150) true
          (.timelockQueue
            { queryId := 0, proposalId := msg.proposalId, proposalContract := m.src
              target := msg.queueTarget, method := msg.queueMethod, args := msg.queueArgs
              delay := msg.queueDelay }))]) := by
  have hopened : D.opened m.body = .proposalStateReportToGovernor msg := by
    rw [hbody]
    rfl
  obtain ⟨i, hi, -, -, -, hreq⟩ := hI.requested hm hb hlook hopened hnew hact
  have hfits := h.listed _ i (hlook.trans (congrArg some hi)) hreq.executable
  have hterms := h.flight m hm hb
  rw [hbody] at hterms
  have hdelay : msg.queueDelay = 0 ∨ 86400 ≤ msg.queueDelay := by
    rw [hterms i hi hnew]
    exact hfits.1
  have hcaller : c.st.governor.proposals.lookup msg.proposalId
      = some (Ctx.of g c.now m).sender := hlook
  have hrcv : c.st.governor.receive (fun i => D.addr (.proposal i)) (Ctx.of g c.now m)
      (D.opened m.body) = .ok ({ c.st.governor with
          proposalStateById :=
            c.st.governor.proposalStateById.insert msg.proposalId msg.newState },
        [(Ctx.of g c.now m).message D.T (milliTon 150) true
          (.timelockQueue
            { queryId := 0, proposalId := msg.proposalId, proposalContract := m.src
              target := msg.queueTarget, method := msg.queueMethod, args := msg.queueArgs
              delay := msg.queueDelay })]) := by
    rw [hopened]
    simp only [Governor.receive, Governor.receiveStateReport, require_pos hcaller, ok_bind, hnew,
      hact, and_self, if_true, require_pos hdelay, hI.governor.timelock]
    rfl
  exact ⟨_, World.receive_governor_of_ok hd hb hrcv⟩

/-- The timelock takes a queue message. -/
theorem Usable.queues (h : Usable D floor lag horizon c) (hI : Governing D treasury c)
    {l : ProposalLog} (hL : Reserving D c l) (hQ : Queueing D c) (hnow : c.now ≤ horizon)
    (hm : m ∈ c.flight) (hs : m.src = D.G) (hd : m.dst = D.T) (hb : m.bounced = false)
    {q : TimelockQueue} (hbody : m.body = .timelockQueue q) :
    ∃ i, q.proposalContract = D.addr (.proposal i) ∧ i.id = q.proposalId
      ∧ (MethodFits c.st.timelock.highValueDelayFloorSec i →
        ∃ w', World.receive D g c.now m c.st = .ok (w', [])
          ∧ w'.timelock.pendingActions.lookup q.proposalId = some (entryOf c.now q)) := by
  have hterms := h.flight m hm hb
  have htells := hI.flight m hm hb
  rw [hbody] at hterms htells
  obtain ⟨i, hi, hdelay, hfits⟩ := hterms hs
  obtain ⟨j, hj, hid, -, -, hreq⟩ := htells hs
  obtain rfl : i = j := by simpa using hi.symm.trans hj
  refine ⟨i, hi, hid, fun hmethod => ?_⟩
  have hgov : (Ctx.of g c.now m).sender = c.st.timelock.governor := hs.trans hI.queuer.symm
  have hfree := hQ.free hL hm hs hb hbody
  have htime : uintField 64 ((Ctx.of g c.now m).now + q.delay : Int)
      = .ok (c.now + q.delay) := by
    have hlt := hfits.2.2
    have hfit : uintField 64 ((c.now + q.delay : Nat) : Int) = .ok (c.now + q.delay) :=
      uintField_of_lt (by omega)
    rw [← hfit]
    push_cast
    rfl
  have hfloor : highValue q.method = true →
      0 < q.delay ∧ c.st.timelock.highValueDelayFloorSec ≤ q.delay := by
    intro hv
    rw [hdelay]
    rcases hreq with ⟨hty, hact⟩ | ⟨hty, -⟩
    · rcases hmethod with h2 | hmethod
      · omega
      · exact hmethod _ _ _ hact hv
    · rw [h.delayFloor]
      exact hfits.2.1 hty
  have hclass : q.delay = 0 ∨ TIMELOCK_MIN_DELAY_SEC ≤ q.delay := hdelay ▸ hfits.1
  have hrcv : c.st.timelock.receive (Ctx.of g c.now m) (D.opened m.body)
      = .ok ({ c.st.timelock with
        pendingActions := c.st.timelock.pendingActions.insert q.proposalId (entryOf c.now q) },
        []) := by
    rw [hbody]
    simp only [Deployment.opened, Timelock.receive, Timelock.receiveQueue, require_pos hgov, hfree,
      Option.isNone_none, require_pos, ok_bind]
    cases hv : highValue q.method with
    | true =>
        simp only [if_true, require_pos (hfloor hv), ok_bind, htime]
        rfl
    | false =>
        simp only [Bool.false_eq_true, if_false, require_pos hclass, ok_bind, htime]
        rfl
  exact ⟨_, World.receive_timelock_of_ok hd hb hrcv, AList.lookup_insert _⟩

end Stations

/-- Governance cannot brick itself as long as every accepted configuration of an
executable type brings terms that fit: in every run, every station accepts what the
one before it sends. -/
theorem governance_usable {horizon : Nat} {c₀ c : WorldConf}
    (hS : (network D modelled ordered).owns D.S = true)
    (hG : (network D modelled ordered).owns D.G = true)
    (hP : ∀ i, (network D modelled ordered).owns (D.addr (.proposal i)) = true)
    (h₀ : UsableStart D horizon c₀)
    (h : (network D modelled ordered).Run (Meets (KeepsUsable D horizon)) c₀ c)
    (hnow : c.now ≤ horizon) : Unbricked D c := by
  have hgoverning : (network D modelled ordered).Preserves (Meets (KeepsUsable D horizon))
      (Governing D c₀.st.governor.treasury) :=
    (governing_preserved hS hG hP).weaken fun _ _ _ => trivial
  have hreserving : (network D modelled ordered).Preserves
      (fun c a => Meets (KeepsUsable D horizon) c a ∧ Governing D c₀.st.governor.treasury c)
      (fun c => ∃ l, Reserving D c l) :=
    (reserving_tracks hS hG hP).preserves
  have h₁ := h.guarded hgoverning h₀.governing
  have h₂ := h₁.guarded hreserving ⟨_, h₀.reservation.reserving⟩
  have hI := h.invariant hgoverning h₀.governing
  obtain ⟨l, hL⟩ := h₁.invariant hreserving ⟨_, h₀.reservation.reserving⟩
  have hQ := h₂.invariant (queueing_preserved hG hP fun _ _ hg => ⟨hg.1.2, hg.2⟩) h₀.queueing
  have hU := h₁.invariant (usable_preserved hS hG hP fun _ _ hg => hg) h₀.usable
  exact
    { creates := fun _ _ => hU.creates hI
      answers := fun _ _ _ hs hd hb _ => hU.answers hI hs hd hb
      deploys := fun _ _ hm hs hd hb _ => hU.deploys hI hnow hm hs hd hb
      finalizes := fun _ _ _ _ => hI.finalizes
      reports := fun _ _ hm hd hb _ => hU.reports hI hm hd hb
      queues := fun _ _ hm hs hd hb _ => hU.queues hI hL hQ hnow hm hs hd hb }

/-! ## Two runs -/

/-- Calls method 7 of account 8. -/
def callPayload : Cell :=
  (((Slice.empty.storeAddress (account 8)).storeBits (natToBits 32 7)).storeRef (.mk [] [])).endCell

/-- The proposal the governor deploys for it at time 1000. -/
def callInit (delay : Nat) : ProposalInit :=
  { id := 0, governor := D₀.G, voteRelayer := D₀.S, proposer := account 3, proposalType := 0
    payload := callPayload, startTime := 4600, endTime := 263800
    totalVpSnapshot := 300000000000, quorumRequired := 30000000000, thresholdBps := 5100
    timelockDelaySec := delay, timelockAddr := D₀.T }

/-- Parameter changes are given the timelock delay `delay`; account 3 stakes,
proposes the call and votes for it, and the proposal is finalized. -/
def reconfiguredCall (delay : Nat) : List (Action Address Body Gas) :=
  [.send (external D₀.T D₀.G (milliTon 100) (.timelockSetProposalConfig
     { queryId := 0, proposalType := 0, config := ⟨10, 51, 259200, delay⟩ })),
   .deliver 0 (freeGas 0) true,
   .send (stakeNotice 3 100000000000 (account 3) (milliTon 5000)),
   .deliver 1 (freeGas 0) true,
   .send (external (account 3) D₀.G (milliTon 1000)
     (.createProposal { queryId := 0, proposalType := 0, payload := callPayload, claimedVp := 1 })),
   .deliver 5 (freeGas (milliTon 900)) true,
   .deliver 5 (freeGas (milliTon 800)) true,
   .deliver 5 (freeGas 0) true,
   .deliver 5 (freeGas 0) true,
   .wait 3600,
   .send (external (account 3) D₀.G (milliTon 1000)
     (.castVote { queryId := 0, proposalId := 0, support := true, claimedVp := 1000000000000 })),
   .deliver 5 (freeGas 500) true,
   .deliver 5 (freeGas 500) true,
   .deliver 5 (freeGas 500) true,
   .wait 300000,
   .send (external (account 9) (D₀.addr (.proposal (callInit delay))) (milliTon 1000)
     .proposalFinalize),
   .deliver 6 (freeGas 0) true]

theorem usableStart_bootstrap : UsableStart D₀ (2 ^ 32) (bootstrapAt 1000) where
  governor := rfl
  owner := by decide +kernel
  master := rfl
  timelock := rfl
  queuer := rfl
  proposals := ⟨rfl, rfl⟩
  deployed := rfl
  entries := rfl
  flight := rfl
  count := rfl
  tagged := fun t who stake hget => absurd hget nofun
  configured := by
    unfold StakingMaster.Configured
    decide +kernel
  configs := by
    rintro ty (rfl | rfl | rfl)
    · exact ⟨⟨10, 51, 3 * 86400, 2 * 86400⟩, rfl, by decide, by decide, by decide⟩
    · exact ⟨⟨20, 66, 7 * 86400, 2 * 86400⟩, rfl, by decide, by decide, by decide⟩
    · exact ⟨⟨30, 75, 86400, 0⟩, rfl, by decide, by decide, by decide⟩

theorem creationContracts_own_proposals (i : ProposalInit) :
    (network D₀ creationContracts fun _ _ => false).owns (D₀.addr (.proposal i)) = true := by
  simp [network, Deployment.owns, creationContracts]

/-- With a delay of a day, the report that is under way at the end is accepted. -/
theorem governance_usable_day :
    ∃ c m w' out, (network D₀ creationContracts fun _ _ => false).execWhile
        (fun c a => decide (Meets (KeepsUsable D₀ (2 ^ 32)) c a)) .silent (bootstrapAt 1000) ()
        (reconfiguredCall 86400) = some (c, ())
      ∧ c.flight[6]? = some m
      ∧ World.receive D₀ (freeGas 0) c.now m c.st = .ok (w', out) ∧ Unbricked D₀ c := by
  have hrun : ((network D₀ creationContracts fun _ _ => false).execWhile
      (fun c a => decide (Meets (KeepsUsable D₀ (2 ^ 32)) c a)) .silent (bootstrapAt 1000) ()
      (reconfiguredCall 86400)).bind (fun r => (r.1.flight[6]?).bind fun m =>
        match World.receive D₀ (freeGas 0) r.1.now m r.1.st with
        | .ok _ => some r.1.now
        | .error _ => none) = some 304600 := by
    decide +kernel
  obtain ⟨⟨c, l⟩, hc, hrun⟩ := Option.bind_eq_some_iff.mp hrun
  obtain ⟨m, hm, hrun⟩ := Option.bind_eq_some_iff.mp hrun
  split at hrun
  · rename_i r hr
    have hnow : c.now = 304600 := Option.some.inj hrun
    exact ⟨c, m, r.1, r.2, hc, hm, hr, governance_usable (by decide +kernel) (by decide +kernel)
      creationContracts_own_proposals usableStart_bootstrap
      (Machine.logged_of_execWhile (fun _ _ h => of_decide_eq_true h) hc).run (by omega)⟩
  · cases hrun

def reportOf : Body → Option ProposalStateReportToGovernor
  | .proposalStateReportToGovernor r => some r
  | _ => none

/-- A delay of an hour is accepted as a configuration, and then the governor throws
on the success report. -/
theorem delay_bricks_type :
    ∃ c, (network D₀ creationContracts fun _ _ => false).Reach (bootstrapAt 1000) c
      ∧ UsableStart D₀ (2 ^ 32) (bootstrapAt 1000) ∧ c.now ≤ 2 ^ 32 ∧ ¬ Unbricked D₀ c := by
  have hrun : ((network D₀ creationContracts fun _ _ => false).exec (bootstrapAt 1000)
      (reconfiguredCall 3600)).bind (fun c => (c.flight[6]?).bind fun m =>
        (reportOf m.body).map fun r => decide (c.now ≤ 2 ^ 32 ∧ m.dst = D₀.G ∧ m.bounced = false
          ∧ r.newState = 1 ∧ r.queueActive = true
          ∧ c.st.governor.proposals.lookup r.proposalId = some m.src
          ∧ (World.receive D₀ (freeGas 0) c.now m c.st).toOption.isSome = false))
      = some true := by
    decide +kernel
  obtain ⟨c, hc, hrun⟩ := Option.bind_eq_some_iff.mp hrun
  obtain ⟨m, hm, hrun⟩ := Option.bind_eq_some_iff.mp hrun
  obtain ⟨r, hr, hrun⟩ := Option.map_eq_some_iff.mp hrun
  obtain ⟨hnow, hd, hb, hnew, hact, hlook, hthrows⟩ := of_decide_eq_true hrun
  have hbody : m.body = .proposalStateReportToGovernor r := by
    unfold reportOf at hr
    split at hr
    · rename_i r' hr'
      rw [hr', Option.some.inj hr]
    · cases hr
  refine ⟨c, Machine.run_of_exec hc, usableStart_bootstrap, hnow, fun h => ?_⟩
  obtain ⟨w', hok⟩ := h.reports (freeGas 0) m (List.mem_of_getElem? hm) hd hb r hbody hnew hact hlook
  rw [hok] at hthrows
  cases hthrows

end BurnedChats

import BurnedChats.Staking.Steps
import BurnedChats.World

/-!
# What governor and proposals do

Every accepted execution of the governor (`Governor.receive_cases`) and of a
proposal (`Proposal.receive_cases`), and what the staking master says to them
(`StakingMaster.did_governance`).
-/

namespace BurnedChats

/-! ## The staking master -/

namespace StakingMaster

variable {ctx : Ctx} {s s' : StakingMaster} {b : Body} {out : List Msg}

/-- The bodies governor and proposals take from the master, and raw ones. -/
def toGovernance : Body → Bool
  | .raw _ => true
  | .totalVpSnapshotReply _ => true
  | .proposalVoteRelay _ => true
  | _ => false

theorem did_governance (h : Did ctx s b s' out) :
    (∀ r ∈ out, toGovernance r.body = false)
      ∨ (∃ (msg : GovernorVoteRelay) (vp : Nat) (eff : Int), b = .governorVoteRelay msg
        ∧ ctx.sender = s.governorAddr
        ∧ s.computeOwnerVotingPowerLockedBeyond msg.voter msg.voteEndTime = .ok vp
        ∧ eff ≤ vp ∧ 0 < eff ∧ s' = s
        ∧ out = [ctx.message msg.proposal ctx.remaining true
          (.proposalVoteRelay { voter := msg.voter, support := msg.support, vp := eff })])
      ∨ (∃ (msg : RequestTotalVpSnapshot) (totalVp proposerVp : Nat),
        b = .requestTotalVpSnapshot msg ∧ ctx.sender = s.governorAddr
        ∧ s.computeTotalVotingPower = .ok totalVp ∧ s' = s
        ∧ out = [ctx.message s.governorAddr ctx.remaining true
          (.totalVpSnapshotReply { msg with totalVp, proposerVp })]) := by
  have hpaid : ∀ who reward q, ∀ r ∈ rewardMsgs ctx s who reward q,
      toGovernance r.body = false := by
    intro who reward q r hr
    unfold rewardMsgs at hr
    split at hr
    · obtain rfl := List.mem_singleton.mp hr
      rfl
    · cases hr
  have htick : ∀ {s₁ ticked}, tickEmission ctx s = .ok (s₁, ticked) →
      ∀ r ∈ ticked, toGovernance r.body = false := by
    intro s₁ ticked ht r hr
    obtain ⟨_, -, -, rfl⟩ := tickEmission_spec ht
    split at hr
    · obtain rfl := List.mem_singleton.mp hr
      rfl
    · cases hr
  cases h with
  | stake _ _ _ _ ht =>
      refine .inl fun r hr => ?_
      simp only [List.mem_append, List.mem_cons, List.not_mem_nil, or_false] at hr
      rcases hr with (hr | hr) | rfl | rfl | rfl | rfl
      · exact htick ht r hr
      · exact hpaid _ _ _ r hr
      all_goals rfl
  | unstake ht =>
      refine .inl fun r hr => ?_
      simp only [List.mem_append, List.mem_cons, List.not_mem_nil, or_false] at hr
      rcases hr with hr | rfl | rfl | rfl
      · exact htick ht r hr
      all_goals rfl
  | claim ht =>
      refine .inl fun r hr => ?_
      simp only [List.mem_append, List.mem_cons, List.not_mem_nil, or_false] at hr
      rcases hr with (hr | hr) | rfl
      · exact htick ht r hr
      · exact hpaid _ _ _ r hr
      · rfl
  | accrue => exact .inl fun r hr => absurd hr List.not_mem_nil
  | sync => exact .inl fun r hr => absurd hr List.not_mem_nil
  | fund => exact .inl fun r hr => absurd hr List.not_mem_nil
  | @relay msg vp eff hs hvp hle hpos =>
      exact .inr (.inl ⟨msg, vp, eff, rfl, hs, hvp, hle, hpos, rfl, rfl⟩)
  | @snapshot msg totalVp proposerVp hs hvp =>
      exact .inr (.inr ⟨msg, totalVp, proposerVp, rfl, hs, hvp, rfl, rfl⟩)
  | quiet _ _ _ hout =>
      refine .inl fun r hr => ?_
      rcases hout r hr with h | ⟨t, h⟩ <;> rw [h] <;> rfl

/-- Once set, the governor stays. -/
theorem did_governor (h : Did ctx s b s' out) (hg : s.governorAddr ≠ s.bootstrapOwner) :
    s'.governorAddr = s.governorAddr ∧ s'.bootstrapOwner = s.bootstrapOwner := by
  have htick : ∀ {s₁ ticked}, tickEmission ctx s = .ok (s₁, ticked) →
      s₁.governorAddr = s.governorAddr ∧ s₁.bootstrapOwner = s.bootstrapOwner := by
    intro s₁ ticked ht
    obtain ⟨r, rfl, -, -⟩ := tickEmission_spec ht
    exact ⟨rfl, rfl⟩
  cases h with
  | stake _ _ _ _ ht => exact ⟨(htick ht).1, (htick ht).2⟩
  | @unstake msg s₁ _ cur ht =>
      have hrem : (s₁.remainder msg.tier ctx.sender cur msg.amount).governorAddr = s₁.governorAddr
          ∧ (s₁.remainder msg.tier ctx.sender cur msg.amount).bootstrapOwner
            = s₁.bootstrapOwner := by
        unfold remainder
        split <;> exact ⟨rfl, rfl⟩
      exact ⟨hrem.1.trans (htick ht).1, hrem.2.trans (htick ht).2⟩
  | claim ht => exact ⟨(htick ht).1, (htick ht).2⟩
  | accrue _ happ =>
      obtain ⟨-, r, rfl, -, -⟩ := applyStakeFeeSlices_spec happ
      exact ⟨rfl, rfl⟩
  | sync => exact ⟨rfl, rfl⟩
  | fund => exact ⟨rfl, rfl⟩
  | relay => exact ⟨rfl, rfl⟩
  | snapshot => exact ⟨rfl, rfl⟩
  | quiet _ _ hgov _ =>
      rcases hgov with rfl | hgov
      · exact ⟨rfl, rfl⟩
      · exact absurd hgov hg

end StakingMaster

/-! ## The governor -/

namespace Governor

variable {proposalAddr : ProposalInit → Address} {ctx : Ctx} {s s' : Governor} {b : Body}
  {out : List Msg}

/-- Everything an accepted execution of the governor can be. -/
inductive Governed (proposalAddr : ProposalInit → Address) (ctx : Ctx) (s : Governor) :
    Body → Governor → List Msg → Prop where
  | create {msg : CreateProposal} {req : RequestTotalVpSnapshot} {cfg : ProposalConfig} :
      validateProposalPayloadShape msg.proposalType msg.payload s.treasury = .ok () →
      req.proposalId = s.proposalCount → req.proposalId < 2 ^ 64 →
      req.proposalType = msg.proposalType → req.payload = msg.payload →
      req.thresholdBps ≤ 10000 →
      s.proposalConfigs.lookup msg.proposalType = some cfg → req.period = cfg.period →
      req.timelockDelay = cfg.timelockDelay →
      Governed proposalAddr ctx s (.createProposal msg)
        { s with proposalCount := s.proposalCount + 1 }
        [ctx.message s.stakingMaster ctx.remaining true (.requestTotalVpSnapshot req)]
  | decline {msg : TotalVpSnapshotReply} : ctx.sender = s.stakingMaster →
      Governed proposalAddr ctx s (.totalVpSnapshotReply msg)
        { s with
          proposalStateById :=
            s.proposalStateById.insert msg.proposalId ProposalState.cancelled.code } []
  | deploy {msg : TotalVpSnapshotReply} {i : ProposalInit} : ctx.sender = s.stakingMaster →
      i = proposalInit ctx s msg (quorumAbsFromSnapshot msg.totalVp msg.quorumPercent) →
      Governed proposalAddr ctx s (.totalVpSnapshotReply msg)
        { s with
          proposals := s.proposals.insert msg.proposalId (proposalAddr i)
          proposalStateById := s.proposalStateById.insert msg.proposalId ProposalState.active.code
          proposalEndTimeById := s.proposalEndTimeById.insert msg.proposalId i.endTime
          knownProposals := s.knownProposals.insert (proposalAddr i) true }
        [ctx.deploy (proposalAddr i) (milliTon 180) false .empty]
  | vote {msg : CastVote} {a : Address} {voteEndTime : Nat} :
      s.proposals.lookup msg.proposalId = some a →
      s.proposalEndTimeById.lookup msg.proposalId = some voteEndTime →
      Governed proposalAddr ctx s (.castVote msg) s
        [ctx.message s.stakingMaster ctx.remaining true
          (.governorVoteRelay
            { queryId := msg.queryId, proposal := a, voter := ctx.sender
              support := msg.support, claimedVp := msg.claimedVp, voteEndTime })]
  | execute {queryId id : Nat} {a : Address} :
      Governed proposalAddr ctx s (.executeProposal queryId id) s
        [ctx.message a (milliTon 70) true .proposalExecute, ctx.cashback ctx.sender]
  | report {msg : ProposalStateReportToGovernor} :
      s.proposals.lookup msg.proposalId = some ctx.sender →
      Governed proposalAddr ctx s (.proposalStateReportToGovernor msg)
        { s with proposalStateById := s.proposalStateById.insert msg.proposalId msg.newState } []
  | queue {msg : ProposalStateReportToGovernor} :
      s.proposals.lookup msg.proposalId = some ctx.sender → msg.newState = 1 →
      msg.queueActive = true →
      Governed proposalAddr ctx s (.proposalStateReportToGovernor msg)
        { s with proposalStateById := s.proposalStateById.insert msg.proposalId msg.newState }
        [ctx.message s.timelock (milliTon 150) true
          (.timelockQueue
            { queryId := 0, proposalId := msg.proposalId, proposalContract := ctx.sender
              target := msg.queueTarget, method := msg.queueMethod, args := msg.queueArgs
              delay := msg.queueDelay })]
  | config {msg : TimelockSetProposalConfig} : ctx.sender = s.timelock →
      Governed proposalAddr ctx s (.timelockSetProposalConfig msg)
        { s with proposalConfigs := s.proposalConfigs.insert msg.proposalType msg.config }
        [ctx.cashback ctx.sender]
  | idle {out : List Msg} : (∀ r ∈ out, r = ctx.cashback ctx.sender) →
      Governed proposalAddr ctx s .empty s out

theorem receiveCreateProposal_governed {msg : CreateProposal}
    (h : receiveCreateProposal ctx s msg = .ok (s', out)) :
    Governed proposalAddr ctx s (.createProposal msg) s' out := by
  simp only [receiveCreateProposal, bind_eq_ok] at h
  obtain ⟨_, hshape, h⟩ := h
  split at h
  · cases h
  · rename_i cfg hcfg
    simp only [bind_eq_ok, require_eq_ok, exists_const, Except.ok.injEq, Prod.mk.injEq] at h
    obtain ⟨-, bps, -, hbps, -, -, n, hn, quorum, -, rfl, rfl⟩ := h
    obtain ⟨hn, hlt⟩ := uintField_eq_ok hn
    obtain rfl : n = s.proposalCount + 1 := by omega
    exact .create hshape rfl (by simp only; omega) rfl rfl hbps hcfg rfl rfl

theorem receiveTotalVpSnapshotReply_governed {msg : TotalVpSnapshotReply}
    (h : receiveTotalVpSnapshotReply proposalAddr ctx s msg = .ok (s', out)) :
    Governed proposalAddr ctx s (.totalVpSnapshotReply msg) s' out := by
  simp only [receiveTotalVpSnapshotReply, bind_eq_ok, require_eq_ok, exists_const] at h
  obtain ⟨hs, -, h⟩ := h
  split at h
  · obtain ⟨rfl, rfl⟩ := Prod.mk.inj (Except.ok.inj h)
    exact .decline hs
  · simp only [bind_eq_ok, require_eq_ok, exists_const, Except.ok.injEq, Prod.mk.injEq] at h
    obtain ⟨-, endTime, hend, rfl, rfl⟩ := h
    obtain ⟨hend, -⟩ := uintField_eq_ok hend
    obtain rfl := Int.ofNat.inj hend
    exact .deploy hs rfl

theorem receiveStateReport_governed {msg : ProposalStateReportToGovernor}
    (h : receiveStateReport ctx s msg = .ok (s', out)) :
    Governed proposalAddr ctx s (.proposalStateReportToGovernor msg) s' out := by
  simp only [receiveStateReport, bind_eq_ok, require_eq_ok, exists_const] at h
  obtain ⟨hs, h⟩ := h
  split at h
  · rename_i hq
    simp only [bind_eq_ok, require_eq_ok, exists_const, Except.ok.injEq, Prod.mk.injEq] at h
    obtain ⟨-, rfl, rfl⟩ := h
    exact .queue hs hq.1 hq.2
  · obtain ⟨rfl, rfl⟩ := Prod.mk.inj (Except.ok.inj h)
    exact .report hs

theorem receive_cases (h : s.receive proposalAddr ctx b = .ok (s', out)) :
    Governed proposalAddr ctx s b s' out := by
  unfold receive at h
  split at h
  · obtain ⟨rfl, rfl⟩ := Prod.mk.inj (Except.ok.inj h)
    refine .idle fun r hr => ?_
    split at hr
    · exact List.mem_singleton.mp hr
    · cases hr
  · exact receiveCreateProposal_governed h
  · exact receiveTotalVpSnapshotReply_governed h
  · simp only [receiveCastVote, bind_eq_ok, require_eq_ok, exists_const] at h
    obtain ⟨-, -, h⟩ := h
    split at h
    · cases h
    · rename_i a ha
      split at h
      · cases h
      · rename_i e he
        obtain ⟨rfl, rfl⟩ := Prod.mk.inj (Except.ok.inj h)
        exact .vote ha he
  · simp only [receiveExecuteProposal] at h
    split at h
    · cases h
    · obtain ⟨rfl, rfl⟩ := Prod.mk.inj (Except.ok.inj h)
      exact .execute
  · exact receiveStateReport_governed h
  · simp only [receiveSetProposalConfig, bind_eq_ok, require_eq_ok, exists_const, Except.ok.injEq,
      Prod.mk.injEq] at h
    obtain ⟨hs, -, -, -, rfl, rfl⟩ := h
    exact .config hs
  · cases h

end Governor

/-! ## Proposals -/

namespace Proposal

variable {ctx : Ctx} {p p' : Proposal} {b : Body} {out : List Msg}

/-- The votes after `vp` more for one side. -/
def counted (p : Proposal) (voter : Address) (support : Bool) (vp : Int) : Proposal :=
  { p with
    voted := p.voted.insert voter 1
    forVotes := if support then p.forVotes + vp else p.forVotes
    againstVotes := if support then p.againstVotes else p.againstVotes + vp }

/-- Everything an accepted execution of a proposal can be. -/
inductive Decided (ctx : Ctx) (p : Proposal) : Body → Proposal → List Msg → Prop where
  | vote {msg : ProposalVoteRelay} : ctx.sender = p.voteRelayer → p.state = .active →
      p.startTime ≤ ctx.now → ctx.now ≤ p.endTime → 0 < msg.vp →
      p.voted.lookup msg.voter = none →
      Decided ctx p (.proposalVoteRelay msg) (p.counted msg.voter msg.support msg.vp)
        [ctx.message msg.voter ctx.remaining false .empty]
  | defeat : p.endTime < ctx.now → p.state = .active →
      Decided ctx p .proposalFinalize { p with state := .defeated }
        [reportStateEx ctx p .defeated 0 noRequest, ctx.cashback ctx.sender]
  | succeed {q : QueueRequest} : p.endTime < ctx.now → p.state = .active → p.passes = true →
      p.queueRequest = .ok q →
      Decided ctx p .proposalFinalize { p with state := .succeeded, succeededAt := ctx.now }
        [reportStateEx ctx p .succeeded p.timelockDelaySec q, ctx.cashback ctx.sender]
  | execute {b : Body} : p.state = .succeeded →
      Decided ctx p b { p with state := .executed } [reportStateEx ctx p .executed 0 noRequest]
  | cancel : ctx.now < p.startTime → p.state = .active →
      Decided ctx p .proposalCancel { p with state := .cancelled }
        [reportStateEx ctx p .cancelled 0 noRequest, ctx.cashback ctx.sender]
  | idle {out : List Msg} : (∀ r ∈ out, r = ctx.cashback ctx.sender) → Decided ctx p .empty p out

theorem receiveFinalize_decided (h : p.receiveFinalize ctx = .ok (p', out)) :
    Decided ctx p .proposalFinalize p' out := by
  simp only [receiveFinalize, bind_eq_ok, require_eq_ok, exists_const] at h
  obtain ⟨ht, hs, h⟩ := h
  split at h
  · obtain ⟨rfl, rfl⟩ := Prod.mk.inj (Except.ok.inj h)
    exact .defeat ht hs
  · split at h
    · obtain ⟨rfl, rfl⟩ := Prod.mk.inj (Except.ok.inj h)
      exact .defeat ht hs
    · simp only [bind_eq_ok, require_eq_ok, exists_const] at h
      obtain ⟨-, h⟩ := h
      split at h
      · obtain ⟨rfl, rfl⟩ := Prod.mk.inj (Except.ok.inj h)
        exact .defeat ht hs
      · rename_i hp
        simp only [bind_eq_ok, Except.ok.injEq, Prod.mk.injEq] at h
        obtain ⟨q, hq, rfl, rfl⟩ := h
        exact .succeed ht hs (not_not.mp hp) hq

theorem receive_cases (h : p.receive ctx b = .ok (p', out)) : Decided ctx p b p' out := by
  unfold receive at h
  split at h
  · obtain ⟨rfl, rfl⟩ := Prod.mk.inj (Except.ok.inj h)
    refine .idle fun r hr => ?_
    split at hr
    · exact List.mem_singleton.mp hr
    · cases hr
  · simp only [receiveVoteRelay, bind_eq_ok, require_eq_ok, exists_const, Except.ok.injEq,
      Prod.mk.injEq] at h
    obtain ⟨hs, ha, h1, h2, hvp, hv, rfl, rfl⟩ := h
    convert Decided.vote hs ha h1 h2 hvp hv using 1
    unfold counted
    split <;> rfl
  · exact receiveFinalize_decided h
  · simp only [receiveExecute, bind_eq_ok, require_eq_ok, exists_const, Except.ok.injEq,
      Prod.mk.injEq] at h
    obtain ⟨-, hs, -, rfl, rfl⟩ := h
    exact .execute hs
  · simp only [receiveMarkExecuted, bind_eq_ok, require_eq_ok, exists_const, Except.ok.injEq,
      Prod.mk.injEq] at h
    obtain ⟨-, hs, rfl, rfl⟩ := h
    exact .execute hs
  · simp only [receiveCancel, bind_eq_ok, require_eq_ok, exists_const, Except.ok.injEq,
      Prod.mk.injEq] at h
    obtain ⟨-, ht, hs, rfl, rfl⟩ := h
    exact .cancel ht hs
  · cases h

end Proposal

end BurnedChats

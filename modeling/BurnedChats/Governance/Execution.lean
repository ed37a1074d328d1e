import BurnedChats.Bootstrap
import BurnedChats.Governance.Requests
import BurnedChats.Governance.Steps
import BurnedChats.Staking.Runs

/-!
# What was voted is what is executed

Staking master, governor, proposals and timelock together. A payload travels in
the snapshot request and its reply, in the initial data of the proposal, in the
proposal's report, in the governor's queue message and in the timelock's entry;
each of these is traced back to a payload that passed the governor's check. The
addresses do the rest: the governor takes replies from the master only, and
reports from the contract it deployed for that id only, and a proposal's address
determines its payload.
-/

namespace BurnedChats

open Network Timelock

variable {D : Deployment} {modelled : Part → Bool} {ordered : Address → Address → Bool}

/-! ## Payloads under way -/

/-- What the governor has checked when it asks for a snapshot. -/
structure Checked (treasury : Address) (proposalType : Nat) (payload : Cell)
    (id thresholdBps : Nat) : Prop where
  shape : validateProposalPayloadShape proposalType payload treasury = .ok ()
  id : id < 2 ^ 64
  bps : thresholdBps ≤ 10000

/-- The proposal has succeeded. -/
def Proposal.Passed (p : Proposal) : Prop :=
  p.passes = true ∧ (p.state = .succeeded ∨ p.state = .executed)

def Passed (D : Deployment) (w : World) (i : ProposalInit) : Prop :=
  ∃ p, w.proposals.lookup (D.addr (.proposal i)) = some p ∧ p.Passed

/-- The contract for `i` reports `r`. -/
def Reported (D : Deployment) (w : World) (i : ProposalInit)
    (r : ProposalStateReportToGovernor) : Prop :=
  r.proposalId = i.id ∧ (r.newState = 1 → r.queueActive = true → Passed D w i
    ∧ (Proposal.init i).queueRequest = .ok ⟨r.queueTarget, r.queueMethod, r.queueArgs, true⟩)

/-- A known proposal with this id and contract has passed, and its payload asks for
this. -/
def Asked (D : Deployment) (treasury : Address) (w : World) (id : Nat) (contract target : Address)
    (method : Nat) (args : Cell) : Prop :=
  ∃ i, contract = D.addr (.proposal i) ∧ i.id = id ∧ w.governor.isKnownProposal contract = true
    ∧ Passed D w i ∧ Requested treasury i ⟨target, method, args, true⟩

/-- What an original message can say, depending on who sent it. -/
def Says (D : Deployment) (treasury : Address) (w : World) (src : Address) : Body → Prop
  | .raw _ => src ≠ D.S ∧ src ≠ D.G ∧ ∀ i, src ≠ D.addr (.proposal i)
  | .requestTotalVpSnapshot r => src = D.G →
      Checked treasury r.proposalType r.payload r.proposalId r.thresholdBps
  | .totalVpSnapshotReply r => src = D.S →
      Checked treasury r.proposalType r.payload r.proposalId r.thresholdBps
  | .proposalStateReportToGovernor r => ∀ i, src = D.addr (.proposal i) → Reported D w i r
  | .timelockQueue q => src = D.G →
      Asked D treasury w q.proposalId q.proposalContract q.target q.method q.args
  | _ => True

/-- What holds of the governor: its wiring, and what it knows of its proposals. -/
structure GovernorKept (D : Deployment) (treasury : Address) (s : Governor) : Prop where
  master : s.stakingMaster = D.S
  timelock : s.timelock = D.T
  sink : s.treasury = treasury
  known : ∀ a, s.isKnownProposal a = true → ∃ i, a = D.addr (.proposal i)
    ∧ Checked treasury i.proposalType i.payload i.id i.thresholdBps
  listed : ∀ n a, s.proposals.lookup n = some a →
    s.isKnownProposal a = true ∧ ∃ i, a = D.addr (.proposal i) ∧ i.id = n

structure Governing (D : Deployment) (treasury : Address) (c : WorldConf) : Prop where
  master : c.st.sm.governorAddr = D.G ∧ c.st.sm.bootstrapOwner ≠ D.G
  governor : GovernorKept D treasury c.st.governor
  deployed : ∀ i p, c.st.proposals.lookup (D.addr (.proposal i)) = some p → p.toProposalInit = i
  queuer : c.st.timelock.governor = D.G
  entries : ∀ id a, c.st.timelock.pendingActions.lookup id = some a → a.proposalId = id
    ∧ Asked D treasury c.st id a.proposalContract a.target a.method a.args
  flight : ∀ m ∈ c.flight, m.bounced = false → Says D treasury c.st m.src m.body

/-! ## What only grows -/

/-- Known proposals stay known, and passed ones stay passed. -/
structure Grows (D : Deployment) (w w' : World) : Prop where
  known : ∀ a, w.governor.isKnownProposal a = true → w'.governor.isKnownProposal a = true
  passed : ∀ i, Passed D w i → Passed D w' i

theorem Grows.of_eq {w w' : World} (hg : w'.governor = w.governor)
    (hp : w'.proposals = w.proposals) : Grows D w w' := by
  refine ⟨fun a ha => ?_, fun i hi => ?_⟩
  · rw [hg]
    exact ha
  · rw [Passed, hp]
    exact hi

theorem Asked.mono {treasury : Address} {w w' : World} {id method : Nat}
    {contract target : Address} {args : Cell} (hgrow : Grows D w w')
    (h : Asked D treasury w id contract target method args) :
    Asked D treasury w' id contract target method args := by
  obtain ⟨i, hc, hid, hk, hp, hreq⟩ := h
  exact ⟨i, hc, hid, hgrow.known _ hk, hgrow.passed i hp, hreq⟩

theorem Says.mono {treasury src : Address} {w w' : World} {b : Body} (hgrow : Grows D w w')
    (h : Says D treasury w src b) : Says D treasury w' src b := by
  cases b with
  | proposalStateReportToGovernor r =>
      intro i hi
      obtain ⟨hid, hq⟩ := h i hi
      exact ⟨hid, fun h1 h2 => ⟨hgrow.passed i (hq h1 h2).1, (hq h1 h2).2⟩⟩
  | timelockQueue q => exact fun hs => Asked.mono hgrow (h hs)
  | _ => exact h

/-- The other accounts may say anything. -/
theorem says_of_foreign {treasury src : Address} {w : World} (b : Body) (hS : src ≠ D.S)
    (hG : src ≠ D.G) (hP : ∀ i, src ≠ D.addr (.proposal i)) : Says D treasury w src b := by
  cases b with
  | raw c => exact ⟨hS, hG, hP⟩
  | requestTotalVpSnapshot r => exact fun h => absurd h hG
  | totalVpSnapshotReply r => exact fun h => absurd h hS
  | proposalStateReportToGovernor r => exact fun i h => absurd h (hP i)
  | timelockQueue q => exact fun h => absurd h hG
  | _ => trivial

theorem Proposal.decided_passed {ctx : Ctx} {p p' : Proposal} {b : Body} {out : List Msg}
    (h : Proposal.Decided ctx p b p' out) :
    p'.toProposalInit = p.toProposalInit ∧ (p.Passed → p'.Passed) := by
  have hactive : p.state = .active → ¬ p.Passed := by
    rintro ha ⟨-, hs | hs⟩ <;> rw [ha] at hs <;> cases hs
  cases h with
  | vote _ ha => exact ⟨rfl, fun hp => absurd hp (hactive ha)⟩
  | defeat _ ha => exact ⟨rfl, fun hp => absurd hp (hactive ha)⟩
  | succeed _ ha => exact ⟨rfl, fun hp => absurd hp (hactive ha)⟩
  | execute => exact ⟨rfl, fun hp => ⟨hp.1, .inr rfl⟩⟩
  | cancel _ ha => exact ⟨rfl, fun hp => absurd hp (hactive ha)⟩
  | idle => exact ⟨rfl, id⟩

/-- What a proposal reports. -/
theorem says_of_decided {treasury : Address} {w : World} {i : ProposalInit} {ctx : Ctx}
    {p p' : Proposal} {b : Body} {out : List Msg} (h : Proposal.Decided ctx p b p' out)
    (hp : p.toProposalInit = i) (hpass : p'.Passed → Passed D w i) :
    ∀ r ∈ out, Says D treasury w (D.addr (.proposal i)) r.body := by
  have hreport : ∀ {ns : ProposalState} {delay : Nat} {q : QueueRequest}, (ns = .succeeded →
      q.active = true → Passed D w i ∧ (Proposal.init i).queueRequest
        = .ok ⟨q.target, q.method, q.args, true⟩) →
      Says D treasury w (D.addr (.proposal i)) (Proposal.reportStateEx ctx p ns delay q).body := by
    intro ns delay q hq j hj
    obtain rfl : i = j := by simpa using hj
    refine ⟨by rw [← hp], fun h1 h2 => hq ?_ h2⟩
    revert h1
    cases ns <;> simp [ProposalState.code]
  intro r hr
  cases h with
  | vote =>
      obtain rfl := List.mem_singleton.mp hr
      trivial
  | defeat | cancel =>
      simp only [List.mem_cons, List.not_mem_nil, or_false] at hr
      rcases hr with rfl | rfl
      · exact hreport fun hns => by cases hns
      · trivial
  | @succeed q _ _ hpasses hq =>
      simp only [List.mem_cons, List.not_mem_nil, or_false] at hr
      rcases hr with rfl | rfl
      · refine hreport fun _ hact => ⟨hpass ⟨hpasses, .inl rfl⟩, ?_⟩
        have hsame : (Proposal.init i).queueRequest = p.queueRequest := by
          rw [← hp]
          rfl
        rw [hsame, hq, ← hact]
      · trivial
  | execute =>
      obtain rfl := List.mem_singleton.mp hr
      exact hreport fun hns => by cases hns
  | idle hcash =>
      rw [hcash r hr]
      trivial

/-! ## The steps -/

section Steps

variable {treasury : Address} {c c' : WorldConf} {m : Msg} {pre post out : List Msg} {w' : World}
  {g : Gas}

/-- A message is delivered and `out` is sent. -/
theorem Governing.next (h : Governing D treasury c) (hf : c.flight = pre ++ m :: post)
    (hgrow : Grows D c.st w')
    (hmaster : w'.sm.governorAddr = D.G ∧ w'.sm.bootstrapOwner ≠ D.G)
    (hgov : GovernorKept D treasury w'.governor)
    (hdeployed : ∀ i p, w'.proposals.lookup (D.addr (.proposal i)) = some p →
      p.toProposalInit = i)
    (hqueuer : w'.timelock.governor = D.G)
    (hentries : ∀ id a, w'.timelock.pendingActions.lookup id = some a → a.proposalId = id
      ∧ Asked D treasury c.st id a.proposalContract a.target a.method a.args)
    (hout : ∀ r ∈ out, r.bounced = false → Says D treasury w' r.src r.body) :
    Governing D treasury ⟨w', pre ++ post ++ out, c.now⟩ := by
  refine ⟨hmaster, hgov, hdeployed, hqueuer, fun id a ha => ?_, fun r hr hb => ?_⟩
  · obtain ⟨hid, hask⟩ := hentries id a ha
    exact ⟨hid, hask.mono hgrow⟩
  · rcases List.mem_append.mp hr with hr | hr
    · exact (h.flight r (mem_rest hf hr) hb).mono hgrow
    · exact hout r hr hb

/-- An account other than the four kinds. -/
theorem Governing.elsewhere (h : Governing D treasury c) (hf : c.flight = pre ++ m :: post)
    (hS : m.dst ≠ D.S) (hG : m.dst ≠ D.G) (hT : m.dst ≠ D.T)
    (hP : ∀ i, m.dst ≠ D.addr (.proposal i))
    (hr : World.receive D g c.now m c.st = .ok (w', out)) :
    Governing D treasury ⟨w', pre ++ post ++ out, c.now⟩ := by
  have hframe := World.receive_framed hr
  have hT' := hframe.timelock hT
  refine h.next hf (.of_eq (hframe.governor hG) (hframe.proposals hP)) ?_ ?_ ?_ ?_ ?_
    fun r hr' _ => ?_
  · rw [hframe.sm hS]
    exact h.master
  · rw [hframe.governor hG]
    exact h.governor
  · rw [hframe.proposals hP]
    exact h.deployed
  · rw [hT']
    exact h.queuer
  · rw [hT']
    exact h.entries
  · rw [(hframe.out r hr').1]
    exact says_of_foreign r.body hS hG hP

/-- A request or a report under way was not built as something else. -/
theorem Governing.opened (h : Governing D treasury c) (hm : m ∈ c.flight) (hb : m.bounced = false)
    (hsrc : m.src = D.S ∨ m.src = D.G ∨ ∃ i, m.src = D.addr (.proposal i)) :
    D.opened m.body = m.body := by
  refine opened_of_not_raw fun cell hcell => ?_
  have htells := h.flight m hm hb
  rw [hcell] at htells
  obtain ⟨hS, hG, hP⟩ := htells
  rcases hsrc with hs | hs | ⟨i, hs⟩
  · exact hS hs
  · exact hG hs
  · exact hP i hs

/-- The staking master. -/
theorem Governing.atMaster (h : Governing D treasury c) (hf : c.flight = pre ++ m :: post)
    (hd : m.dst = D.S) (hr : World.receive D g c.now m c.st = .ok (w', out)) :
    Governing D treasury ⟨w', pre ++ post ++ out, c.now⟩ := by
  have hframe := World.receive_framed hr
  have hG := hframe.governor (by simp [hd])
  have hT := hframe.timelock (by simp [hd])
  have hP := hframe.proposals (by simp [hd])
  have hmem : m ∈ c.flight := by simp [hf]
  have hself : w'.sm.governorAddr = D.G ∧ w'.sm.bootstrapOwner ≠ D.G := by
    rcases receive_did hr with ⟨-, hs⟩ | ⟨-, -, out', -, hdid⟩
    · rw [hs]
      exact h.master
    · obtain ⟨h1, h2⟩ := StakingMaster.did_governor hdid
        (by rw [h.master.1]; exact h.master.2.symm)
      rw [h1, h2]
      exact h.master
  refine h.next hf (.of_eq hG hP) hself (hG ▸ h.governor) (hP ▸ h.deployed) (hT ▸ h.queuer)
    (hT ▸ h.entries) fun r hr' _ => ?_
  rcases World.receive_sm hr hd with ⟨-, -, rfl⟩ | ⟨hb, out', hs, rfl⟩
  · cases hr'
  · obtain ⟨r, hrm, rfl⟩ := List.mem_map.mp hr'
    simp only [stamp_src, stamp_body, hd]
    rcases StakingMaster.did_governance (StakingMaster.receive_cases hs) with
      hno | ⟨msg, vp, eff, -, -, -, -, -, -, rfl⟩ | ⟨msg, totalVp, proposerVp, hbody, hsrc, -, -, rfl⟩
    · have hno := hno r hrm
      cases hrb : r.body with
      | raw | totalVpSnapshotReply =>
          rw [hrb] at hno
          cases hno
      | proposalStateReportToGovernor => exact fun i hi => absurd hi (by simp)
      | requestTotalVpSnapshot | timelockQueue => exact fun hi => absurd hi (by simp)
      | _ => trivial
    · obtain rfl := List.mem_singleton.mp hrm
      trivial
    · obtain rfl := List.mem_singleton.mp hrm
      intro _
      -- the reply repeats a request of the governor
      have hsrc' : m.src = D.G := hsrc.trans h.master.1
      have htells := h.flight m hmem hb
      rw [h.opened hmem hb (.inr (.inl hsrc'))] at hbody
      rw [hbody] at htells
      exact htells hsrc'

/-- What the timelock has in store after an execution stems from what it had, or
from a queue message of the governor. -/
theorem Governing.acted (h : Governing D treasury c) (hm : m ∈ c.flight) (hb : m.bounced = false)
    {s' : Timelock} {out' : List Msg}
    (hact : Acted (Ctx.of g c.now m) c.st.timelock (D.opened m.body) s' out') :
    s'.governor = D.G ∧ ∀ id a, s'.pendingActions.lookup id = some a → a.proposalId = id
      ∧ Asked D treasury c.st id a.proposalContract a.target a.method a.args := by
  have herase : ∀ {n id : Nat} {a : PendingAction},
      (c.st.timelock.pendingActions.erase n).lookup id = some a → a.proposalId = id
        ∧ Asked D treasury c.st id a.proposalContract a.target a.method a.args := by
    intro n id a ha
    rw [Table.lookup_erase_of] at ha
    split at ha
    · cases ha
    · exact h.entries id a ha
  generalize hbody : D.opened m.body = b at hact
  cases hact with
  | @queue msg hsrc _ _ =>
      have hsrc' : m.src = D.G := hsrc.trans h.queuer
      have htells := h.flight m hm hb
      rw [h.opened hm hb (.inr (.inl hsrc'))] at hbody
      rw [hbody] at htells
      refine ⟨h.queuer, fun id a ha => ?_⟩
      simp only [Table.lookup_insert_of] at ha
      split at ha
      · rename_i hid
        obtain rfl := Option.some.inj ha
        subst hid
        exact ⟨rfl, htells hsrc'⟩
      · exact h.entries id a ha
  | @dispatch _ n a' _ ha' _ _ _ _ =>
      refine ⟨h.queuer, fun id a ha => ?_⟩
      simp only [Table.lookup_insert_of] at ha
      split at ha
      · rename_i hid
        obtain rfl := Option.some.inj ha
        subst hid
        exact h.entries id a' ha'
      · exact h.entries id a ha
  | relay => exact ⟨h.queuer, fun id a ha => herase ha⟩
  | cancel => exact ⟨h.queuer, fun id a ha => herase ha⟩
  | idle => exact ⟨h.queuer, h.entries⟩

/-- The timelock. -/
theorem Governing.atTimelock (h : Governing D treasury c) (hf : c.flight = pre ++ m :: post)
    (hd : m.dst = D.T) (hr : World.receive D g c.now m c.st = .ok (w', out)) :
    Governing D treasury ⟨w', pre ++ post ++ out, c.now⟩ := by
  have hframe := World.receive_framed hr
  have hS := hframe.sm (by simp [hd])
  have hG := hframe.governor (by simp [hd])
  have hP := hframe.proposals (by simp [hd])
  have hmem : m ∈ c.flight := by simp [hf]
  have hself : w'.timelock.governor = D.G ∧ ∀ id a,
      w'.timelock.pendingActions.lookup id = some a → a.proposalId = id
        ∧ Asked D treasury c.st id a.proposalContract a.target a.method a.args := by
    rcases World.run_eq_ok (World.receive_timelock hr hd) with ⟨-, hs, -⟩ | ⟨hb, out', hs, -⟩
    · rw [bounced_eq, Except.ok.injEq] at hs
      rw [← hs]
      split
      · refine ⟨rearm_fixed.1.trans h.queuer, fun id a ha => ?_⟩
        obtain ⟨a', ha', rfl | rfl⟩ := rearm_from ha
        · exact h.entries id a ha'
        · exact h.entries id a' ha'
      · exact ⟨h.queuer, h.entries⟩
    · exact h.acted hmem hb (receive_acted hs)
  refine h.next hf (.of_eq hG hP) (hS ▸ h.master) (hG ▸ h.governor) (hP ▸ h.deployed) hself.1
    hself.2 fun r hr' _ => ?_
  rw [(hframe.out r hr').1, hd]
  exact says_of_foreign r.body (by simp) (by simp) (by simp)

/-- A proposal. -/
theorem Governing.atProposal (h : Governing D treasury c) (hf : c.flight = pre ++ m :: post)
    {i : ProposalInit} (hd : m.dst = D.addr (.proposal i))
    (hr : World.receive D g c.now m c.st = .ok (w', out)) :
    Governing D treasury ⟨w', pre ++ post ++ out, c.now⟩ := by
  have hframe := World.receive_framed hr
  have hS := hframe.sm (by simp [hd])
  have hG := hframe.governor (by simp [hd])
  have hT := hframe.timelock (by simp [hd])
  obtain ⟨p, p', hat, hrun, hP⟩ := World.receive_proposal hr hd
  have hself : w'.proposals.lookup (D.addr (.proposal i)) = some p' := by
    rw [hP, hd, AList.lookup_insert]
  have hother : ∀ j, j ≠ i → w'.proposals.lookup (D.addr (.proposal j))
      = c.st.proposals.lookup (D.addr (.proposal j)) := by
    intro j hj
    refine World.receive_lookup_other hr fun he => hj ?_
    simpa using he.symm.trans hd
  -- the contract is there already, or this message deploys it
  have hp : p.toProposalInit = i
      ∧ ∀ p₀, c.st.proposals.lookup (D.addr (.proposal i)) = some p₀ → p₀ = p := by
    unfold World.proposalAt at hat
    rw [hd] at hat
    split at hat
    · rename_i p₀ hp₀
      obtain rfl := Except.ok.inj hat
      exact ⟨h.deployed i _ hp₀, fun p₁ h₁ => (Option.some.inj (hp₀.symm.trans h₁)).symm⟩
    · rename_i hnone
      split at hat
      · obtain rfl := Except.ok.inj hat
        refine ⟨rfl, fun p₁ h₁ => ?_⟩
        rw [hnone] at h₁
        cases h₁
      · cases hat
  have hstep : p'.toProposalInit = p.toProposalInit ∧ (p.Passed → p'.Passed) := by
    rcases World.run_eq_ok hrun with ⟨-, hs, -⟩ | ⟨-, out', hs, -⟩
    · obtain rfl := Except.ok.inj hs
      exact ⟨rfl, id⟩
    · exact Proposal.decided_passed (Proposal.receive_cases hs)
  have hgrow : Grows D c.st w' := by
    refine ⟨fun a ha => by rw [hG]; exact ha, ?_⟩
    rintro j ⟨p₀, hp₀, hpass⟩
    by_cases hj : j = i
    · subst hj
      obtain rfl := hp.2 p₀ hp₀
      exact ⟨p', hself, hstep.2 hpass⟩
    · exact ⟨p₀, (hother j hj).trans hp₀, hpass⟩
  refine h.next hf hgrow (hS ▸ h.master) (hG ▸ h.governor) ?_ (hT ▸ h.queuer) (hT ▸ h.entries)
    fun r hr' _ => ?_
  · intro j p₀ hp₀
    by_cases hj : j = i
    · subst hj
      obtain rfl := Option.some.inj (hself.symm.trans hp₀)
      rw [hstep.1, hp.1]
    · exact h.deployed j p₀ ((hother j hj).symm.trans hp₀)
  · rcases World.run_eq_ok hrun with ⟨-, -, rfl⟩ | ⟨-, out', hs, rfl⟩
    · cases hr'
    · obtain ⟨r, hrm, rfl⟩ := List.mem_map.mp hr'
      simp only [stamp_src, stamp_body, hd]
      exact says_of_decided (Proposal.receive_cases hs) hp.1
        (fun hpass => ⟨p', hself, hpass⟩) r hrm

/-- What the governor knows after an execution. -/
theorem Governing.governed (h : Governing D treasury c) (hm : m ∈ c.flight)
    (hb : m.bounced = false) {s' : Governor} {out' : List Msg}
    (hgov : Governor.Governed (fun i => D.addr (.proposal i)) (Ctx.of g c.now m) c.st.governor
      (D.opened m.body) s' out') :
    GovernorKept D treasury s' := by
  generalize hbody : D.opened m.body = b at hgov
  cases hgov with
  | @deploy msg i hsrc hi =>
      have hsrc' : m.src = D.S := hsrc.trans h.governor.master
      have htells := h.flight m hm hb
      rw [h.opened hm hb (.inl hsrc')] at hbody
      rw [hbody] at htells
      have hchecked : Checked treasury i.proposalType i.payload i.id i.thresholdBps := by
        rw [hi]
        exact htells hsrc'
      refine ⟨h.governor.master, h.governor.timelock, h.governor.sink, fun a ha => ?_,
        fun n a ha => ?_⟩
      · simp only [Governor.isKnownProposal, Table.lookup_insert_of] at ha
        split at ha
        · rename_i heq
          exact ⟨i, heq, hchecked⟩
        · exact h.governor.known a ha
      · simp only [Table.lookup_insert_of] at ha
        simp only [Governor.isKnownProposal, Table.lookup_insert_of]
        split at ha
        · rename_i hn
          obtain rfl := Option.some.inj ha
          refine ⟨by rw [if_pos rfl]; rfl, i, rfl, ?_⟩
          rw [hi, hn]
          rfl
        · obtain ⟨hk, hi'⟩ := h.governor.listed n a ha
          refine ⟨?_, hi'⟩
          split
          · rfl
          · exact hk
  | create | decline | vote | execute | report | queue | config | idle =>
      exact ⟨h.governor.master, h.governor.timelock, h.governor.sink, h.governor.known,
        h.governor.listed⟩

theorem governed_known {proposalAddr : ProposalInit → Address} {ctx : Ctx} {s s' : Governor}
    {b : Body} {out' : List Msg} (h : Governor.Governed proposalAddr ctx s b s' out') (a : Address)
    (ha : s.isKnownProposal a = true) : s'.isKnownProposal a = true := by
  cases h with
  | deploy =>
      simp only [Governor.isKnownProposal, Table.lookup_insert_of]
      split
      · rfl
      · exact ha
  | create | decline | vote | execute | report | queue | config | idle => exact ha

/-- A success report comes from the contract the governor deployed for its id, and
asks for what the payload says. -/
theorem Governing.requested (h : Governing D treasury c) (hm : m ∈ c.flight)
    (hb : m.bounced = false) {msg : ProposalStateReportToGovernor}
    (hlook : c.st.governor.proposals.lookup msg.proposalId = some m.src)
    (hbody : D.opened m.body = .proposalStateReportToGovernor msg) (hnew : msg.newState = 1)
    (hact : msg.queueActive = true) :
    ∃ i, m.src = D.addr (.proposal i) ∧ i.id = msg.proposalId
      ∧ c.st.governor.isKnownProposal m.src = true ∧ Passed D c.st i
      ∧ Requested treasury i ⟨msg.queueTarget, msg.queueMethod, msg.queueArgs, true⟩ := by
  obtain ⟨hk, i, hi, hid⟩ := h.governor.listed _ _ hlook
  obtain ⟨i', hi', hchecked⟩ := h.governor.known _ hk
  obtain rfl : i = i' := by simpa using hi.symm.trans hi'
  have htells := h.flight m hm hb
  rw [h.opened hm hb (.inr (.inr ⟨i, hi⟩))] at hbody
  rw [hbody] at htells
  obtain ⟨-, hq⟩ := htells i hi
  obtain ⟨hpass, hreq⟩ := hq hnew hact
  obtain ⟨q, hq', hrequested⟩ := queueRequest_ok (p := Proposal.init i) hchecked.shape hchecked.id
  obtain rfl := Except.ok.inj (hreq.symm.trans hq')
  exact ⟨i, hi, hid, hk, hpass, hrequested rfl⟩

/-- What the governor sends. -/
theorem Governing.governed_says (h : Governing D treasury c) (hm : m ∈ c.flight)
    (hb : m.bounced = false) (hgrow : Grows D c.st w') {out' : List Msg}
    (hgov : Governor.Governed (fun i => D.addr (.proposal i)) (Ctx.of g c.now m) c.st.governor
      (D.opened m.body) w'.governor out') :
    ∀ r ∈ out', Says D treasury w' D.G r.body := by
  intro r hr
  generalize hbody : D.opened m.body = b at hgov
  generalize hs' : w'.governor = s' at hgov
  cases hgov with
  | @create msg req cfg hshape _ hid hty hpay hbps =>
      obtain rfl := List.mem_singleton.mp hr
      rw [← hty, ← hpay, h.governor.sink] at hshape
      exact fun _ => ⟨hshape, hid, hbps⟩
  | decline | report => cases hr
  | deploy | vote =>
      obtain rfl := List.mem_singleton.mp hr
      trivial
  | execute =>
      simp only [List.mem_cons, List.not_mem_nil, or_false] at hr
      rcases hr with rfl | rfl <;> trivial
  | @queue msg hlook hnew hact =>
      obtain rfl := List.mem_singleton.mp hr
      intro _
      obtain ⟨i, hi, hid, hk, hpass, hrequested⟩ := h.requested hm hb hlook hbody hnew hact
      exact ⟨i, hi, hid, hgrow.known _ hk, hgrow.passed i hpass, hrequested⟩
  | config =>
      obtain rfl := List.mem_singleton.mp hr
      trivial
  | idle hcash =>
      rw [hcash r hr]
      trivial

/-- The governor. -/
theorem Governing.atGovernor (h : Governing D treasury c) (hf : c.flight = pre ++ m :: post)
    (hd : m.dst = D.G) (hr : World.receive D g c.now m c.st = .ok (w', out)) :
    Governing D treasury ⟨w', pre ++ post ++ out, c.now⟩ := by
  have hframe := World.receive_framed hr
  have hS := hframe.sm (by simp [hd])
  have hT := hframe.timelock (by simp [hd])
  have hP := hframe.proposals (by simp [hd])
  have hmem : m ∈ c.flight := by simp [hf]
  have hpassed : ∀ i, Passed D c.st i → Passed D w' i := by
    intro i hi
    rw [Passed, hP]
    exact hi
  rcases World.run_eq_ok (World.receive_governor hr hd) with ⟨-, hs, rfl⟩ | ⟨hb, out', hs, rfl⟩
  · have hG : GovernorKept D treasury w'.governor
        ∧ w'.governor.isKnownProposal = c.st.governor.isKnownProposal := by
      rw [← Except.ok.inj hs]
      unfold Governor.bounced
      split
      · exact ⟨⟨h.governor.master, h.governor.timelock, h.governor.sink, h.governor.known,
          h.governor.listed⟩, rfl⟩
      · exact ⟨h.governor, rfl⟩
    exact h.next hf ⟨fun a ha => by rw [hG.2]; exact ha, hpassed⟩ (hS ▸ h.master) hG.1
      (hP ▸ h.deployed) (hT ▸ h.queuer) (hT ▸ h.entries) fun r hr' => absurd hr' List.not_mem_nil
  · have hgov := Governor.receive_cases hs
    have hgrow : Grows D c.st w' := ⟨governed_known hgov, hpassed⟩
    refine h.next hf hgrow (hS ▸ h.master) (h.governed hmem hb hgov) (hP ▸ h.deployed)
      (hT ▸ h.queuer) (hT ▸ h.entries) fun r hr' _ => ?_
    obtain ⟨r, hrm, rfl⟩ := List.mem_map.mp hr'
    simp only [stamp_src, stamp_body, hd]
    exact h.governed_says hmem hb hgrow hgov r hrm

end Steps

/-! ## Whole runs -/

theorem governing_preserved {treasury : Address}
    (hS : (network D modelled ordered).owns D.S = true)
    (hG : (network D modelled ordered).owns D.G = true)
    (hP : ∀ i, (network D modelled ordered).owns (D.addr (.proposal i)) = true) :
    (network D modelled ordered).Preserves (fun _ _ => True) (Governing D treasury) := by
  -- returned messages are not originals
  have hback : ∀ {c : WorldConf} {m : Msg} {pre post : List Msg}, Governing D treasury c →
      c.flight = pre ++ m :: post →
      Governing D treasury ⟨c.st, pre ++ post ++ bounceOf m, c.now⟩ := by
    intro c m pre post h hf
    refine h.next hf (.of_eq rfl rfl) h.master h.governor h.deployed h.queuer h.entries
      fun r hr hb => ?_
    rw [(mem_bounceOf hr).2.2.2.2.1] at hb
    cases hb
  refine ⟨?send, ?ok, ?error, ?outside, ?returned, ?wait⟩
  case send =>
    intro c m h _ hsrc _
    refine ⟨h.master, h.governor, h.deployed, h.queuer, h.entries, fun r hr hb => ?_⟩
    rcases List.mem_append.mp hr with hr | hr
    · exact h.flight r hr hb
    · obtain rfl := List.mem_singleton.mp hr
      exact says_of_foreign _ (owns_of_modelled hS hsrc) (owns_of_modelled hG hsrc)
        fun i => owns_of_modelled (hP i) hsrc
  case ok =>
    intro c i g accept m pre post w' out h _ _ hf _ _ hr
    by_cases hdS : m.dst = D.S
    · exact h.atMaster hf hdS hr
    by_cases hdG : m.dst = D.G
    · exact h.atGovernor hf hdG hr
    by_cases hdT : m.dst = D.T
    · exact h.atTimelock hf hdT hr
    by_cases hdP : ∃ i, m.dst = D.addr (.proposal i)
    · obtain ⟨i, hi⟩ := hdP
      exact h.atProposal hf hi hr
    · exact h.elsewhere hf hdS hdG hdT (fun i hi => hdP ⟨i, hi⟩) hr
  case error => exact fun c i g accept m pre post err h _ _ hf _ _ _ => hback h hf
  case outside =>
    intro c m pre post h hf _
    exact ⟨h.master, h.governor, h.deployed, h.queuer, h.entries,
      fun r hr hb => h.flight r (mem_rest hf hr) hb⟩
  case returned => exact fun c m pre post h hf _ _ => hback h hf
  case wait =>
    exact fun c d h _ => ⟨h.master, h.governor, h.deployed, h.queuer, h.entries, h.flight⟩

/-- Nothing proposed yet, and the four contracts point at each other. -/
structure GovernanceStart (D : Deployment) (c : WorldConf) : Prop where
  governor : c.st.sm.governorAddr = D.G
  owner : c.st.sm.bootstrapOwner ≠ D.G
  master : c.st.governor.stakingMaster = D.S
  timelock : c.st.governor.timelock = D.T
  queuer : c.st.timelock.governor = D.G
  proposals : c.st.governor.proposals = ∅ ∧ c.st.governor.knownProposals = ∅
  deployed : c.st.proposals = ∅
  entries : c.st.timelock.pendingActions = ∅
  flight : c.flight = []

theorem GovernanceStart.governing {c : WorldConf} (h : GovernanceStart D c) :
    Governing D c.st.governor.treasury c := by
  refine ⟨⟨h.governor, h.owner⟩, ⟨h.master, h.timelock, rfl, fun a ha => ?_, fun n a ha => ?_⟩,
    fun i p hp => ?_, h.queuer, fun id a ha => ?_, fun m hm => ?_⟩
  · rw [Governor.isKnownProposal, h.proposals.2] at ha
    cases ha
  · rw [h.proposals.1] at ha
    cases ha
  · rw [h.deployed] at hp
    cases hp
  · rw [h.entries] at ha
    cases ha
  · rw [h.flight] at hm
    cases hm

/-- The route from a payload to its execution. -/
structure VotedIsExecuted (D : Deployment) (c : WorldConf) : Prop where
  decodes : ∀ p : Proposal, p.id < 2 ^ 64 →
    validateProposalPayloadShape p.proposalType p.payload c.st.governor.treasury = .ok () →
    ∃ q, p.queueRequest = .ok q
  finalizes : ∀ i p ctx, c.st.governor.isKnownProposal (D.addr (.proposal i)) = true →
    c.st.proposals.lookup (D.addr (.proposal i)) = some p → p.endTime < ctx.now →
    p.state = .active → p.passes = true →
    ∃ p' out, p.receive ctx .proposalFinalize = .ok (p', out) ∧ p'.state = .succeeded
  executes : ∀ g m w' out queryId id, m.dst = D.T → m.bounced = false →
    D.opened m.body = .timelockExecutePending queryId id →
    World.receive D g c.now m c.st = .ok (w', out) →
    ∃ i mark r rest, out = mark :: r :: rest
      ∧ c.st.governor.isKnownProposal (D.addr (.proposal i)) = true ∧ i.id = id ∧ Passed D c.st i
      ∧ mark.dst = D.addr (.proposal i) ∧ mark.body = .proposalMarkExecuted queryId
      ∧ Voted c.st.governor.treasury i r ∧ ∀ r' ∈ rest, r'.body = .empty
  features : ∀ i, i.proposalType = 1 →
    (∀ m ∈ c.flight, m.bounced = false → m.src = D.G → ∀ q, m.body = .timelockQueue q →
      q.proposalContract ≠ D.addr (.proposal i))
    ∧ ∀ id a, c.st.timelock.pendingActions.lookup id = some a →
      a.proposalContract ≠ D.addr (.proposal i)

theorem Asked.not_feature {treasury : Address} {w : World} {id method : Nat}
    {contract target : Address} {args : Cell} {i : ProposalInit}
    (h : Asked D treasury w id contract target method args) (hi : i.proposalType = 1) :
    contract ≠ D.addr (.proposal i) := by
  rintro rfl
  obtain ⟨j, hj, -, -, -, hreq⟩ := h
  obtain rfl : i = j := by simpa using hj
  rcases hreq with ⟨h0 | h3, -⟩ | ⟨h2, -⟩ <;> omega

/-- **What was voted is what is executed**, in every run of the network. -/
theorem voted_is_executed {c₀ c : WorldConf}
    (hS : (network D modelled ordered).owns D.S = true)
    (hG : (network D modelled ordered).owns D.G = true)
    (hP : ∀ i, (network D modelled ordered).owns (D.addr (.proposal i)) = true)
    (h₀ : GovernanceStart D c₀) (h : (network D modelled ordered).Reach c₀ c) :
    VotedIsExecuted D c := by
  have hI := h.invariant (governing_preserved hS hG hP) h₀.governing
  generalize c₀.st.governor.treasury = treasury at hI
  obtain rfl := hI.governor.sink
  refine ⟨fun p hid hshape => ?_, fun i p ctx hk hp ht hs hpass => ?_,
    fun g m w' out queryId id hd hb hbody hr => ?_, fun i hi => ⟨fun m hm hb hsrc q hq => ?_,
      fun id a ha => (hI.entries id a ha).2.not_feature hi⟩⟩
  · obtain ⟨q, hq, -⟩ := queueRequest_ok hshape hid
    exact ⟨q, hq⟩
  · obtain ⟨j, hj, hchecked⟩ := hI.governor.known _ hk
    obtain rfl : i = j := by simpa using hj
    rw [← hI.deployed i p hp] at hchecked
    exact finalize_ok hchecked.shape hchecked.id hchecked.bps ht hs hpass
  · rcases World.run_eq_ok (World.receive_timelock hr hd) with ⟨hb', -, -⟩ | ⟨-, out', hs, rfl⟩
    · rw [hb] at hb'
      cases hb'
    · rw [hbody] at hs
      generalize w'.timelock = s' at hs
      cases receive_acted hs with
      | @dispatch _ _ a cell ha _ _ hv hcell =>
          obtain ⟨hid, i, hi, hii, hk, hpass, hreq⟩ := hI.entries id a ha
          rw [hi] at hk
          exact ⟨i, _, _, _, rfl, hk, hii, hpass, hi, rfl,
            voted_of_dispatch hreq rfl rfl rfl (hid.trans hii.symm) hv hcell rfl rfl,
            fun r' hr' => absurd hr' List.not_mem_nil⟩
      | @relay _ _ a ha _ _ hv =>
          obtain ⟨hid, i, hi, hii, hk, hpass, hreq⟩ := hI.entries id a ha
          rw [hi] at hk
          refine ⟨i, _, _, _, rfl, hk, hii, hpass, hi, rfl,
            voted_of_relay hreq rfl rfl rfl hv rfl rfl, fun r' hr' => ?_⟩
          obtain rfl := List.mem_singleton.mp hr'
          rfl
  · have htells := hI.flight m hm hb
    rw [hq] at htells
    exact (htells hsrc).not_feature hi

/-- Staking master, governor, proposals and timelock are modelled. -/
def governanceContracts : Part → Bool
  | .stakingMaster | .governor | .proposal _ | .timelock => true
  | _ => false

/-- The payload of a spend of 300 nano for account 6. -/
def grantPayload : Cell :=
  (((Slice.empty.storeAddress D₀.R).storeAddress (account 6)).storeBits (Slice.coinBits 300)
    |>.storeRef (.mk [true] [])).endCell

/-- The proposal the governor deploys for it at time 1000. -/
def grantInit : ProposalInit :=
  { id := 0, governor := D₀.G, voteRelayer := D₀.S, proposer := account 3, proposalType := 2
    payload := grantPayload, startTime := 4600, endTime := 609400
    totalVpSnapshot := 300000000000, quorumRequired := 60000000000, thresholdBps := 6600
    timelockDelaySec := 172800, timelockAddr := D₀.T }

/-- Account 3 stakes, proposes the grant and votes for it; the proposal is
finalized and queued, and account 9 asks for its execution. -/
def grantVoted : List (Action Address Body Gas) :=
  [.send (stakeNotice 3 100000000000 (account 3) (milliTon 5000)),
   .deliver 0 (freeGas 0) true,
   .send (external (account 3) D₀.G (milliTon 1000)
     (.createProposal { queryId := 0, proposalType := 2, payload := grantPayload, claimedVp := 1 })),
   .deliver 4 (freeGas (milliTon 900)) true,
   .deliver 4 (freeGas (milliTon 800)) true,
   .deliver 4 (freeGas 0) true,
   .deliver 4 (freeGas 0) true,
   .wait 3600,
   .send (external (account 3) D₀.G (milliTon 1000)
     (.castVote { queryId := 0, proposalId := 0, support := true, claimedVp := 1000000000000 })),
   .deliver 4 (freeGas 500) true,
   .deliver 4 (freeGas 500) true,
   .deliver 4 (freeGas 500) true,
   .wait 700000,
   .send (external (account 9) (D₀.addr (.proposal grantInit)) (milliTon 1000) .proposalFinalize),
   .deliver 5 (freeGas 0) true,
   .deliver 5 (freeGas 0) true,
   .deliver 6 (freeGas 0) true,
   .wait 172800,
   .send (external (account 9) D₀.T (milliTon 3000) (.timelockExecutePending 0 0))]

/-- The execution is accepted and dispatches the grant. -/
theorem voted_is_executed_grant :
    ∃ c m w' out, (network D₀ governanceContracts fun _ _ => false).exec (bootstrapAt 1000) grantVoted
        = some c
      ∧ c.flight[6]? = some m
      ∧ World.receive D₀ (freeGas (milliTon 2900)) c.now m c.st = .ok (w', out)
      ∧ out.map (·.dst) = [D₀.addr (.proposal grantInit), D₀.R] ∧ VotedIsExecuted D₀ c := by
  have hrun : ((network D₀ governanceContracts fun _ _ => false).exec (bootstrapAt 1000)
      grantVoted).bind (fun c => (c.flight[6]?).bind fun m =>
        match World.receive D₀ (freeGas (milliTon 2900)) c.now m c.st with
        | .ok (_, out) => some (out.map (·.dst))
        | .error _ => none) = some [D₀.addr (.proposal grantInit), D₀.R] := by
    decide +kernel
  obtain ⟨c, hc, hrun⟩ := Option.bind_eq_some_iff.mp hrun
  obtain ⟨m, hm, hrun⟩ := Option.bind_eq_some_iff.mp hrun
  split at hrun
  · rename_i w' out hr
    have hstart : GovernanceStart D₀ (bootstrapAt 1000) :=
      ⟨rfl, by decide +kernel, rfl, rfl, rfl, ⟨rfl, rfl⟩, rfl, rfl, rfl⟩
    have howns : ∀ i, (network D₀ governanceContracts fun _ _ => false).owns
        (D₀.addr (.proposal i)) = true := by
      intro i
      simp [network, Deployment.owns, governanceContracts]
    exact ⟨c, m, w', out, hc, hm, hr, Option.some.inj hrun,
      voted_is_executed (by decide +kernel) (by decide +kernel) howns hstart
        (Machine.run_of_exec hc)⟩
  · cases hrun

end BurnedChats

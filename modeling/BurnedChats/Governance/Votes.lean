import BurnedChats.Governance.Execution
import BurnedChats.Staking.Power

/-!
# Votes and voting power

A vote is counted in the proposal with the power the master found when it
relayed it. What backs the count is the stake that was locked beyond the end of
the vote at that moment: as long as it stays locked until the end, the votes of a
proposal never exceed the total voting power.

It stays locked unless a later stake is merged into the position. A merge writes
a new unlock time computed from the current duration of the tier; when that
duration was shortened before the proposal was created, the merge releases the
position before the vote is over (`votes_exceed_power`).
-/

namespace BurnedChats

open Network

variable {D : Deployment} {modelled : Part → Bool} {ordered : Address → Address → Bool}
  {i : ProposalInit}

/-! ## Conditions on a run -/

/-- The proposal has been created and its vote is not over. -/
def VoteOpen (D : Deployment) (i : ProposalInit) (w : World) (now : Nat) : Prop :=
  w.governor.isKnownProposal (D.addr (.proposal i)) = true ∧ now ≤ i.endTime

instance (D : Deployment) (i : ProposalInit) (w : World) (now : Nat) :
    Decidable (VoteOpen D i w now) :=
  inferInstanceAs (Decidable (_ ∧ _))

/-- The delivery does not change duration or multiplier of a tier. -/
def keepsTerms (D : Deployment) (w : World) (now : Nat) (g : Gas) (m : Msg) : Bool :=
  match World.receive D g now m w with
  | .ok (w', _) => decide (w'.sm.terms = w.sm.terms)
  | .error _ => true

/-- From the creation of the proposal to the end of its vote, durations and
multipliers stay. -/
def TermsFixed (D : Deployment) (i : ProposalInit) (w : World) (now : Nat) (g : Gas) (m : Msg) :
    Prop :=
  VoteOpen D i w now → keepsTerms D w now g m = true

/-- From the creation of the proposal to the end of its vote, no stake that will
unlock before the end is merged into a position that is locked beyond it. -/
def LocksKept (D : Deployment) (i : ProposalInit) (w : World) (now : Nat) (g : Gas) (m : Msg) :
    Prop :=
  VoteOpen D i w now → m.dst = D.S → m.bounced = false →
    StakingMaster.keepsLocks i.endTime (Ctx.of g now m) w.sm (D.opened m.body) = true

instance (D : Deployment) (i : ProposalInit) (w : World) (now : Nat) (g : Gas) (m : Msg) :
    Decidable (TermsFixed D i w now g m) :=
  inferInstanceAs (Decidable (_ → _))

instance (D : Deployment) (i : ProposalInit) (w : World) (now : Nat) (g : Gas) (m : Msg) :
    Decidable (LocksKept D i w now g m) :=
  inferInstanceAs (Decidable (_ → _ → _ → _))

/-! ## The invariant -/

/-- The votes of `p` are backed by what the voters have locked beyond the end. -/
def Backed (s : StakingMaster) (p : Proposal) : Prop :=
  ∃ f : Address → Nat, (∀ v n, p.voted.lookup v = some n → f v ≤ s.lockedPower p.endTime v)
    ∧ p.forVotes + p.againstVotes = (Table.sum (fun v _ => f v) p.voted : Nat)

/-- What an original message says about the votes of `i`. -/
def Carries (D : Deployment) (i : ProposalInit) (w : World) (now : Nat) (src dst : Address) :
    Body → Prop
  | .governorVoteRelay r => src = D.G → r.proposal = D.addr (.proposal i) →
      w.governor.isKnownProposal (D.addr (.proposal i)) = true ∧ r.voteEndTime = i.endTime
  | .proposalVoteRelay r => src = D.S → dst = D.addr (.proposal i) →
      w.governor.isKnownProposal (D.addr (.proposal i)) = true
        ∧ (now ≤ i.endTime → r.vp ≤ w.sm.lockedPower i.endTime r.voter)
  | _ => True

structure Counting (D : Deployment) (i : ProposalInit) (c : WorldConf) : Prop where
  tallied : c.st.sm.Tallied
  tagged : c.st.sm.Tagged
  configured : c.st.sm.Configured
  ends : ∀ n, c.st.governor.proposals.lookup n = some (D.addr (.proposal i)) →
    c.st.governor.proposalEndTimeById.lookup n = some i.endTime
  relayer : c.st.governor.isKnownProposal (D.addr (.proposal i)) = true → i.voteRelayer = D.S
  unknown : ∀ p, c.st.proposals.lookup (D.addr (.proposal i)) = some p → i.voteRelayer = D.S →
    c.st.governor.isKnownProposal (D.addr (.proposal i)) = false →
    p.voted = ∅ ∧ p.forVotes + p.againstVotes = 0
  backed : ∀ p, c.st.proposals.lookup (D.addr (.proposal i)) = some p → i.voteRelayer = D.S →
    c.now ≤ i.endTime → Backed c.st.sm p
  flight : ∀ m ∈ c.flight, m.bounced = false → Carries D i c.st c.now m.src m.dst m.body

theorem backed_of_empty {s : StakingMaster} {p : Proposal} (hv : p.voted = ∅)
    (h0 : p.forVotes + p.againstVotes = 0) : Backed s p := by
  refine ⟨fun _ => 0, fun v n _ => Nat.zero_le _, ?_⟩
  rw [h0, hv]
  rfl

/-- Backed votes are at most the total voting power. -/
theorem Backed.le_totalPower {s : StakingMaster} {p : Proposal} (h : Backed s p)
    (ht : s.Tallied) : p.forVotes + p.againstVotes ≤ s.totalPower := by
  obtain ⟨f, hf, hsum⟩ := h
  have hkeys := StakingMaster.sum_lockedPower_le (E := p.endTime) ht p.voted.nodupKeys
  have hle : Table.sum (fun v _ => f v) p.voted ≤ (p.voted.keys.map (s.lockedPower p.endTime)).sum := by
    have hmap : (p.voted.keys.map (s.lockedPower p.endTime)).sum
        = Table.sum (fun v (_ : Nat) => s.lockedPower p.endTime v) p.voted := by
      unfold Table.sum AList.keys List.keys
      rw [List.map_map]
      rfl
    rw [hmap]
    exact Table.sum_le_sum fun v n hv => hf v n hv
  rw [hsum]
  exact_mod_cast hle.trans hkeys

theorem Backed.mono {s s' : StakingMaster} {p : Proposal} (h : Backed s p)
    (hp : ∀ v, s.lockedPower p.endTime v ≤ s'.lockedPower p.endTime v) : Backed s' p := by
  obtain ⟨f, hf, hsum⟩ := h
  exact ⟨f, fun v n hv => (hf v n hv).trans (hp v), hsum⟩

/-- One more voter. -/
theorem Backed.counted {s : StakingMaster} {p : Proposal} (h : Backed s p) {voter : Address}
    {support : Bool} {vp : Int} (hnew : p.voted.lookup voter = none) (hpos : 0 < vp)
    (hvp : vp ≤ s.lockedPower p.endTime voter) : Backed s (p.counted voter support vp) := by
  obtain ⟨f, hf, hsum⟩ := h
  refine ⟨Function.update f voter vp.toNat, fun v n hv => ?_, ?_⟩
  · simp only [Proposal.counted, Table.lookup_insert_of] at hv
    by_cases hvv : v = voter
    · subst hvv
      rw [Function.update_self]
      show vp.toNat ≤ s.lockedPower p.endTime v
      omega
    · rw [if_neg hvv] at hv
      rw [Function.update_of_ne hvv]
      exact hf v n hv
  · have hrest : Table.sum (fun v _ => Function.update f voter vp.toNat v) p.voted
        = Table.sum (fun v _ => f v) p.voted := by
      refine Table.sum_congr fun v n hv => Function.update_of_ne ?_ _ _
      rintro rfl
      rw [hnew] at hv
      cases hv
    have hvotes : (p.counted voter support vp).forVotes + (p.counted voter support vp).againstVotes
        = p.forVotes + p.againstVotes + vp := by
      cases support <;> simp only [Proposal.counted] <;> simp <;> omega
    rw [hvotes, hsum]
    simp only [Proposal.counted]
    rw [Table.sum_insert_new hnew, hrest, Function.update_self]
    omega

/-! ## The steps -/

/-- What a step at time `now` leaves to the votes of `i`. -/
structure Holds (D : Deployment) (i : ProposalInit) (now : Nat) (w w' : World) : Prop where
  known : w.governor.isKnownProposal (D.addr (.proposal i)) = true →
    w'.governor.isKnownProposal (D.addr (.proposal i)) = true
  power : VoteOpen D i w now → ∀ v,
    w.sm.lockedPower i.endTime v ≤ w'.sm.lockedPower i.endTime v

theorem Holds.of_eq {now : Nat} {w w' : World} (hs : w'.sm = w.sm)
    (hg : w'.governor = w.governor) : Holds D i now w w' := by
  refine ⟨fun hk => ?_, fun _ v => ?_⟩
  · rw [hg]
    exact hk
  · rw [hs]

theorem Carries.mono {now : Nat} {w w' : World} {src dst : Address} {b : Body}
    (hh : Holds D i now w w') (h : Carries D i w now src dst b) : Carries D i w' now src dst b := by
  cases b with
  | governorVoteRelay r => exact fun hs hr => ⟨hh.known (h hs hr).1, (h hs hr).2⟩
  | proposalVoteRelay r =>
      intro hs hd
      obtain ⟨hk, hvp⟩ := h hs hd
      refine ⟨hh.known hk, fun hnow => (hvp hnow).trans ?_⟩
      exact_mod_cast hh.power ⟨hk, hnow⟩ r.voter
  | _ => trivial

theorem Carries.later {now now' : Nat} {w : World} {src dst : Address} {b : Body}
    (h : Carries D i w now src dst b) (hn : now ≤ now') : Carries D i w now' src dst b := by
  cases b with
  | proposalVoteRelay r => exact fun hs hd => ⟨(h hs hd).1, fun hnow => (h hs hd).2 (hn.trans hnow)⟩
  | _ => exact h

theorem carries_of_foreign {now : Nat} {w : World} {src dst : Address} (b : Body)
    (hS : src ≠ D.S) (hG : src ≠ D.G) : Carries D i w now src dst b := by
  cases b with
  | governorVoteRelay r => exact fun h => absurd h hG
  | proposalVoteRelay r => exact fun h => absurd h hS
  | _ => trivial

section Steps

variable {treasury : Address} {c : WorldConf} {m : Msg} {pre post out : List Msg} {w' : World}
  {g : Gas}

theorem Counting.next (h : Counting D i c) (hf : c.flight = pre ++ m :: post)
    (hh : Holds D i c.now c.st w')
    (hsm : w'.sm.Tallied ∧ w'.sm.Tagged ∧ w'.sm.Configured)
    (hends : ∀ n, w'.governor.proposals.lookup n = some (D.addr (.proposal i)) →
      w'.governor.proposalEndTimeById.lookup n = some i.endTime)
    (hrelayer : w'.governor.isKnownProposal (D.addr (.proposal i)) = true → i.voteRelayer = D.S)
    (hunknown : ∀ p, w'.proposals.lookup (D.addr (.proposal i)) = some p → i.voteRelayer = D.S →
      w'.governor.isKnownProposal (D.addr (.proposal i)) = false →
      p.voted = ∅ ∧ p.forVotes + p.againstVotes = 0)
    (hbacked : ∀ p, w'.proposals.lookup (D.addr (.proposal i)) = some p → i.voteRelayer = D.S →
      c.now ≤ i.endTime → Backed w'.sm p)
    (hout : ∀ r ∈ out, r.bounced = false → Carries D i w' c.now r.src r.dst r.body) :
    Counting D i ⟨w', pre ++ post ++ out, c.now⟩ := by
  refine ⟨hsm.1, hsm.2.1, hsm.2.2, hends, hrelayer, hunknown, hbacked, fun r hr hb => ?_⟩
  rcases List.mem_append.mp hr with hr | hr
  · exact (h.flight r (mem_rest hf hr) hb).mono hh
  · exact hout r hr hb

/-- The proposals stay. -/
theorem Counting.kept (hI : Governing D treasury c) (h : Counting D i c)
    (hf : c.flight = pre ++ m :: post) (hh : Holds D i c.now c.st w')
    (hP : w'.proposals = c.st.proposals)
    (hsm : w'.sm.Tallied ∧ w'.sm.Tagged ∧ w'.sm.Configured)
    (hends : ∀ n, w'.governor.proposals.lookup n = some (D.addr (.proposal i)) →
      w'.governor.proposalEndTimeById.lookup n = some i.endTime)
    (hrelayer : w'.governor.isKnownProposal (D.addr (.proposal i)) = true → i.voteRelayer = D.S)
    (hout : ∀ r ∈ out, r.bounced = false → Carries D i w' c.now r.src r.dst r.body) :
    Counting D i ⟨w', pre ++ post ++ out, c.now⟩ := by
  refine h.next hf hh hsm hends hrelayer (fun p hp hv hk => ?_) (fun p hp hv hnow => ?_) hout
  · rw [hP] at hp
    refine h.unknown p hp hv ?_
    cases hk' : c.st.governor.isKnownProposal (D.addr (.proposal i)) with
    | false => rfl
    | true =>
        rw [hh.known hk'] at hk
        cases hk
  · rw [hP] at hp
    cases hk : c.st.governor.isKnownProposal (D.addr (.proposal i)) with
    | false =>
        obtain ⟨h1, h2⟩ := h.unknown p hp hv hk
        exact backed_of_empty h1 h2
    | true =>
        have hend : p.endTime = i.endTime := by rw [hI.deployed i p hp]
        refine (h.backed p hp hv hnow).mono fun v => ?_
        rw [hend]
        exact hh.power ⟨hk, hnow⟩ v

/-- An account that is neither the master nor the governor nor the proposal. -/
theorem Counting.elsewhere (h : Counting D i c) (hf : c.flight = pre ++ m :: post)
    (hS : m.dst ≠ D.S) (hG : m.dst ≠ D.G)
    (hP : w'.proposals.lookup (D.addr (.proposal i))
      = c.st.proposals.lookup (D.addr (.proposal i)))
    (hr : World.receive D g c.now m c.st = .ok (w', out)) :
    Counting D i ⟨w', pre ++ post ++ out, c.now⟩ := by
  have hframe := World.receive_framed hr
  have hs := hframe.sm hS
  have hg := hframe.governor hG
  refine h.next hf (.of_eq hs hg) ?_ ?_ ?_ ?_ ?_ fun r hr' _ => ?_
  · rw [hs]
    exact ⟨h.tallied, h.tagged, h.configured⟩
  · rw [hg]
    exact h.ends
  · rw [hg]
    exact h.relayer
  · rw [hg, hP]
    exact h.unknown
  · rw [hs, hP]
    exact h.backed
  · rw [(hframe.out r hr').1]
    exact carries_of_foreign r.body hS hG

/-- The staking master. -/
theorem Counting.atMaster (hI : Governing D treasury c) (h : Counting D i c)
    (hf : c.flight = pre ++ m :: post) (hd : m.dst = D.S)
    (hterms : TermsFixed D i c.st c.now g m) (hlocks : LocksKept D i c.st c.now g m)
    (hr : World.receive D g c.now m c.st = .ok (w', out)) :
    Counting D i ⟨w', pre ++ post ++ out, c.now⟩ := by
  have hframe := World.receive_framed hr
  have hG := hframe.governor (by simp [hd])
  have hP := hframe.proposals (by simp [hd])
  have hmem : m ∈ c.flight := by simp [hf]
  have hsame : VoteOpen D i c.st c.now → w'.sm.terms = c.st.sm.terms := by
    intro hopen
    have ht := hterms hopen
    rw [keepsTerms, hr] at ht
    exact of_decide_eq_true ht
  rcases World.receive_sm hr hd with ⟨-, hs, rfl⟩ | ⟨hb, out', hs, rfl⟩
  · exact h.kept hI hf (.of_eq hs hG) hP (hs ▸ ⟨h.tallied, h.tagged, h.configured⟩) (hG ▸ h.ends)
      (hG ▸ h.relayer) fun r hr' => absurd hr' List.not_mem_nil
  · have hdid := StakingMaster.receive_cases hs
    have hh : Holds D i c.now c.st w' := by
      refine ⟨fun hk => by rw [hG]; exact hk, fun hopen v => ?_⟩
      exact StakingMaster.did_lockedPower hdid hopen.2 (hsame hopen) (hlocks hopen hd hb) v
    refine h.kept hI hf hh hP ⟨(StakingMaster.did_orders hdid h.tallied).2.1,
      StakingMaster.did_tagged hdid h.tagged, StakingMaster.did_configured hdid h.configured⟩
      (hG ▸ h.ends) (hG ▸ h.relayer) fun r hr' _ => ?_
    obtain ⟨r, hrm, rfl⟩ := List.mem_map.mp hr'
    simp only [stamp_src, stamp_dst, stamp_body, hd]
    rcases StakingMaster.did_governance hdid with
      hno | ⟨msg, vp, eff, hbody, hsrc, hvp, hle, -, hsm, rfl⟩ | ⟨msg, totalVp, proposerVp, -, -, -, -, rfl⟩
    · have hno := hno r hrm
      cases hrb : r.body with
      | proposalVoteRelay =>
          rw [hrb] at hno
          cases hno
      | governorVoteRelay => exact fun hi => absurd hi (by simp)
      | _ => trivial
    · obtain rfl := List.mem_singleton.mp hrm
      intro _ hdst
      -- the relayed power is what is locked beyond the end of this very vote
      have hsrc' : m.src = D.G := hsrc.trans hI.master.1
      have hcar := h.flight m hmem hb
      rw [hI.opened hmem hb (.inr (.inl hsrc'))] at hbody
      rw [hbody] at hcar
      obtain ⟨hk, hend⟩ := hcar hsrc' hdst
      rw [hend] at hvp
      refine ⟨hh.known hk, fun _ => hle.trans ?_⟩
      rw [StakingMaster.computeOwnerVotingPowerLockedBeyond_eq h.tagged hvp, hsm]
    · obtain rfl := List.mem_singleton.mp hrm
      trivial

/-- What the governor keeps of the end of the vote and of who relays votes. -/
theorem Counting.governed (hI : Governing D treasury c) (h : Counting D i c) {s' : Governor}
    {ctx : Ctx} {b : Body} {out' : List Msg}
    (hgov : Governor.Governed (fun i => D.addr (.proposal i)) ctx c.st.governor b s' out') :
    (∀ n, s'.proposals.lookup n = some (D.addr (.proposal i)) →
      s'.proposalEndTimeById.lookup n = some i.endTime)
    ∧ (s'.isKnownProposal (D.addr (.proposal i)) = true → i.voteRelayer = D.S) := by
  cases hgov with
  | @deploy msg j _ hj =>
      refine ⟨fun n hn => ?_, fun hk => ?_⟩
      · simp only [Table.lookup_insert_of] at hn ⊢
        split
        · rename_i heq
          rw [if_pos heq] at hn
          obtain rfl : j = i := by simpa using Option.some.inj hn
          rfl
        · rename_i hne
          rw [if_neg hne] at hn
          exact h.ends n hn
      · simp only [Governor.isKnownProposal, Table.lookup_insert_of] at hk
        split at hk
        · rename_i heq
          obtain rfl : i = j := by simpa using heq
          rw [hj]
          exact hI.governor.master
        · exact h.relayer hk
  | create | decline | vote | execute | report | queue | config | idle =>
      exact ⟨h.ends, h.relayer⟩

/-- The governor asks for votes with the end it has stored for the proposal. -/
theorem governed_relay {proposalAddr : ProposalInit → Address} {ctx : Ctx} {s s' : Governor}
    {b : Body} {out' : List Msg} (h : Governor.Governed proposalAddr ctx s b s' out') {r : Msg}
    (hr : r ∈ out') {msg : GovernorVoteRelay} (hb : r.body = .governorVoteRelay msg) :
    ∃ n, s.proposals.lookup n = some msg.proposal
      ∧ s.proposalEndTimeById.lookup n = some msg.voteEndTime := by
  cases h with
  | vote ha he =>
      obtain rfl := List.mem_singleton.mp hr
      obtain rfl := Body.governorVoteRelay.inj hb
      exact ⟨_, ha, he⟩
  | decline | report => cases hr
  | create | deploy | queue | config =>
      obtain rfl := List.mem_singleton.mp hr
      cases hb
  | execute =>
      simp only [List.mem_cons, List.not_mem_nil, or_false] at hr
      rcases hr with rfl | rfl <;> cases hb
  | idle hcash =>
      rw [hcash r hr] at hb
      cases hb

/-- The governor. -/
theorem Counting.atGovernor (hI : Governing D treasury c) (h : Counting D i c)
    (hf : c.flight = pre ++ m :: post) (hd : m.dst = D.G)
    (hr : World.receive D g c.now m c.st = .ok (w', out)) :
    Counting D i ⟨w', pre ++ post ++ out, c.now⟩ := by
  have hframe := World.receive_framed hr
  have hS := hframe.sm (by simp [hd])
  have hP := hframe.proposals (by simp [hd])
  have hpower : VoteOpen D i c.st c.now → ∀ v,
      c.st.sm.lockedPower i.endTime v ≤ w'.sm.lockedPower i.endTime v := by
    intro _ v
    rw [hS]
  rcases World.run_eq_ok (World.receive_governor hr hd) with ⟨-, hs, rfl⟩ | ⟨hb, out', hs, rfl⟩
  · have hG : w'.governor.isKnownProposal = c.st.governor.isKnownProposal
        ∧ w'.governor.proposals = c.st.governor.proposals
        ∧ w'.governor.proposalEndTimeById = c.st.governor.proposalEndTimeById := by
      rw [← Except.ok.inj hs]
      unfold Governor.bounced
      split <;> exact ⟨rfl, rfl, rfl⟩
    refine h.kept hI hf ⟨fun hk => by rw [hG.1]; exact hk, hpower⟩ hP
      (hS ▸ ⟨h.tallied, h.tagged, h.configured⟩) ?_ ?_ fun r hr' => absurd hr' List.not_mem_nil
    · rw [hG.2.1, hG.2.2]
      exact h.ends
    · rw [hG.1]
      exact h.relayer
  · have hgov := Governor.receive_cases hs
    have hh : Holds D i c.now c.st w' := ⟨governed_known hgov _, hpower⟩
    obtain ⟨hends, hrelayer⟩ := h.governed hI hgov
    refine h.kept hI hf hh hP (hS ▸ ⟨h.tallied, h.tagged, h.configured⟩) hends hrelayer
      fun r hr' _ => ?_
    obtain ⟨r, hrm, rfl⟩ := List.mem_map.mp hr'
    simp only [stamp_src, stamp_dst, stamp_body, hd]
    cases hrb : r.body with
    | governorVoteRelay msg =>
        intro _ hdst
        obtain ⟨n, hn, he⟩ := governed_relay hgov hrm hrb
        rw [hdst] at hn
        have hend := h.ends n hn
        rw [he] at hend
        exact ⟨hh.known (hI.governor.listed n _ hn).1, Option.some.inj hend⟩
    | proposalVoteRelay => exact fun hi => absurd hi (by simp)
    | _ => trivial

/-- What an execution of the proposal makes of its votes. -/
theorem Counting.decided (hI : Governing D treasury c) (h : Counting D i c) (hm : m ∈ c.flight)
    (hb : m.bounced = false) (hd : m.dst = D.addr (.proposal i)) {p p' : Proposal}
    {out' : List Msg} (hp : p.toProposalInit = i) (hv : i.voteRelayer = D.S)
    (hdec : Proposal.Decided (Ctx.of g c.now m) p (D.opened m.body) p' out') :
    (c.st.governor.isKnownProposal (D.addr (.proposal i)) = false →
      p.voted = ∅ ∧ p.forVotes + p.againstVotes = 0 →
      p'.voted = ∅ ∧ p'.forVotes + p'.againstVotes = 0)
    ∧ (c.now ≤ i.endTime → Backed c.st.sm p → Backed c.st.sm p') := by
  generalize hbody : D.opened m.body = b at hdec
  cases hdec with
  | @vote msg hsrc _ _ _ hpos hnew =>
      have hsrc' : m.src = D.S := by
        rw [← hv, ← hp]
        exact hsrc
      have hcar := h.flight m hm hb
      rw [hI.opened hm hb (.inl hsrc')] at hbody
      rw [hbody] at hcar
      obtain ⟨hk, hvp⟩ := hcar hsrc' hd
      refine ⟨fun hno => ?_, fun hnow hback => ?_⟩
      · rw [hk] at hno
        cases hno
      · refine hback.counted hnew hpos ?_
        rw [hp]
        exact hvp hnow
  | defeat | succeed | execute | cancel | idle => exact ⟨fun _ h0 => h0, fun _ hback => hback⟩

/-- The proposal. -/
theorem Counting.atProposal (hI : Governing D treasury c) (h : Counting D i c)
    (hf : c.flight = pre ++ m :: post) (hd : m.dst = D.addr (.proposal i))
    (hr : World.receive D g c.now m c.st = .ok (w', out)) :
    Counting D i ⟨w', pre ++ post ++ out, c.now⟩ := by
  have hframe := World.receive_framed hr
  have hS := hframe.sm (by simp [hd])
  have hG := hframe.governor (by simp [hd])
  have hmem : m ∈ c.flight := by simp [hf]
  obtain ⟨p, p', hat, hrun, hP⟩ := World.receive_proposal hr hd
  have hself : w'.proposals.lookup (D.addr (.proposal i)) = some p' := by
    rw [hP, hd, AList.lookup_insert]
  -- the contract before the message, deployed by it or not
  have hp : p.toProposalInit = i ∧ (i.voteRelayer = D.S →
      (c.st.governor.isKnownProposal (D.addr (.proposal i)) = false →
        p.voted = ∅ ∧ p.forVotes + p.againstVotes = 0)
      ∧ (c.now ≤ i.endTime → Backed c.st.sm p)) := by
    unfold World.proposalAt at hat
    rw [hd] at hat
    split at hat
    · rename_i p₀ hp₀
      obtain rfl := Except.ok.inj hat
      exact ⟨hI.deployed i _ hp₀, fun hv => ⟨h.unknown _ hp₀ hv, h.backed _ hp₀ hv⟩⟩
    · split at hat
      · obtain rfl := Except.ok.inj hat
        exact ⟨rfl, fun _ => ⟨fun _ => ⟨rfl, rfl⟩, fun _ => backed_of_empty rfl rfl⟩⟩
      · cases hat
  have hnext : i.voteRelayer = D.S →
      (c.st.governor.isKnownProposal (D.addr (.proposal i)) = false →
        p'.voted = ∅ ∧ p'.forVotes + p'.againstVotes = 0)
      ∧ (c.now ≤ i.endTime → Backed c.st.sm p') := by
    intro hv
    obtain ⟨hun, hback⟩ := hp.2 hv
    rcases World.run_eq_ok hrun with ⟨-, hs, -⟩ | ⟨hb, out', hs, -⟩
    · obtain rfl := Except.ok.inj hs
      exact ⟨hun, hback⟩
    · obtain ⟨h1, h2⟩ := h.decided hI hmem hb hd hp.1 hv (Proposal.receive_cases hs)
      exact ⟨fun hk => h1 hk (hun hk), fun hnow => h2 hnow (hback hnow)⟩
  refine h.next hf (.of_eq hS hG) (hS ▸ ⟨h.tallied, h.tagged, h.configured⟩) (hG ▸ h.ends)
    (hG ▸ h.relayer) (fun q hq hv hk => ?_) (fun q hq hv hnow => ?_) fun r hr' _ => ?_
  · obtain rfl := Option.some.inj (hself.symm.trans hq)
    rw [hG] at hk
    exact (hnext hv).1 hk
  · obtain rfl := Option.some.inj (hself.symm.trans hq)
    rw [hS]
    exact (hnext hv).2 hnow
  · rw [(hframe.out r hr').1, hd]
    exact carries_of_foreign r.body (by simp) (by simp)

end Steps

/-! ## Whole runs -/

/-- No stakes and no proposals yet. -/
structure VotingStart (D : Deployment) (c : WorldConf) : Prop extends GovernanceStart D c where
  stakes : c.st.sm.stakes = ∅
  totals : c.st.sm.totalStakeByTier = ∅
  configured : c.st.sm.Configured

theorem VotingStart.counting {c : WorldConf} (h : VotingStart D c) : Counting D i c := by
  refine ⟨fun t => ?_, fun t who stake hget => ?_, h.configured, fun n hn => ?_, fun hk => ?_,
    fun p hp => ?_, fun p hp => ?_, fun m hm => ?_⟩
  · rw [StakingMaster.tierTotalStake, StakingMaster.staked, h.totals, h.stakes]
    rfl
  · rw [StakingMaster.stakesMapGet, h.stakes] at hget
    cases hget
  · rw [h.proposals.1] at hn
    cases hn
  · rw [Governor.isKnownProposal, h.proposals.2] at hk
    cases hk
  · rw [h.deployed] at hp
    cases hp
  · rw [h.deployed] at hp
    cases hp
  · rw [h.flight] at hm
    cases hm

/-- Durations and multipliers stay, and locks are kept. -/
def Kept (D : Deployment) (i : ProposalInit) (w : World) (now : Nat) (g : Gas) (m : Msg) : Prop :=
  TermsFixed D i w now g m ∧ LocksKept D i w now g m

instance (D : Deployment) (i : ProposalInit) (w : World) (now : Nat) (g : Gas) (m : Msg) :
    Decidable (Kept D i w now g m) :=
  inferInstanceAs (Decidable (_ ∧ _))

theorem counting_preserved {treasury : Address}
    (hS : (network D modelled ordered).owns D.S = true)
    (hG : (network D modelled ordered).owns D.G = true)
    (hP : ∀ i, (network D modelled ordered).owns (D.addr (.proposal i)) = true) :
    (network D modelled ordered).Preserves (Meets (Kept D i))
      fun c => Governing D treasury c ∧ Counting D i c := by
  have hgov : (network D modelled ordered).Preserves (fun _ _ => True) (Governing D treasury) :=
    governing_preserved hS hG hP
  have hback : ∀ {c : WorldConf} {m : Msg} {pre post : List Msg}, Counting D i c →
      c.flight = pre ++ m :: post → Counting D i ⟨c.st, pre ++ post ++ bounceOf m, c.now⟩ := by
    intro c m pre post h hf
    refine h.next hf (.of_eq rfl rfl) ⟨h.tallied, h.tagged, h.configured⟩ h.ends h.relayer
      h.unknown h.backed fun r hr hb => ?_
    rw [(mem_bounceOf hr).2.2.2.2.1] at hb
    cases hb
  refine ⟨?send, ?ok, ?error, ?outside, ?returned, ?wait⟩
  case send =>
    intro c m h _ hsrc hb
    refine ⟨hgov.send c m h.1 trivial hsrc hb, h.2.tallied, h.2.tagged, h.2.configured, h.2.ends,
      h.2.relayer, h.2.unknown, h.2.backed, fun r hr hb => ?_⟩
    rcases List.mem_append.mp hr with hr | hr
    · exact h.2.flight r hr hb
    · obtain rfl := List.mem_singleton.mp hr
      exact carries_of_foreign _ (owns_of_modelled hS hsrc) (owns_of_modelled hG hsrc)
  case ok =>
    intro c n g accept m pre post w' out h hkept hm hf hbl ho hr
    refine ⟨hgov.ok c n g accept m pre post w' out h.1 trivial hm hf hbl ho hr, ?_⟩
    obtain ⟨hterms, hlocks⟩ := hkept.at hm
    by_cases hdS : m.dst = D.S
    · exact h.2.atMaster h.1 hf hdS hterms hlocks hr
    by_cases hdG : m.dst = D.G
    · exact h.2.atGovernor h.1 hf hdG hr
    by_cases hdP : m.dst = D.addr (.proposal i)
    · exact h.2.atProposal h.1 hf hdP hr
    · exact h.2.elsewhere hf hdS hdG (World.receive_lookup_other hr hdP) hr
  case error =>
    intro c n g accept m pre post err h _ hm hf hbl ho hr
    exact ⟨hgov.error c n g accept m pre post err h.1 trivial hm hf hbl ho hr, hback h.2 hf⟩
  case outside =>
    intro c m pre post h hf hd
    exact ⟨hgov.outside c m pre post h.1 hf hd, h.2.tallied, h.2.tagged, h.2.configured, h.2.ends,
      h.2.relayer, h.2.unknown, h.2.backed, fun r hr hb => h.2.flight r (mem_rest hf hr) hb⟩
  case returned =>
    intro c m pre post h hf hbl hd
    exact ⟨hgov.returned c m pre post h.1 hf hbl hd, hback h.2 hf⟩
  case wait =>
    intro c d h _
    refine ⟨hgov.wait c d h.1 trivial, h.2.tallied, h.2.tagged, h.2.configured, h.2.ends,
      h.2.relayer, h.2.unknown, fun p hp hv hnow => h.2.backed p hp hv (by simp only at hnow; omega),
      fun m hm hb => ?_⟩
    exact (h.2.flight m hm hb).later (Nat.le_add_right _ _)

/-- **No stake is counted twice**: in every run in which durations and multipliers
stay and locks are kept while the vote is open, the votes of the proposal never
exceed the total voting power. -/
theorem votes_bounded {c₀ c : WorldConf}
    (hS : (network D modelled ordered).owns D.S = true)
    (hG : (network D modelled ordered).owns D.G = true)
    (hP : ∀ i, (network D modelled ordered).owns (D.addr (.proposal i)) = true)
    (h₀ : VotingStart D c₀) (h : (network D modelled ordered).Run (Meets (Kept D i)) c₀ c)
    (hopen : VoteOpen D i c.st c.now) {p : Proposal}
    (hp : c.st.proposals.lookup (D.addr (.proposal i)) = some p) :
    ∃ vp, c.st.sm.computeTotalVotingPower = .ok vp ∧ p.forVotes + p.againstVotes ≤ vp := by
  obtain ⟨-, hC⟩ := h.invariant (counting_preserved hS hG hP)
    ⟨h₀.toGovernanceStart.governing, h₀.counting⟩
  refine ⟨c.st.sm.totalPower, StakingMaster.computeTotalVotingPower_eq hC.configured, ?_⟩
  exact (hC.backed p hp (hC.relayer hopen.1) hopen.2).le_totalPower hC.tallied

/-- Staking master, lock, governor and proposals are modelled. -/
def votingContracts : Part → Bool
  | .stakingMaster | .stakingLock | .governor | .proposal _ => true
  | _ => false

/-- A feature priority, proposed by account 3 at time 1000. -/
def featureInit : ProposalInit :=
  { id := 0, governor := D₀.G, voteRelayer := D₀.S, proposer := account 3, proposalType := 1
    payload := .mk [] [.mk [true] [], .mk [] []], startTime := 4600, endTime := 609400
    totalVpSnapshot := 300000000000, quorumRequired := 15000000000, thresholdBps := 5100
    timelockDelaySec := 172800, timelockAddr := D₀.T }

/-- Account 3 stakes 100 for the longest term, the timelock sets that term to
`duration` for new stakes, account 3 proposes and votes, stakes a little more and
tries to unstake everything. -/
def votedAndUnstaked (duration : Nat) : List (Action Address Body Gas) :=
  [.send (stakeNotice 3 100000000000 (account 3) (milliTon 5000)),
   .deliver 0 (freeGas 0) true,
   .send (external D₀.T D₀.L (milliTon 1000)
     (.setLockDuration { queryId := 0, tier := 3, duration })),
   .deliver 4 (freeGas 0) true,
   .deliver 4 (freeGas 0) true,
   .send (external (account 3) D₀.G (milliTon 1000)
     (.createProposal { queryId := 0, proposalType := 1, payload := featureInit.payload
                        claimedVp := 1 })),
   .deliver 5 (freeGas 0) true,
   .deliver 5 (freeGas 0) true,
   .deliver 5 (freeGas 0) true,
   .deliver 5 (freeGas 0) true,
   .wait 3600,
   .send (external (account 3) D₀.G (milliTon 1000)
     (.castVote { queryId := 0, proposalId := 0, support := true, claimedVp := 1000000000000 })),
   .deliver 5 (freeGas 500) true,
   .deliver 5 (freeGas 500) true,
   .deliver 5 (freeGas 500) true,
   .send (stakeNotice 3 10000000 (account 3) (milliTon 5000)),
   .deliver 6 (freeGas 0) true,
   .send (external (account 3) D₀.S (milliTon 5000)
     (.unstakeJetton { queryId := 0, tier := 3, amount := 100010000000 })),
   .deliver 10 (freeGas 0) true]

/-- The total voting power and the votes of the proposal. -/
def powerAndVotes (i : ProposalInit) (w : World) : Option (Nat × Int) :=
  match w.sm.computeTotalVotingPower, w.proposals.lookup (D₀.addr (.proposal i)) with
  | .ok vp, some p => some (vp, p.forVotes + p.againstVotes)
  | _, _ => none

theorem powerAndVotes_eq_some {i : ProposalInit} {w : World} {vp : Nat} {votes : Int}
    (h : powerAndVotes i w = some (vp, votes)) :
    w.sm.computeTotalVotingPower = .ok vp
      ∧ ∃ p, w.proposals.lookup (D₀.addr (.proposal i)) = some p
        ∧ p.forVotes + p.againstVotes = votes := by
  unfold powerAndVotes at h
  split at h
  · rename_i vp' p hvp hp
    obtain ⟨rfl, rfl⟩ := Prod.mk.inj (Option.some.inj h)
    exact ⟨hvp, p, hp, rfl⟩
  · cases h

/-- With a term of ten days the second stake keeps the lock, and the unstake is
refused. -/
theorem votes_bounded_locked :
    ∃ c p, (network D₀ votingContracts fun _ _ => false).execWhile
        (fun c a => decide (Meets (Kept D₀ featureInit) c a)) .silent (bootstrapAt 1000) ()
        (votedAndUnstaked 864000) = some (c, ())
      ∧ VoteOpen D₀ featureInit c.st c.now
      ∧ c.st.proposals.lookup (D₀.addr (.proposal featureInit)) = some p
      ∧ p.forVotes + p.againstVotes = 300000000000
      ∧ ∃ vp, c.st.sm.computeTotalVotingPower = .ok vp ∧ p.forVotes + p.againstVotes ≤ vp := by
  have hrun : ((network D₀ votingContracts fun _ _ => false).execWhile
      (fun c a => decide (Meets (Kept D₀ featureInit) c a)) .silent (bootstrapAt 1000) ()
      (votedAndUnstaked 864000)).map (fun r => (decide (VoteOpen D₀ featureInit r.1.st r.1.now),
        powerAndVotes featureInit r.1.st)) = some (true, some (300030000000, 300000000000)) := by
    decide +kernel
  obtain ⟨⟨c, _⟩, hc, hv⟩ := Option.map_eq_some_iff.mp hrun
  simp only [Prod.mk.injEq] at hv
  obtain ⟨hopen, hpv⟩ := hv
  obtain ⟨-, p, hp, hvotes⟩ := powerAndVotes_eq_some hpv
  have hstart : VotingStart D₀ (bootstrapAt 1000) :=
    ⟨⟨rfl, by decide +kernel, rfl, rfl, rfl, ⟨rfl, rfl⟩, rfl, rfl, rfl⟩, rfl, rfl,
      by unfold StakingMaster.Configured; decide +kernel⟩
  have howns : ∀ i, (network D₀ votingContracts fun _ _ => false).owns
      (D₀.addr (.proposal i)) = true := by
    intro i
    simp [network, Deployment.owns, votingContracts]
  have hlogged := Machine.logged_of_execWhile (G := Meets (Kept D₀ featureInit))
    (fun _ _ h => of_decide_eq_true h) hc
  exact ⟨c, p, hc, of_decide_eq_true hopen, hp, hvotes, votes_bounded (by decide +kernel)
    (by decide +kernel) howns hstart hlogged.run (of_decide_eq_true hopen) hp⟩

/-- With a term of zero the second stake unlocks the first: the votes stand, and no
voting power is left. Durations and multipliers have not changed since the
proposal was created. -/
theorem votes_exceed_power :
    ∃ c p, (network D₀ votingContracts fun _ _ => false).execWhile
        (fun c a => decide (Meets (TermsFixed D₀ featureInit) c a)) .silent (bootstrapAt 1000) ()
        (votedAndUnstaked 0) = some (c, ())
      ∧ VoteOpen D₀ featureInit c.st c.now
      ∧ c.st.proposals.lookup (D₀.addr (.proposal featureInit)) = some p
      ∧ p.forVotes + p.againstVotes = 300000000000
      ∧ c.st.sm.computeTotalVotingPower = .ok 0 := by
  have hrun : ((network D₀ votingContracts fun _ _ => false).execWhile
      (fun c a => decide (Meets (TermsFixed D₀ featureInit) c a)) .silent (bootstrapAt 1000) ()
      (votedAndUnstaked 0)).map (fun r => (decide (VoteOpen D₀ featureInit r.1.st r.1.now),
        powerAndVotes featureInit r.1.st)) = some (true, some (0, 300000000000)) := by
    decide +kernel
  obtain ⟨⟨c, _⟩, hc, hv⟩ := Option.map_eq_some_iff.mp hrun
  simp only [Prod.mk.injEq] at hv
  obtain ⟨hopen, hpv⟩ := hv
  obtain ⟨hvp, p, hp, hvotes⟩ := powerAndVotes_eq_some hpv
  exact ⟨c, p, hc, of_decide_eq_true hopen, hp, hvotes, hvp⟩

end BurnedChats

import BurnedChats.Bootstrap
import BurnedChats.Governance.Steps

/-!
# Reserved proposal ids

The governor hands out an id when it asks the staking master for a snapshot; the
proposal is registered when the snapshot comes back. In between the id travels:
in the request, in the reply, or in the returned request. There is one such
message for an id at any time (`pendingFor`), and none once a proposal has been
registered for it, so no id is registered twice.

An id whose message has arrived has a state, unless the governor threw on the
reply: a throw writes nothing, and the returned reply ends at the master.
-/

namespace BurnedChats

open Network

variable {D : Deployment} {modelled : Part → Bool} {ordered : Address → Address → Bool}

/-! ## Ids under way -/

/-- The message is about the creation of proposal `n`. -/
def concerns (D : Deployment) (n : Nat) (m : Msg) : Bool :=
  match m.body with
  | .requestTotalVpSnapshot r => decide (r.proposalId = n)
      && ((decide (m.src = D.G) && decide (m.dst = D.S) && !m.bounced)
        || (decide (m.src = D.S) && decide (m.dst = D.G) && m.bounced))
  | .totalVpSnapshotReply r => decide (r.proposalId = n) && decide (m.src = D.S)
      && decide (m.dst = D.G) && !m.bounced
  | _ => false

def pendingFor (D : Deployment) (n : Nat) (m : Msg) : Nat := (concerns D n m).toNat

/-- What the snapshots say and where they go. -/
structure Tame (D : Deployment) (m : Msg) : Prop where
  plain : m.bounced = false → (m.src = D.S ∨ m.src = D.G ∨ ∃ i, m.src = D.addr (.proposal i)) →
    ∀ cell, m.body ≠ .raw cell
  request : ∀ r, m.body = .requestTotalVpSnapshot r →
    (m.bounced = false → m.src = D.G → m.dst = D.S ∧ m.bounce = true)
      ∧ (m.bounced = true → m.dst = D.G → m.src = D.S)
  report : ∀ i r, m.bounced = false → m.src = D.addr (.proposal i) →
    m.body = .proposalStateReportToGovernor r → r.newState ≤ 5

section Messages

variable {m : Msg} {n : Nat}

theorem pendingFor_request {r : RequestTotalVpSnapshot} (hb : m.body = .requestTotalVpSnapshot r)
    (hs : m.src = D.G) (hd : m.dst = D.S) (hn : m.bounced = false) :
    pendingFor D n m = if r.proposalId = n then 1 else 0 := by
  unfold pendingFor concerns
  rw [hb]
  by_cases h : r.proposalId = n <;> simp [hs, hd, hn, h]

theorem pendingFor_returned {r : RequestTotalVpSnapshot} (hb : m.body = .requestTotalVpSnapshot r)
    (hs : m.src = D.S) (hd : m.dst = D.G) (hn : m.bounced = true) :
    pendingFor D n m = if r.proposalId = n then 1 else 0 := by
  unfold pendingFor concerns
  rw [hb]
  by_cases h : r.proposalId = n <;> simp [hs, hd, hn, h]

theorem pendingFor_reply {r : TotalVpSnapshotReply} (hb : m.body = .totalVpSnapshotReply r)
    (hs : m.src = D.S) (hd : m.dst = D.G) (hn : m.bounced = false) :
    pendingFor D n m = if r.proposalId = n then 1 else 0 := by
  unfold pendingFor concerns
  rw [hb]
  by_cases h : r.proposalId = n <;> simp [hs, hd, hn, h]

/-- The three kinds of message that are about an id. -/
theorem pendingFor_cases (D : Deployment) (n : Nat) (m : Msg) : pendingFor D n m = 0
    ∨ (∃ r, m.body = .requestTotalVpSnapshot r ∧ m.src = D.G ∧ m.dst = D.S ∧ m.bounced = false)
    ∨ (∃ r, m.body = .requestTotalVpSnapshot r ∧ m.src = D.S ∧ m.dst = D.G ∧ m.bounced = true)
    ∨ (∃ r, m.body = .totalVpSnapshotReply r ∧ m.src = D.S ∧ m.dst = D.G ∧ m.bounced = false) := by
  cases hc : concerns D n m with
  | false => exact .inl (by rw [pendingFor, hc]; rfl)
  | true =>
      right
      unfold concerns at hc
      split at hc
      · rename_i r hb
        simp only [Bool.and_eq_true, Bool.or_eq_true, decide_eq_true_eq, Bool.not_eq_true'] at hc
        rcases hc.2 with ⟨⟨hs, hd⟩, hn⟩ | ⟨⟨hs, hd⟩, hn⟩
        · exact .inl ⟨r, hb, hs, hd, hn⟩
        · exact .inr (.inl ⟨r, hb, hs, hd, hn⟩)
      · rename_i r hb
        simp only [Bool.and_eq_true, decide_eq_true_eq, Bool.not_eq_true'] at hc
        exact .inr (.inr ⟨r, hb, hc.1.1.2, hc.1.2, hc.2⟩)
      · cases hc

theorem pendingFor_of_src (hS : m.src ≠ D.S) (hG : m.src ≠ D.G) : pendingFor D n m = 0 := by
  rcases pendingFor_cases D n m with h | ⟨_, -, h, -⟩ | ⟨_, -, h, -⟩ | ⟨_, -, h, -⟩
  · exact h
  · exact absurd h hG
  · exact absurd h hS
  · exact absurd h hS

theorem pendingFor_of_dst (hS : m.dst ≠ D.S) (hG : m.dst ≠ D.G) : pendingFor D n m = 0 := by
  rcases pendingFor_cases D n m with h | ⟨_, -, -, h, -⟩ | ⟨_, -, -, h, -⟩ | ⟨_, -, -, h, -⟩
  · exact h
  · exact absurd h hS
  · exact absurd h hG
  · exact absurd h hG

theorem tame_of_src (hb : m.bounced = false) (hS : m.src ≠ D.S) (hG : m.src ≠ D.G)
    (hP : ∀ i, m.src ≠ D.addr (.proposal i)) : Tame D m := by
  refine ⟨?_, ?_, ?_⟩
  · rintro - (h | h | ⟨i, h⟩)
    · exact absurd h hS
    · exact absurd h hG
    · exact absurd h (hP i)
  · refine fun r _ => ⟨fun _ h => absurd h hG, fun hb' => ?_⟩
    rw [hb] at hb'
    cases hb'
  · exact fun i r _ h => absurd h (hP i)

theorem pendingFor_bounceOf_le (D : Deployment) (n : Nat) (m : Msg) :
    load (pendingFor D n) (bounceOf m) ≤ pendingFor D n m := by
  unfold bounceOf
  split
  · rename_i hb
    simp only [Bool.and_eq_true, Bool.not_eq_true'] at hb
    rw [load_cons, load_nil, Nat.add_zero]
    rcases pendingFor_cases D n ⟨m.dst, m.src, m.value, false, true, false, m.body⟩ with
      h0 | ⟨_, -, -, -, h⟩ | ⟨r, hr, hs, hd, h⟩ | ⟨_, -, -, -, h⟩
    · rw [h0]
      exact Nat.zero_le _
    · cases h
    · rw [pendingFor_returned hr hs hd h, pendingFor_request (m := m) hr hd hs hb.2]
    · cases h
  · exact Nat.zero_le _

/-- A returned request still is about its id. -/
theorem pendingFor_bounceOf (h : Tame D m) (hd : m.dst ≠ D.G) :
    load (pendingFor D n) (bounceOf m) = pendingFor D n m := by
  have hle := pendingFor_bounceOf_le D n m
  rcases pendingFor_cases D n m with h0 | ⟨r, hr, hs, hd', hb⟩ | ⟨_, -, -, hG, -⟩ | ⟨_, -, -, hG, -⟩
  · omega
  · have hbounce := ((h.request r hr).1 hb hs).2
    rw [bounceOf, hbounce, hb]
    simp only [Bool.not_false, Bool.and_self, if_true, load_cons, load_nil, Nat.add_zero]
    rw [pendingFor_request hr hs hd' hb]
    exact pendingFor_returned hr hd' hs rfl
  · exact absurd hG hd
  · exact absurd hG hd

theorem tame_bounceOf (h : Tame D m) : ∀ r ∈ bounceOf m, Tame D r := by
  intro r hr
  obtain ⟨-, hb, hsrc, hdst, hb', hbody⟩ := mem_bounceOf hr
  refine ⟨fun hn => ?_, fun q hq => ⟨fun hn => ?_, fun _ hd => ?_⟩, fun i q hn => ?_⟩
  · rw [hb'] at hn
    cases hn
  · rw [hb'] at hn
    cases hn
  · rw [hsrc]
    exact ((h.request q (hbody.symm.trans hq)).1 hb (hdst.symm.trans hd)).1
  · rw [hb'] at hn
    cases hn

end Messages

/-! ## What the contracts send -/

section Sent

variable {n : Nat} {ctx : Ctx} {b : Body} {out : List Msg}

/-- The master answers a request of its governor and says nothing else about ids. -/
theorem StakingMaster.sends_reply {s s' : StakingMaster} (h : s.receive ctx b = .ok (s', out)) :
    (∃ (msg : RequestTotalVpSnapshot) (totalVp proposerVp : Int), b = .requestTotalVpSnapshot msg
        ∧ out = [ctx.message ctx.sender ctx.remaining true
          (.totalVpSnapshotReply { msg with totalVp, proposerVp })])
      ∨ ((∀ msg, b ≠ .requestTotalVpSnapshot msg)
        ∧ ∀ r ∈ out, (∀ cell, r.body ≠ .raw cell) ∧ ∀ q, r.body ≠ .totalVpSnapshotReply q) := by
  by_cases hb : ∃ msg, b = .requestTotalVpSnapshot msg
  · obtain ⟨msg, rfl⟩ := hb
    simp only [receive, receiveRequestTotalVpSnapshot, bind_eq_ok, require_eq_ok, exists_const,
      Except.ok.injEq, Prod.mk.injEq] at h
    obtain ⟨hs, totalVp, -, proposerVp, -, -, rfl⟩ := h
    exact .inl ⟨msg, totalVp, proposerVp, rfl, by rw [hs]⟩
  · refine .inr ⟨fun msg hm => hb ⟨msg, hm⟩, fun r hr => ?_⟩
    rcases did_governance (receive_cases h) with hno | ⟨_, _, _, -, -, -, -, -, -, rfl⟩ |
      ⟨msg, _, _, hm, -⟩
    · have hno := hno r hr
      refine ⟨fun cell hc => ?_, fun q hc => ?_⟩
      · rw [hc] at hno
        cases hno
      · rw [hc] at hno
        cases hno
    · obtain rfl := List.mem_singleton.mp hr
      exact ⟨nofun, nofun⟩
    · exact absurd ⟨msg, hm⟩ hb

/-- A proposal reports one of the six states. -/
theorem Proposal.sends_report {p p' : Proposal} (h : p.receive ctx b = .ok (p', out)) :
    ∀ r ∈ out, (∀ cell, r.body ≠ .raw cell)
      ∧ ∀ q, r.body = .proposalStateReportToGovernor q → q.newState ≤ 5 := by
  have hcode : ∀ ns : ProposalState, ns.code ≤ 5 := by
    intro ns
    cases ns <;> decide
  have hreport : ∀ {ns delay q}, (∀ cell, (reportStateEx ctx p ns delay q).body ≠ .raw cell)
      ∧ ∀ r, (reportStateEx ctx p ns delay q).body = .proposalStateReportToGovernor r →
        r.newState ≤ 5 := by
    intro ns delay q
    refine ⟨nofun, fun r hr => ?_⟩
    cases hr
    exact hcode ns
  intro r hr
  cases receive_cases h with
  | vote =>
      obtain rfl := List.mem_singleton.mp hr
      exact ⟨nofun, nofun⟩
  | defeat | succeed | cancel =>
      simp only [List.mem_cons, List.not_mem_nil, or_false] at hr
      rcases hr with rfl | rfl
      · exact hreport
      · exact ⟨nofun, nofun⟩
  | execute =>
      obtain rfl := List.mem_singleton.mp hr
      exact hreport
  | idle hcash =>
      rw [hcash r hr]
      exact ⟨nofun, nofun⟩

end Sent

/-! ## The log -/

/-- The ids handed out, the proposals registered and the states their contracts
reported, latest first. -/
structure ProposalLog where
  handed : List Nat
  registered : List (Nat × Address)
  reported : List (Nat × Address × Nat)

namespace ProposalLog

def empty : ProposalLog := ⟨[], [], []⟩

def requestedId : Body → Option Nat
  | .requestTotalVpSnapshot r => some r.proposalId
  | _ => none

/-- What the governor accepted from `sender`, and what it sent. -/
def note (l : ProposalLog) (sender : Address) (out : List Msg) : Body → ProposalLog
  | .createProposal _ =>
      { l with handed := out.filterMap (fun r => requestedId r.body) ++ l.handed }
  | .totalVpSnapshotReply msg =>
      { l with registered := out.map (fun r => (msg.proposalId, r.dst)) ++ l.registered }
  | .proposalStateReportToGovernor msg =>
      { l with reported := (msg.proposalId, sender, msg.newState) :: l.reported }
  | _ => l

/-- How often a proposal was registered for `n`. -/
def registrations (l : ProposalLog) (n : Nat) : Nat := (l.registered.map Prod.fst).count n

end ProposalLog

def proposalRecorder (D : Deployment) :
    Machine.Recorder Address Body Gas World ProposalLog where
  accepted _ _ m _ r l :=
    if m.dst = D.G ∧ m.bounced = false then l.note m.src r.2 (D.opened m.body) else l

/-! ## The invariant -/

/-- Ids are handed out in order; for each there is at most one message under way or
registration. -/
structure Reserving (D : Deployment) (c : WorldConf) (l : ProposalLog) : Prop where
  master : c.st.governor.stakingMaster = D.S
  tame : ∀ m ∈ c.flight, Tame D m
  handed : l.handed = (List.range c.st.governor.proposalCount).reverse
  fresh : ∀ n, c.st.governor.proposalCount ≤ n → load (pendingFor D n) c.flight = 0
    ∧ c.st.governor.proposals.lookup n = none ∧ l.registrations n = 0
  once : ∀ n, load (pendingFor D n) c.flight + l.registrations n ≤ 1
  listed : ∀ n a, c.st.governor.proposals.lookup n = some a → ∃ i, a = D.addr (.proposal i)
    ∧ i.id = n ∧ c.st.governor.proposalEndTimeById.lookup n = some i.endTime
    ∧ (n, a) ∈ l.registered

/-- The state of `n` is that of the creation or one its contract reported. -/
def Accounted (D : Deployment) (s : Governor) (l : ProposalLog) (n : Nat) : Prop :=
  ∃ st, s.proposalStateById.lookup n = some st ∧ st ≤ 5
    ∧ ((st = ProposalState.active.code ∧ ∃ i, i.id = n
          ∧ s.proposals.lookup n = some (D.addr (.proposal i))
          ∧ s.proposalEndTimeById.lookup n = some i.endTime
          ∧ (n, D.addr (.proposal i)) ∈ l.registered)
      ∨ st = ProposalState.cancelled.code
      ∨ ∃ a, s.proposals.lookup n = some a ∧ (n, a, st) ∈ l.reported)

/-- Every id that was handed out and is not under way has a state. -/
def Settled (D : Deployment) (c : WorldConf) (l : ProposalLog) : Prop :=
  ∀ n < c.st.governor.proposalCount, load (pendingFor D n) c.flight = 0 →
    Accounted D c.st.governor l n

/-! ## The steps -/

section Steps

variable {c : WorldConf} {l : ProposalLog} {m : Msg} {pre post out : List Msg} {w' : World}
  {g : Gas} {now : Nat}

/-- The governor's books on ids stay. -/
structure SameBooks (s s' : Governor) : Prop where
  master : s'.stakingMaster = s.stakingMaster
  count : s'.proposalCount = s.proposalCount
  proposals : s'.proposals = s.proposals
  ends : s'.proposalEndTimeById = s.proposalEndTimeById

/-- A message is delivered and `out` is sent. -/
theorem Reserving.next (h : Reserving D c l) (hf : c.flight = pre ++ m :: post)
    (hgov : SameBooks c.st.governor w'.governor) {l' : ProposalLog} (hhanded : l'.handed = l.handed)
    (hregistered : l'.registered = l.registered) (htame : ∀ r ∈ out, Tame D r)
    (hload : ∀ n, load (pendingFor D n) out ≤ pendingFor D n m) :
    Reserving D ⟨w', pre ++ post ++ out, now⟩ l' := by
  have hle : ∀ n, load (pendingFor D n) (pre ++ post ++ out) ≤ load (pendingFor D n) c.flight := by
    intro n
    have := hload n
    rw [load_append, load_take _ hf]
    omega
  have hcount : l'.registrations = l.registrations := by
    funext n
    rw [ProposalLog.registrations, hregistered]
    rfl
  refine ⟨hgov.master.trans h.master, fun r hr => ?_, ?_, fun n hn => ?_, fun n => ?_, ?_⟩
  · rcases List.mem_append.mp hr with hr | hr
    · exact h.tame r (mem_rest hf hr)
    · exact htame r hr
  · rw [hhanded, hgov.count]
    exact h.handed
  · rw [hgov.count] at hn
    rw [hgov.proposals, hcount]
    have hfresh := h.fresh n hn
    have := hle n
    exact ⟨by simp only; omega, hfresh.2.1, hfresh.2.2⟩
  · rw [hcount]
    have := hle n
    have := h.once n
    simp only
    omega
  · rw [hgov.proposals, hgov.ends, hregistered]
    exact h.listed

theorem Settled.next (h : Settled D c l) (hf : c.flight = pre ++ m :: post)
    (hgov : w'.governor = c.st.governor)
    (hload : ∀ n, load (pendingFor D n) out = pendingFor D n m) :
    Settled D ⟨w', pre ++ post ++ out, now⟩ l := by
  intro n hn h0
  simp only [hgov] at hn ⊢
  refine h n hn ?_
  rw [load_take _ hf, ← hload n]
  simp only [load_append] at h0 ⊢
  omega

/-- The bodies of what comes from the three kinds of contract are read as sent. -/
theorem Reserving.opened (h : Reserving D c l) (hm : m ∈ c.flight) (hb : m.bounced = false)
    (hsrc : m.src = D.S ∨ m.src = D.G ∨ ∃ i, m.src = D.addr (.proposal i)) :
    D.opened m.body = m.body :=
  opened_of_not_raw ((h.tame m hm).plain hb hsrc)

/-- An account other than the three kinds. -/
theorem elsewhere_silent (hS : m.dst ≠ D.S) (hG : m.dst ≠ D.G)
    (hP : ∀ i, m.dst ≠ D.addr (.proposal i)) (hr : World.receive D g now m c.st = .ok (w', out)) :
    w'.governor = c.st.governor ∧ (∀ r ∈ out, Tame D r)
      ∧ ∀ n, load (pendingFor D n) out = pendingFor D n m := by
  have hframe := World.receive_framed hr
  have hsrc : ∀ r ∈ out, r.src ≠ D.S ∧ r.src ≠ D.G := fun r hr' => by
    rw [(hframe.out r hr').1]
    exact ⟨hS, hG⟩
  refine ⟨hframe.governor hG, fun r hr' => ?_, fun n => ?_⟩
  · refine tame_of_src (hframe.out r hr').2 (hsrc r hr').1 (hsrc r hr').2 fun i => ?_
    rw [(hframe.out r hr').1]
    exact hP i
  · rw [pendingFor_of_dst hS hG]
    exact load_eq_zero fun r hr' => pendingFor_of_src (hsrc r hr').1 (hsrc r hr').2

/-- A proposal. -/
theorem proposal_silent {i : ProposalInit} (hd : m.dst = D.addr (.proposal i))
    (hr : World.receive D g now m c.st = .ok (w', out)) :
    w'.governor = c.st.governor ∧ (∀ r ∈ out, Tame D r)
      ∧ ∀ n, load (pendingFor D n) out = pendingFor D n m := by
  have hframe := World.receive_framed hr
  have hS : m.dst ≠ D.S := by simp [hd]
  have hG : m.dst ≠ D.G := by simp [hd]
  refine ⟨hframe.governor hG, fun r hr' => ?_, fun n => ?_⟩
  · obtain ⟨p, p', -, hrun, -⟩ := World.receive_proposal hr hd
    rcases World.run_eq_ok hrun with ⟨-, -, rfl⟩ | ⟨-, out', hs, rfl⟩
    · cases hr'
    · obtain ⟨r, hrm, rfl⟩ := List.mem_map.mp hr'
      obtain ⟨hraw, hreport⟩ := Proposal.sends_report hs r hrm
      refine ⟨fun _ _ => hraw, fun q _ => ⟨fun _ hsrc => absurd hsrc hG, nofun⟩,
        fun _ q _ _ hq => hreport q hq⟩
  · rw [pendingFor_of_dst hS hG]
    refine load_eq_zero fun r hr' => pendingFor_of_src ?_ ?_
    · rw [(hframe.out r hr').1]
      exact hS
    · rw [(hframe.out r hr').1]
      exact hG

/-- The staking master. -/
theorem Reserving.master_answers (h : Reserving D c l) (hm : m ∈ c.flight) (hd : m.dst = D.S)
    (hr : World.receive D g now m c.st = .ok (w', out)) :
    w'.governor = c.st.governor ∧ (∀ r ∈ out, Tame D r)
      ∧ ∀ n, load (pendingFor D n) out = pendingFor D n m := by
  have hframe := World.receive_framed hr
  have hSG : D.S ≠ D.G := by simp
  have hG : m.dst ≠ D.G := hd ▸ hSG
  refine ⟨hframe.governor hG, ?_⟩
  rcases World.receive_sm hr hd with ⟨hb, -, rfl⟩ | ⟨hb, out', hs, rfl⟩
  · refine ⟨fun r hr' => absurd hr' List.not_mem_nil, fun n => ?_⟩
    rcases pendingFor_cases D n m with h0 | ⟨_, -, -, -, hb'⟩ | ⟨_, -, -, hd', -⟩ | ⟨_, -, -, hd', -⟩
    · rw [h0]
      rfl
    · rw [hb] at hb'
      cases hb'
    · exact absurd hd' hG
    · exact absurd hd' hG
  · rcases StakingMaster.sends_reply hs with ⟨msg, totalVp, proposerVp, hbody, rfl⟩ | ⟨hno, hout⟩
    · refine ⟨fun r hr' => ?_, fun n => ?_⟩
      · obtain rfl := List.mem_singleton.mp hr'
        exact ⟨fun _ _ => nofun, fun _ hc => absurd hc nofun, fun _ _ _ _ hc => absurd hc nofun⟩
      · simp only [List.map_cons, List.map_nil, load_cons, load_nil, Nat.add_zero]
        by_cases hsrc : m.src = D.G
        · have hbody' := (h.opened hm hb (.inr (.inl hsrc))).symm.trans hbody
          rw [pendingFor_request hbody' hsrc hd hb]
          exact pendingFor_reply (r := { msg with totalVp, proposerVp }) rfl hd hsrc rfl
        · have hdst : (stamp m.dst ((Ctx.of g now m).message (Ctx.of g now m).sender
              (Ctx.of g now m).remaining true (.totalVpSnapshotReply
                { msg with totalVp, proposerVp }))).dst ≠ D.G := hsrc
          rcases pendingFor_cases D n m with h0 | ⟨_, -, hs', -, -⟩ | ⟨_, -, -, hd', -⟩ |
            ⟨_, -, -, hd', -⟩
          · rw [h0]
            rcases pendingFor_cases D n (stamp m.dst ((Ctx.of g now m).message
              (Ctx.of g now m).sender (Ctx.of g now m).remaining true (.totalVpSnapshotReply
                { msg with totalVp, proposerVp }))) with h1 | ⟨_, hc, -⟩ | ⟨_, hc, -⟩ |
              ⟨_, -, -, hd', -⟩
            · exact h1
            · cases hc
            · cases hc
            · exact absurd hd' hdst
          · exact absurd hs' hsrc
          · exact absurd hd' hG
          · exact absurd hd' hG
    · refine ⟨fun r hr' => ?_, fun n => ?_⟩
      · obtain ⟨r, hrm, rfl⟩ := List.mem_map.mp hr'
        refine ⟨fun _ _ => (hout r hrm).1, fun q _ => ⟨fun _ hsrc => absurd hsrc hG, nofun⟩,
          fun i q _ hsrc => absurd (hd.symm.trans hsrc) (by simp)⟩
      · have hzero : pendingFor D n m = 0 := by
          rcases pendingFor_cases D n m with h0 | ⟨q, hq, hsrc, -, -⟩ | ⟨_, -, -, hd', -⟩ |
            ⟨_, -, -, hd', -⟩
          · exact h0
          · exact absurd ((h.opened hm hb (.inr (.inl hsrc))).trans hq) (hno q)
          · exact absurd hd' hG
          · exact absurd hd' hG
        rw [hzero]
        refine load_eq_zero fun r hr' => ?_
        obtain ⟨r, hrm, rfl⟩ := List.mem_map.mp hr'
        rcases pendingFor_cases D n (stamp m.dst r) with h0 | ⟨_, -, hsrc, -⟩ | ⟨_, -, -, -, hb'⟩ |
          ⟨q, hq, -⟩
        · exact h0
        · exact absurd hsrc hG
        · cases hb'
        · exact absurd hq ((hout r hrm).2 q)

/-- Any account but the governor. -/
theorem Reserving.away (h : Reserving D c l) (hm : m ∈ c.flight) (hd : m.dst ≠ D.G)
    (hr : World.receive D g now m c.st = .ok (w', out)) :
    w'.governor = c.st.governor ∧ (∀ r ∈ out, Tame D r)
      ∧ ∀ n, load (pendingFor D n) out = pendingFor D n m := by
  by_cases hdS : m.dst = D.S
  · exact h.master_answers hm hdS hr
  by_cases hdP : ∃ i, m.dst = D.addr (.proposal i)
  · obtain ⟨i, hi⟩ := hdP
    exact proposal_silent hi hr
  · exact elsewhere_silent hdS hd (fun i hi => hdP ⟨i, hi⟩) hr

/-- What reaches the governor as an original is about an id only if it is the
master's reply. -/
theorem Reserving.at_governor (h : Reserving D c l) (hm : m ∈ c.flight) (hb : m.bounced = false)
    (hd : m.dst = D.G) :
    (∃ r, D.opened m.body = .totalVpSnapshotReply r ∧ m.src = D.S
        ∧ ∀ n, pendingFor D n m = if r.proposalId = n then 1 else 0)
      ∨ ((∀ r, m.src = D.S → D.opened m.body ≠ .totalVpSnapshotReply r)
        ∧ ∀ n, pendingFor D n m = 0) := by
  by_cases hs : ∃ r, m.src = D.S ∧ m.body = .totalVpSnapshotReply r
  · obtain ⟨r, hs, hbody⟩ := hs
    exact .inl ⟨r, (h.opened hm hb (.inl hs)).trans hbody, hs,
      fun n => pendingFor_reply hbody hs hd hb⟩
  · refine .inr ⟨fun r hsrc hr => hs ⟨r, hsrc, (h.opened hm hb (.inl hsrc)).symm.trans hr⟩,
      fun n => ?_⟩
    rcases pendingFor_cases D n m with h0 | ⟨_, -, -, hd', -⟩ | ⟨_, -, -, -, hb'⟩ | ⟨r, hr, hsrc, -⟩
    · exact h0
    · exact absurd (hd.symm.trans hd') (by simp)
    · rw [hb] at hb'
      cases hb'
    · exact absurd ⟨r, hsrc, hr⟩ hs

/-- What the governor sends: requests for the master, and bodies that are about no id. -/
theorem governor_tame {r : Msg} (hraw : ∀ cell, r.body ≠ .raw cell)
    (hreq : ∀ q, r.body = .requestTotalVpSnapshot q → r.dst = D.S ∧ r.bounce = true) :
    Tame D (stamp D.G r) :=
  ⟨fun _ _ => hraw, fun q hq => ⟨fun _ _ => hreq q hq, nofun⟩,
    fun i _ _ hsrc => absurd hsrc (by simp)⟩

theorem governor_pendingFor {n : Nat} {r : Msg} (hreq : ∀ q, r.body ≠ .requestTotalVpSnapshot q) :
    pendingFor D n (stamp D.G r) = 0 := by
  rcases pendingFor_cases D n (stamp D.G r) with h0 | ⟨q, hq, -⟩ | ⟨q, hq, -⟩ | ⟨_, -, hsrc, -⟩
  · exact h0
  · exact absurd hq (hreq q)
  · exact absurd hq (hreq q)
  · exact absurd hsrc (by simp)

/-- The governor hands out an id. -/
theorem Reserving.created (h : Reserving D c l) (hf : c.flight = pre ++ m :: post)
    {ctx : Ctx} {req : RequestTotalVpSnapshot} (hid : req.proposalId = c.st.governor.proposalCount)
    (hgov : w'.governor = { c.st.governor with
      proposalCount := c.st.governor.proposalCount + 1 })
    {msg : CreateProposal}
    (hout : out = [stamp D.G (ctx.message c.st.governor.stakingMaster ctx.remaining true
      (.requestTotalVpSnapshot req))]) :
    Reserving D ⟨w', pre ++ post ++ out, now⟩ (l.note m.src out (.createProposal msg)) := by
  have hload : ∀ n, load (pendingFor D n) out = if req.proposalId = n then 1 else 0 := by
    intro n
    rw [hout, load_cons, load_nil, Nat.add_zero]
    exact pendingFor_request rfl rfl h.master rfl
  have hrest : ∀ n, load (pendingFor D n) (pre ++ post) ≤ load (pendingFor D n) c.flight := by
    intro n
    rw [load_take _ hf]
    omega
  refine ⟨by rw [hgov]; exact h.master, fun r hr => ?_, ?_, fun n hn => ?_, fun n => ?_, ?_⟩
  · rcases List.mem_append.mp hr with hr | hr
    · exact h.tame r (mem_rest hf hr)
    · rw [hout] at hr
      obtain rfl := List.mem_singleton.mp hr
      exact governor_tame nofun fun _ _ => ⟨h.master, rfl⟩
  · simp only [ProposalLog.note, hout, hgov, List.range_succ, List.reverse_append,
      List.reverse_singleton, h.handed]
    rw [← hid]
    rfl
  · rw [hgov] at hn ⊢
    have hlt : c.st.governor.proposalCount < n := hn
    have hfresh := h.fresh n (by omega)
    have := hrest n
    refine ⟨?_, hfresh.2.1, hfresh.2.2⟩
    simp only [load_append, hload, if_neg (show req.proposalId ≠ n by omega)] at this hfresh ⊢
    omega
  · have hreg : (l.note m.src out (.createProposal msg)).registrations n = l.registrations n := rfl
    have := hrest n
    have honce := h.once n
    simp only [load_append, hload, hreg] at this ⊢
    split
    · have hfresh := h.fresh n (by omega)
      omega
    · omega
  · rw [hgov]
    exact h.listed

/-- The governor registers a proposal. -/
theorem Reserving.deployed (h : Reserving D c l) (hf : c.flight = pre ++ m :: post)
    {ctx : Ctx} {msg : TotalVpSnapshotReply} {i : ProposalInit} (hi : i.id = msg.proposalId)
    (hm : ∀ n, pendingFor D n m = if msg.proposalId = n then 1 else 0)
    (hgov : w'.governor = { c.st.governor with
      proposals := c.st.governor.proposals.insert msg.proposalId (D.addr (.proposal i))
      proposalStateById :=
        c.st.governor.proposalStateById.insert msg.proposalId ProposalState.active.code
      proposalEndTimeById := c.st.governor.proposalEndTimeById.insert msg.proposalId i.endTime
      knownProposals := c.st.governor.knownProposals.insert (D.addr (.proposal i)) true })
    (hout : out = [stamp D.G (ctx.deploy (D.addr (.proposal i)) (milliTon 180) false .empty)]) :
    Reserving D ⟨w', pre ++ post ++ out, now⟩ (l.note m.src out (.totalVpSnapshotReply msg)) := by
  have hload : ∀ n, load (pendingFor D n) out = 0 := by
    intro n
    rw [hout, load_cons, load_nil, Nat.add_zero]
    exact governor_pendingFor nofun
  have hreg : ∀ n, (l.note m.src out (.totalVpSnapshotReply msg)).registrations n
      = l.registrations n + if msg.proposalId = n then 1 else 0 := by
    intro n
    simp [ProposalLog.note, ProposalLog.registrations, hout, List.count_cons]
  have htake : ∀ n, load (pendingFor D n) c.flight
      = (if msg.proposalId = n then 1 else 0) + load (pendingFor D n) (pre ++ post) := by
    intro n
    rw [load_take _ hf, hm n]
  refine ⟨by rw [hgov]; exact h.master, fun r hr => ?_, by rw [hgov]; exact h.handed,
    fun n hn => ?_, fun n => ?_, fun n a ha => ?_⟩
  · rcases List.mem_append.mp hr with hr | hr
    · exact h.tame r (mem_rest hf hr)
    · rw [hout] at hr
      obtain rfl := List.mem_singleton.mp hr
      exact governor_tame nofun fun _ hq => absurd hq nofun
  · rw [hgov] at hn ⊢
    obtain ⟨h0, hnone, hreg0⟩ := h.fresh n hn
    rw [htake] at h0
    have hne : msg.proposalId ≠ n := by
      intro he
      rw [if_pos he] at h0
      omega
    rw [if_neg hne] at h0
    refine ⟨?_, ?_, ?_⟩
    · rw [load_append, hload]
      omega
    · simp only [Table.lookup_insert_of, if_neg (Ne.symm hne)]
      exact hnone
    · rw [hreg, if_neg hne, hreg0]
  · have honce := h.once n
    rw [htake] at honce
    rw [load_append, hload, hreg]
    omega
  · rw [hgov] at ha ⊢
    simp only [Table.lookup_insert_of] at ha ⊢
    have hmem : ∀ e ∈ l.registered,
        e ∈ (l.note m.src out (.totalVpSnapshotReply msg)).registered := fun e he =>
      List.mem_append_right _ he
    split at ha
    · rename_i hn
      obtain rfl := Option.some.inj ha
      refine ⟨i, rfl, hi.trans hn.symm, by rw [if_pos hn], ?_⟩
      rw [hout, hn]
      exact List.mem_cons_self ..
    · rename_i hn
      obtain ⟨j, hj, hjn, hend, hin⟩ := h.listed n a ha
      exact ⟨j, hj, hjn, by rw [if_neg hn]; exact hend, hmem _ hin⟩

/-- What the governor does with an original. -/
theorem Reserving.governed (h : Reserving D c l) (hf : c.flight = pre ++ m :: post)
    (hb : m.bounced = false) (hd : m.dst = D.G) {out' : List Msg}
    (hgov : Governor.Governed (fun i => D.addr (.proposal i)) (Ctx.of g now m) c.st.governor
      (D.opened m.body) w'.governor out') :
    Reserving D ⟨w', pre ++ post ++ out'.map (stamp D.G), now⟩
      (l.note m.src (out'.map (stamp D.G)) (D.opened m.body)) := by
  have hm : m ∈ c.flight := by simp [hf]
  have hat := h.at_governor hm hb hd
  generalize hbody : D.opened m.body = b at hgov hat
  generalize hs' : w'.governor = s' at hgov
  -- most executions keep the books and send nothing about ids
  have hkept : SameBooks c.st.governor s' → (∀ q, b ≠ .createProposal q) →
      (∀ r ∈ out', (∀ cell, r.body ≠ .raw cell) ∧ ∀ q, r.body ≠ .requestTotalVpSnapshot q) →
      (∀ q, b = .totalVpSnapshotReply q → out' = []) →
      Reserving D ⟨w', pre ++ post ++ out'.map (stamp D.G), now⟩
        (l.note m.src (out'.map (stamp D.G)) b) := by
    intro hbooks hcreate hout hreply
    refine h.next hf (hs' ▸ hbooks) ?_ ?_ (fun r hr => ?_) fun n => ?_
    · cases b with
      | createProposal q => exact absurd rfl (hcreate q)
      | _ => rfl
    · cases b with
      | totalVpSnapshotReply q => simp [ProposalLog.note, hreply q rfl]
      | _ => rfl
    · obtain ⟨r, hrm, rfl⟩ := List.mem_map.mp hr
      exact governor_tame (hout r hrm).1 fun q hq => absurd hq ((hout r hrm).2 q)
    · rw [load_eq_zero fun r hr => ?_]
      · exact Nat.zero_le _
      · obtain ⟨r, hrm, rfl⟩ := List.mem_map.mp hr
        exact governor_pendingFor (hout r hrm).2
  cases hgov with
  | create _ hid => exact h.created hf hid hs' rfl
  | decline =>
      exact hkept ⟨rfl, rfl, rfl, rfl⟩ nofun (fun r hr => absurd hr List.not_mem_nil) fun _ _ => rfl
  | @deploy msg i hsrc hi =>
      rcases hat with ⟨r, hr, -, hpend⟩ | ⟨hno, -⟩
      · cases hr
        exact h.deployed hf (by rw [hi]; rfl) hpend hs' rfl
      · exact absurd rfl (hno msg (hsrc.trans h.master))
  | vote | queue | config =>
      refine hkept ⟨rfl, rfl, rfl, rfl⟩ nofun (fun r hr => ?_) nofun
      obtain rfl := List.mem_singleton.mp hr
      exact ⟨nofun, nofun⟩
  | execute =>
      refine hkept ⟨rfl, rfl, rfl, rfl⟩ nofun (fun r hr => ?_) nofun
      simp only [List.mem_cons, List.not_mem_nil, or_false] at hr
      rcases hr with rfl | rfl <;> exact ⟨nofun, nofun⟩
  | report =>
      exact hkept ⟨rfl, rfl, rfl, rfl⟩ nofun (fun r hr => absurd hr List.not_mem_nil) nofun
  | idle hcash =>
      refine hkept ⟨rfl, rfl, rfl, rfl⟩ nofun (fun r hr => ?_) nofun
      rw [hcash r hr]
      exact ⟨nofun, nofun⟩

theorem Accounted.mono {s s' : Governor} {l l' : ProposalLog} {n : Nat} (h : Accounted D s l n)
    (hstate : s'.proposalStateById.lookup n = s.proposalStateById.lookup n)
    (hprop : s'.proposals.lookup n = s.proposals.lookup n)
    (hend : s'.proposalEndTimeById.lookup n = s.proposalEndTimeById.lookup n)
    (hreg : ∀ e ∈ l.registered, e ∈ l'.registered) (hrep : ∀ e ∈ l.reported, e ∈ l'.reported) :
    Accounted D s' l' n := by
  obtain ⟨st, hst, hle, hcases⟩ := h
  refine ⟨st, hstate.trans hst, hle, ?_⟩
  rcases hcases with ⟨hact, i, hi, hp, he, hin⟩ | hcan | ⟨a, ha, hin⟩
  · exact .inl ⟨hact, i, hi, hprop.trans hp, hend.trans he, hreg _ hin⟩
  · exact .inr (.inl hcan)
  · exact .inr (.inr ⟨a, hprop.trans ha, hrep _ hin⟩)

theorem accounted_cancelled {s : Governor} {l : ProposalLog} {n : Nat}
    (h : s.proposalStateById.lookup n = some ProposalState.cancelled.code) : Accounted D s l n :=
  ⟨_, h, by decide, .inr (.inl rfl)⟩

theorem ProposalLog.note_registered (l : ProposalLog) (a : Address) (out : List Msg) (b : Body) :
    ∀ e ∈ l.registered, e ∈ (l.note a out b).registered := by
  intro e he
  cases b with
  | totalVpSnapshotReply msg => exact List.mem_append_right _ he
  | _ => exact he

theorem ProposalLog.note_reported (l : ProposalLog) (a : Address) (out : List Msg) (b : Body) :
    ∀ e ∈ l.reported, e ∈ (l.note a out b).reported := by
  intro e he
  cases b with
  | proposalStateReportToGovernor msg => exact List.mem_cons_of_mem _ he
  | _ => exact he

/-- What the governor does with an original gives the id it is about a state. -/
theorem Settled.governed (h : Settled D c l) (hI : Reserving D c l)
    (hf : c.flight = pre ++ m :: post) (hb : m.bounced = false) (hd : m.dst = D.G)
    {out' : List Msg}
    (hgov : Governor.Governed (fun i => D.addr (.proposal i)) (Ctx.of g now m) c.st.governor
      (D.opened m.body) w'.governor out') :
    Settled D ⟨w', pre ++ post ++ out'.map (stamp D.G), now⟩
      (l.note m.src (out'.map (stamp D.G)) (D.opened m.body)) := by
  have hm : m ∈ c.flight := by simp [hf]
  have hat := hI.at_governor hm hb hd
  have hbody' : (∃ i, m.src = D.addr (.proposal i)) → D.opened m.body = m.body := fun hs =>
    hI.opened hm hb (.inr (.inr hs))
  generalize hbody : D.opened m.body = b at hgov hat hbody'
  generalize hs' : w'.governor = s' at hgov
  intro n hn h0
  simp only [hs'] at hn ⊢
  -- ids other than the one the message is about
  have hother : pendingFor D n m = 0 → n < c.st.governor.proposalCount →
      Accounted D c.st.governor l n := by
    intro hzero hlt
    refine h n hlt ?_
    rw [load_take _ hf, hzero, Nat.zero_add]
    rw [load_append] at h0
    omega
  have hmono : Accounted D c.st.governor l n →
      s'.proposalStateById.lookup n = c.st.governor.proposalStateById.lookup n →
      s'.proposals.lookup n = c.st.governor.proposals.lookup n →
      s'.proposalEndTimeById.lookup n = c.st.governor.proposalEndTimeById.lookup n →
      Accounted D s' (l.note m.src (out'.map (stamp D.G)) b) n := fun ha h1 h2 h3 =>
    ha.mono h1 h2 h3 (l.note_registered _ _ b) (l.note_reported _ _ b)
  have hreported : ∀ {msg : ProposalStateReportToGovernor},
      b = .proposalStateReportToGovernor msg →
      c.st.governor.proposals.lookup msg.proposalId = some m.src →
      s'.proposalStateById = c.st.governor.proposalStateById.insert msg.proposalId msg.newState →
      s'.proposals = c.st.governor.proposals →
      s'.proposalEndTimeById = c.st.governor.proposalEndTimeById →
      s'.proposalCount = c.st.governor.proposalCount →
      Accounted D s' (l.note m.src (out'.map (stamp D.G)) b) n := by
    intro msg hmsg hlook h1 h2 h3 h4
    by_cases hn' : n = msg.proposalId
    · obtain ⟨i, hi, -⟩ := hI.listed _ _ hlook
      have hle := (hI.tame m hm).report i msg hb hi ((hbody' ⟨i, hi⟩).symm.trans hmsg)
      refine ⟨msg.newState, ?_, hle, .inr (.inr ⟨m.src, ?_, ?_⟩)⟩
      · rw [h1, Table.lookup_insert_of, if_pos hn']
      · rw [h2, hn']
        exact hlook
      · rw [hmsg, hn']
        exact List.mem_cons_self ..
    · rcases hat with ⟨r, hr, -⟩ | ⟨-, hzero⟩
      · rw [hmsg] at hr
        cases hr
      · refine hmono (hother (hzero n) (h4 ▸ hn)) ?_ (by rw [h2]) (by rw [h3])
        rw [h1, Table.lookup_insert_of, if_neg hn']
  cases hgov with
  | @create msg req cfg _ hid =>
      rcases hat with ⟨r, hr, -⟩ | ⟨-, hzero⟩
      · cases hr
      · refine hmono (hother (hzero n) ?_) rfl rfl rfl
        -- the id just handed out is under way
        have hne : n ≠ c.st.governor.proposalCount := by
          rintro rfl
          simp only [List.map_cons, List.map_nil, load_append, load_cons, load_nil] at h0
          have hreq := pendingFor_request (D := D) (n := c.st.governor.proposalCount)
            (m := stamp D.G ((Ctx.of g now m).message c.st.governor.stakingMaster
              (Ctx.of g now m).remaining true (.requestTotalVpSnapshot req))) rfl rfl hI.master rfl
          rw [hreq, if_pos hid] at h0
          omega
        have hlt : n < c.st.governor.proposalCount + 1 := hn
        omega
  | @decline msg hsrc =>
      rcases hat with ⟨r, hr, -, hpend⟩ | ⟨hno, -⟩
      · cases hr
        by_cases hn' : n = msg.proposalId
        · exact accounted_cancelled (by simp only [Table.lookup_insert_of, if_pos hn'])
        · refine hmono (hother ?_ hn) (by simp only [Table.lookup_insert_of, if_neg hn']) rfl rfl
          rw [hpend, if_neg (Ne.symm hn')]
      · exact absurd rfl (hno msg (hsrc.trans hI.master))
  | @deploy msg i hsrc hi =>
      rcases hat with ⟨r, hr, -, hpend⟩ | ⟨hno, -⟩
      · cases hr
        by_cases hn' : n = msg.proposalId
        · refine ⟨ProposalState.active.code, ?_, by decide, .inl ⟨rfl, i, ?_, ?_, ?_, ?_⟩⟩
          · simp only [Table.lookup_insert_of, if_pos hn']
          · rw [hi, hn']
            rfl
          · simp only [Table.lookup_insert_of, if_pos hn']
          · simp only [Table.lookup_insert_of, if_pos hn']
          · rw [hn']
            exact List.mem_cons_self ..
        · refine hmono (hother ?_ hn) ?_ ?_ ?_
          · rw [hpend, if_neg (Ne.symm hn')]
          · simp only [Table.lookup_insert_of, if_neg hn']
          · simp only [Table.lookup_insert_of, if_neg hn']
          · simp only [Table.lookup_insert_of, if_neg hn']
      · exact absurd rfl (hno msg (hsrc.trans hI.master))
  | @report msg hlook => exact hreported rfl hlook rfl rfl rfl rfl
  | @queue msg hlook => exact hreported rfl hlook rfl rfl rfl rfl
  | vote | execute | config | idle =>
      rcases hat with ⟨r, hr, -⟩ | ⟨-, hzero⟩
      · cases hr
      · exact hmono (hother (hzero n) hn) rfl rfl rfl

/-- A returned request cancels its id. -/
theorem Reserving.returned (h : Reserving D c l) (hf : c.flight = pre ++ m :: post)
    (hgov : w'.governor = c.st.governor.bounced m.body) :
    Reserving D ⟨w', pre ++ post, now⟩ l := by
  have hbooks : SameBooks c.st.governor w'.governor := by
    rw [hgov]
    unfold Governor.bounced
    split <;> exact ⟨rfl, rfl, rfl, rfl⟩
  rw [← List.append_nil (pre ++ post)]
  exact h.next hf hbooks rfl rfl (fun r hr => absurd hr List.not_mem_nil) fun n => Nat.zero_le _

theorem Settled.returned (h : Settled D c l) (hf : c.flight = pre ++ m :: post)
    (hb : m.bounced = true) (hd : m.dst = D.G)
    (hgov : w'.governor = c.st.governor.bounced m.body) : Settled D ⟨w', pre ++ post, now⟩ l := by
  intro n hn h0
  simp only [hgov] at hn ⊢
  by_cases hreq : ∃ r, m.body = .requestTotalVpSnapshot r ∧ r.proposalId = n
  · obtain ⟨r, hr, rfl⟩ := hreq
    refine accounted_cancelled ?_
    simp only [hr, Governor.bounced, AList.lookup_insert]
  · have hzero : pendingFor D n m = 0 := by
      rcases pendingFor_cases D n m with h0 | ⟨_, -, -, -, hb'⟩ | ⟨r, hr, hs, -, -⟩ |
        ⟨_, -, -, -, hb'⟩
      · exact h0
      · rw [hb] at hb'
        cases hb'
      · rw [pendingFor_returned hr hs hd hb, if_neg fun hn' => hreq ⟨r, hr, hn'⟩]
      · rw [hb] at hb'
        cases hb'
    have hcount : (c.st.governor.bounced m.body).proposalCount = c.st.governor.proposalCount := by
      unfold Governor.bounced
      split <;> rfl
    have hbefore : Accounted D c.st.governor l n := by
      refine h n (hcount ▸ hn) ?_
      rw [load_take _ hf, hzero, Nat.zero_add]
      exact h0
    unfold Governor.bounced
    split
    · rename_i r hr
      refine hbefore.mono ?_ rfl rfl (fun _ he => he) fun _ he => he
      simp only [Table.lookup_insert_of, if_neg (show n ≠ r.proposalId from fun hn' => hreq ⟨r, hr, hn'.symm⟩)]
    · exact hbefore

/-- An accepted execution anywhere in the network. -/
theorem Reserving.accepted (h : Reserving D c l) (hf : c.flight = pre ++ m :: post)
    (hr : World.receive D g c.now m c.st = .ok (w', out)) :
    Reserving D ⟨w', pre ++ post ++ out, c.now⟩
      ((proposalRecorder D).accepted g c.now m c.st (w', out) l) := by
  have hm : m ∈ c.flight := by simp [hf]
  by_cases hdG : m.dst = D.G
  · rcases World.run_eq_ok (World.receive_governor hr hdG) with ⟨hb, hs, rfl⟩ | ⟨hb, out', hs, rfl⟩
    · simp only [proposalRecorder, hb, Bool.true_eq_false, and_false, if_false, List.append_nil]
      exact h.returned hf (Except.ok.inj hs).symm
    · simp only [proposalRecorder, hdG, hb, and_self, if_true]
      exact h.governed hf hb hdG (Governor.receive_cases hs)
  · simp only [proposalRecorder, hdG, false_and, if_false]
    obtain ⟨hgov, htame, hload⟩ := h.away hm hdG hr
    exact h.next hf (hgov ▸ ⟨rfl, rfl, rfl, rfl⟩) rfl rfl htame fun n => (hload n).le

theorem Settled.accepted (h : Settled D c l) (hI : Reserving D c l)
    (hf : c.flight = pre ++ m :: post) (hr : World.receive D g c.now m c.st = .ok (w', out)) :
    Settled D ⟨w', pre ++ post ++ out, c.now⟩
      ((proposalRecorder D).accepted g c.now m c.st (w', out) l) := by
  have hm : m ∈ c.flight := by simp [hf]
  by_cases hdG : m.dst = D.G
  · rcases World.run_eq_ok (World.receive_governor hr hdG) with ⟨hb, hs, rfl⟩ | ⟨hb, out', hs, rfl⟩
    · simp only [proposalRecorder, hb, Bool.true_eq_false, and_false, if_false, List.append_nil]
      exact h.returned hf hb hdG (Except.ok.inj hs).symm
    · simp only [proposalRecorder, hdG, hb, and_self, if_true]
      exact h.governed hI hf hb hdG (Governor.receive_cases hs)
  · simp only [proposalRecorder, hdG, false_and, if_false]
    obtain ⟨hgov, -, hload⟩ := hI.away hm hdG hr
    exact h.next hf hgov hload

end Steps

/-! ## Whole runs -/

/-- No proposal has been asked for yet. -/
structure ReservationStart (D : Deployment) (c : WorldConf) : Prop where
  master : c.st.governor.stakingMaster = D.S
  count : c.st.governor.proposalCount = 0
  proposals : c.st.governor.proposals = ∅
  flight : c.flight = []

theorem ReservationStart.reserving {c : WorldConf} (h : ReservationStart D c) :
    Reserving D c .empty := by
  refine ⟨h.master, fun m hm => ?_, by rw [h.count]; rfl, fun n _ => ⟨?_, ?_, rfl⟩, fun n => ?_,
    fun n a ha => ?_⟩
  · rw [h.flight] at hm
    cases hm
  · rw [h.flight]
    rfl
  · rw [h.proposals]
    rfl
  · rw [h.flight]
    exact Nat.zero_le _
  · rw [h.proposals] at ha
    cases ha

theorem ReservationStart.settled {c : WorldConf} (h : ReservationStart D c) :
    Settled D c .empty := by
  intro n hn
  rw [h.count] at hn
  cases hn

section Runs

variable {G : WorldConf → Action Address Body Gas → Prop}

/-- A message that no modelled account takes. -/
theorem Reserving.dropped {c : WorldConf} {l : ProposalLog} {m : Msg} {pre post out : List Msg}
    (h : Reserving D c l) (hf : c.flight = pre ++ m :: post)
    (hout : out = [] ∨ out = bounceOf m) : Reserving D ⟨c.st, pre ++ post ++ out, c.now⟩ l := by
  have hm : m ∈ c.flight := by simp [hf]
  refine h.next hf ⟨rfl, rfl, rfl, rfl⟩ rfl rfl (fun r hr => ?_) fun n => ?_
  · rcases hout with rfl | rfl
    · cases hr
    · exact tame_bounceOf (h.tame m hm) r hr
  · rcases hout with rfl | rfl
    · exact Nat.zero_le _
    · exact pendingFor_bounceOf_le D n m

theorem reserving_tracks (hS : (network D modelled ordered).owns D.S = true)
    (hG : (network D modelled ordered).owns D.G = true)
    (hP : ∀ i, (network D modelled ordered).owns (D.addr (.proposal i)) = true) :
    (network D modelled ordered).Tracks G (proposalRecorder D) (Reserving D) where
  send c l m h _ hsrc hb := by
    have hnS := owns_of_modelled hS hsrc
    have hnG := owns_of_modelled hG hsrc
    have hzero : ∀ n, load (pendingFor D n) (c.flight ++ [m]) = load (pendingFor D n) c.flight := by
      intro n
      simp [pendingFor_of_src hnS hnG]
    refine ⟨h.master, fun r hr => ?_, h.handed, fun n hn => ?_, fun n => ?_, h.listed⟩
    · rcases List.mem_append.mp hr with hr | hr
      · exact h.tame r hr
      · obtain rfl := List.mem_singleton.mp hr
        exact tame_of_src hb hnS hnG fun i => owns_of_modelled (hP i) hsrc
    · simp only [hzero]
      exact h.fresh n hn
    · simp only [hzero]
      exact h.once n
  ok c l i g accept m pre post w' out h _ _ hf _ _ hr := h.accepted hf hr
  error c l i g accept m pre post err h _ _ hf _ _ _ := h.dropped hf (.inr rfl)
  outside c l m pre post h hf _ := by
    have hdrop := h.dropped hf (.inl rfl)
    rwa [List.append_nil] at hdrop
  returned c l m pre post h hf _ _ := h.dropped hf (.inr rfl)
  wait c l d h _ := ⟨h.master, h.tame, h.handed, h.fresh, h.once, h.listed⟩

/-- The governor does not throw on this snapshot: there is voting power, and if the
proposer's suffices, the quorum is positive and the end of the vote fits its field. -/
def answerable (s : Governor) (now : Nat) : Body → Bool
  | .totalVpSnapshotReply msg => decide (0 < msg.totalVp ∧ (msg.proposerVp < s.minProposalVp
      ∨ (0 < Governor.quorumAbsFromSnapshot msg.totalVp msg.quorumPercent
        ∧ now + s.cancelLagSec + msg.period < 2 ^ 64)))
  | _ => true

/-- Every snapshot the master sends the governor is answerable when it arrives. -/
def Answerable (D : Deployment) (w : World) (now : Nat) (_ : Gas) (m : Msg) : Prop :=
  m.src = D.S → m.dst = D.G → m.bounced = false → answerable w.governor now m.body = true

instance (w : World) (now : Nat) (g : Gas) (m : Msg) : Decidable (Answerable D w now g m) :=
  inferInstanceAs (Decidable (_ → _ → _ → _))

theorem Governor.receive_answerable {proposalAddr : ProposalInit → Address} {ctx : Ctx}
    {s : Governor} {msg : TotalVpSnapshotReply} (hs : ctx.sender = s.stakingMaster)
    (h : answerable s ctx.now (.totalVpSnapshotReply msg) = true) :
    ∃ r, s.receive proposalAddr ctx (.totalVpSnapshotReply msg) = .ok r := by
  obtain ⟨hpos, hcases⟩ := of_decide_eq_true h
  simp only [receive, receiveTotalVpSnapshotReply, require_pos hs, require_pos hpos, ok_bind]
  split
  · exact ⟨_, rfl⟩
  · rename_i hvp
    rcases hcases with hlow | ⟨hq, hend⟩
    · exact absurd hlow hvp
    · have hfit : uintField 64 (proposalInit ctx s msg
          (quorumAbsFromSnapshot msg.totalVp msg.quorumPercent)).endTime
          = .ok (ctx.now + s.cancelLagSec + msg.period) := uintField_of_lt hend
      rw [require_pos hq, ok_bind, hfit]
      exact ⟨_, rfl⟩

/-- A throw of the governor on an original message. -/
theorem World.receive_governor_error {g : Gas} {now : Nat} {m : Msg} {w : World} {err : String}
    (h : World.receive D g now m w = .error err) (hd : m.dst = D.G) :
    m.bounced = false ∧ ∀ r, w.governor.receive (fun i => D.addr (.proposal i)) (Ctx.of g now m)
      (D.opened m.body) ≠ .ok r := by
  unfold World.receive at h
  rw [hd, D.partAt_addr] at h
  cases hb : m.bounced with
  | true =>
      simp only [World.run, hb, if_true, ok_bind] at h
      cases h
  | false =>
      refine ⟨rfl, fun r hr => ?_⟩
      simp only [World.run, hb, Bool.false_eq_true, if_false, hr, ok_bind] at h
      cases h

theorem settled_tracks (hS : (network D modelled ordered).owns D.S = true)
    (hG : (network D modelled ordered).owns D.G = true)
    (hP : ∀ i, (network D modelled ordered).owns (D.addr (.proposal i)) = true) :
    (network D modelled ordered).Tracks (Meets (Answerable D)) (proposalRecorder D)
      fun c l => Reserving D c l ∧ Settled D c l where
  send c l m h hg hsrc hb := by
    refine ⟨(reserving_tracks hS hG hP).send c l m h.1 hg hsrc hb, fun n hn h0 => h.2 n hn ?_⟩
    rw [load_append] at h0
    omega
  ok c l i g accept m pre post w' out h _ _ hf _ _ hr := ⟨h.1.accepted hf hr, h.2.accepted h.1 hf hr⟩
  error c l i g accept m pre post err h hg hm hf _ _ hr := by
    have hmem : m ∈ c.flight := by simp [hf]
    refine ⟨h.1.dropped hf (.inr rfl), h.2.next hf rfl fun n => ?_⟩
    by_cases hd : m.dst = D.G
    · obtain ⟨hb, hthrow⟩ := World.receive_governor_error hr hd
      have hle := pendingFor_bounceOf_le D n m
      rcases h.1.at_governor hmem hb hd with ⟨r, hbody, hs, -⟩ | ⟨-, hzero⟩
      · have hgood := hg.at hm hs hd hb
        rw [← h.1.opened hmem hb (.inl hs), hbody] at hgood
        have hsender : (Ctx.of g c.now m).sender = c.st.governor.stakingMaster :=
          hs.trans h.1.master.symm
        obtain ⟨x, hx⟩ := Governor.receive_answerable hsender hgood
        rw [hbody] at hthrow
        exact absurd hx (hthrow x)
      · rw [hzero n] at hle ⊢
        omega
    · exact pendingFor_bounceOf (h.1.tame m hmem) hd
  outside c l m pre post h hf hown := by
    have hzero : ∀ n, pendingFor D n m = 0 := fun n =>
      pendingFor_of_dst (owns_of_modelled hS hown) (owns_of_modelled hG hown)
    rw [← List.append_nil (pre ++ post)]
    exact ⟨h.1.dropped hf (.inl rfl), h.2.next hf rfl fun n => (hzero n).symm ▸ rfl⟩
  returned c l m pre post h hf _ hown := by
    have hmem : m ∈ c.flight := by simp [hf]
    exact ⟨h.1.dropped hf (.inr rfl), h.2.next hf rfl fun n =>
      pendingFor_bounceOf (h.1.tame m hmem) (owns_of_modelled hG hown)⟩
  wait c l d h _ :=
    ⟨⟨h.1.master, h.1.tame, h.1.handed, h.1.fresh, h.1.once, h.1.listed⟩, h.2⟩

/-- Every reserved id is accounted for, in every run in which the snapshots that
reach the governor are answerable. -/
theorem reserved_accounted {c₀ c : WorldConf} {l : ProposalLog}
    (hS : (network D modelled ordered).owns D.S = true)
    (hG : (network D modelled ordered).owns D.G = true)
    (hP : ∀ i, (network D modelled ordered).owns (D.addr (.proposal i)) = true)
    (h₀ : ReservationStart D c₀)
    (h : (network D modelled ordered).Logged (Meets (Answerable D)) (proposalRecorder D)
      c₀ .empty c l) :
    l.handed.Nodup ∧ (∀ n, n ∈ l.handed ↔ n < c.st.governor.proposalCount)
      ∧ (l.registered.map Prod.fst).Nodup
      ∧ ∀ n < c.st.governor.proposalCount, (∀ m ∈ c.flight, concerns D n m = false) →
        Accounted D c.st.governor l n ∧ c.st.governor.get_proposal_state n ≠ 255 := by
  obtain ⟨hI, hsettled⟩ := h.invariant (settled_tracks hS hG hP) ⟨h₀.reserving, h₀.settled⟩
  refine ⟨?_, fun n => ?_, ?_, fun n hn hquiet => ?_⟩
  · rw [hI.handed, List.nodup_reverse]
    exact List.nodup_range
  · rw [hI.handed, List.mem_reverse, List.mem_range]
  · refine List.nodup_iff_count_le_one.mpr fun n => ?_
    have := hI.once n
    unfold ProposalLog.registrations at this
    omega
  · have hzero : load (pendingFor D n) c.flight = 0 := load_eq_zero fun m hm => by
      rw [pendingFor, hquiet m hm]
      rfl
    have hacc := hsettled n hn hzero
    refine ⟨hacc, ?_⟩
    obtain ⟨st, hst, hle, -⟩ := hacc
    rw [Governor.get_proposal_state, if_neg (by omega), hst]
    simp only
    omega

end Runs

/-! ## Two runs -/

/-- Staking master, governor and proposals are modelled. -/
def creationContracts : Part → Bool
  | .stakingMaster | .governor | .proposal _ => true
  | _ => false

/-- The payload of a feature priority. -/
def featurePayload : Cell := .mk [] [.mk [true] [], .mk [] []]

def proposeFeature (who : Address) : Msg :=
  external who D₀.G (milliTon 1000)
    (.createProposal { queryId := 0, proposalType := 1, payload := featurePayload, claimedVp := 1 })

/-- Somebody proposes a feature before anybody has staked; the reply is returned. -/
def proposedWithoutStakes : List (Action Address Body Gas) :=
  [.send (proposeFeature (account 3)), .deliver 0 (freeGas (milliTon 900)) true,
   .deliver 0 (freeGas (milliTon 800)) true, .deliver 0 (freeGas (milliTon 700)) true,
   .deliver 0 (freeGas (milliTon 600)) true]

/-- Account 3 stakes; two features are proposed at the same time, one by an account
without stakes. -/
def proposedTwice : List (Action Address Body Gas) :=
  [.send (stakeNotice 3 100000000000 (account 3) (milliTon 5000)), .deliver 0 (freeGas 0) true,
   .send (proposeFeature (account 3)), .send (proposeFeature (account 4)),
   .deliver 4 (freeGas (milliTon 900)) true, .deliver 4 (freeGas (milliTon 900)) true,
   .deliver 4 (freeGas (milliTon 800)) true, .deliver 4 (freeGas (milliTon 800)) true,
   .deliver 4 (freeGas (milliTon 700)) true, .deliver 4 (freeGas (milliTon 700)) true]

theorem reserved_accounted_twice :
    ∃ c l, (network D₀ creationContracts fun _ _ => false).execWhile
        (fun c a => decide (Meets (Answerable D₀) c a)) (proposalRecorder D₀) (bootstrapAt 0) .empty
        proposedTwice = some (c, l)
      ∧ c.st.governor.proposalCount = 2 ∧ l.handed.Nodup ∧ (l.registered.map Prod.fst).Nodup
      ∧ ∀ n < 2, Accounted D₀ c.st.governor l n ∧ c.st.governor.get_proposal_state n ≠ 255 := by
  have hrun : ((network D₀ creationContracts fun _ _ => false).execWhile
      (fun c a => decide (Meets (Answerable D₀) c a)) (proposalRecorder D₀) (bootstrapAt 0) .empty
      proposedTwice).map (fun r => (r.1.st.governor.proposalCount,
        r.1.flight.all fun m => !concerns D₀ 0 m && !concerns D₀ 1 m)) = some (2, true) := by
    decide +kernel
  obtain ⟨⟨c, l⟩, hc, hrun⟩ := Option.map_eq_some_iff.mp hrun
  simp only [Prod.mk.injEq, List.all_eq_true, Bool.and_eq_true, Bool.not_eq_true'] at hrun
  obtain ⟨hcount, hquiet⟩ := hrun
  have hstart : ReservationStart D₀ (bootstrapAt 0) := ⟨rfl, rfl, rfl, rfl⟩
  have howns : ∀ i, (network D₀ creationContracts fun _ _ => false).owns
      (D₀.addr (.proposal i)) = true := by
    intro i
    simp [network, Deployment.owns, creationContracts]
  obtain ⟨hhanded, -, hregistered, hacc⟩ := reserved_accounted (by decide +kernel)
    (by decide +kernel) howns hstart
    (Machine.logged_of_execWhile (fun _ _ h => of_decide_eq_true h) hc)
  refine ⟨c, l, hc, hcount, hhanded, hregistered, fun n hn => hacc n (hcount ▸ hn) fun m hm => ?_⟩
  obtain rfl | rfl : n = 0 ∨ n = 1 := by omega
  · exact (hquiet m hm).1
  · exact (hquiet m hm).2

/-- A snapshot without voting power leaves its id without a state. -/
theorem reserved_id_lost :
    ∃ c l, (network D₀ creationContracts fun _ _ => false).Logged (fun _ _ => True)
        (proposalRecorder D₀) (bootstrapAt 0) .empty c l
      ∧ ReservationStart D₀ (bootstrapAt 0) ∧ c.flight = [] ∧ 0 < c.st.governor.proposalCount
      ∧ c.st.governor.proposalStateById.lookup 0 = none
      ∧ c.st.governor.get_proposal_state 0 = 255 := by
  have hrun : ((network D₀ creationContracts fun _ _ => false).execLogged (proposalRecorder D₀)
      (bootstrapAt 0) .empty proposedWithoutStakes).map (fun r => (r.1.flight.length,
        r.1.st.governor.proposalCount, r.1.st.governor.proposalStateById.lookup 0,
        r.1.st.governor.get_proposal_state 0)) = some (0, 1, none, 255) := by
    decide +kernel
  obtain ⟨⟨c, l⟩, hc, hrun⟩ := Option.map_eq_some_iff.mp hrun
  simp only [Prod.mk.injEq] at hrun
  obtain ⟨hflight, hcount, hnone, hstate⟩ := hrun
  exact ⟨c, l, Machine.logged_of_exec hc, ⟨rfl, rfl, rfl, rfl⟩, List.length_eq_zero_iff.mp hflight,
    hcount ▸ Nat.one_pos, hnone, hstate⟩

end BurnedChats

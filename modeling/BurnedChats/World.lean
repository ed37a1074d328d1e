import BurnedChats.Governance.Governor
import BurnedChats.Governance.Timelock
import BurnedChats.Jetton.System
import BurnedChats.Lib.Codec
import BurnedChats.Staking.Pool
import BurnedChats.Treasury

/-!
# All contracts together

One network holds every contract of the repository. A *part* is a contract with
its initial data, and a `Deployment` says which address belongs to which part:
addresses are hashes of code and initial data, so every address determines its
part. Which parts are modelled and which are left to the environment is a
parameter of the machine (`network`), so that one development serves claims
about one contract under an arbitrary environment and claims about many.
-/

namespace BurnedChats

inductive Part where
  | jettonMaster
  | jettonWallet (owner master : Address)
  | stakingMaster
  | stakingPool
  | stakingLock
  | governor
  | proposal (i : ProposalInit)
  | timelock
  | treasury
  | vesting

/-- Where the parts live. `decode` is how a contract reads a body that was not
built as one of its messages (the arguments the timelock relays); nothing is
assumed of it. -/
structure Deployment where
  addr : Part → Address
  partAt : Address → Option Part
  partAt_iff : ∀ a p, partAt a = some p ↔ addr p = a
  decode : Cell → Body

namespace Deployment

variable (D : Deployment)

@[simp] theorem partAt_addr (p : Part) : D.partAt (D.addr p) = some p := (D.partAt_iff _ p).mpr rfl

theorem addr_of_partAt {a : Address} {p : Part} (h : D.partAt a = some p) : a = D.addr p :=
  ((D.partAt_iff a p).mp h).symm

@[simp] theorem addr_inj {p q : Part} : D.addr p = D.addr q ↔ p = q := by
  refine ⟨fun h => ?_, fun h => h ▸ rfl⟩
  have hp := D.partAt_addr p
  rw [h, partAt_addr] at hp
  exact (Option.some.inj hp).symm

abbrev J : Address := D.addr .jettonMaster
abbrev S : Address := D.addr .stakingMaster
abbrev P : Address := D.addr .stakingPool
abbrev L : Address := D.addr .stakingLock
abbrev G : Address := D.addr .governor
abbrev T : Address := D.addr .timelock
abbrev R : Address := D.addr .treasury
abbrev V : Address := D.addr .vesting

/-- The jetton wallets of the deployment. -/
def wallets : WalletBook where
  addr o m := D.addr (.jettonWallet o m)
  ownerOf m a :=
    match D.partAt a with
    | some (.jettonWallet o m') => if m' = m then some o else none
    | _ => none
  ownerOf_iff o m a := by
    constructor
    · intro h
      split at h
      · rename_i o' m' hp
        split at h
        · rename_i hm
          obtain rfl := Option.some.inj h
          rw [D.addr_of_partAt hp, hm]
        · cases h
      · cases h
    · rintro rfl
      simp

/-- What a contract sees of a body. High-value bodies are parsed by their targets. -/
def opened : Body → Body
  | .raw c =>
      if opcodeOf c = some TreasurySpend.opcode ∨ opcodeOf c = some VestEmergencyRevoke.opcode then
        .raw c
      else D.decode c
  | b => b

end Deployment

theorem opened_of_not_raw {D : Deployment} {b : Body} (h : ∀ c, b ≠ .raw c) : D.opened b = b := by
  unfold Deployment.opened
  split
  · exact absurd rfl (h _)
  · rfl

structure World where
  jetton : JettonState
  sm : StakingMaster
  pool : StakingPool
  lock : StakingLock
  governor : Governor
  proposals : Table Address Proposal
  timelock : Timelock
  treasury : Treasury
  vesting : Vesting

/-- The platform writes the sender of a message and marks it as an original. -/
def stamp (a : Address) (r : Msg) : Msg := { r with src := a, bounced := false }

@[simp] theorem stamp_src (a : Address) (r : Msg) : (stamp a r).src = a := rfl
@[simp] theorem stamp_dst (a : Address) (r : Msg) : (stamp a r).dst = r.dst := rfl
@[simp] theorem stamp_body (a : Address) (r : Msg) : (stamp a r).body = r.body := rfl
@[simp] theorem stamp_value (a : Address) (r : Msg) : (stamp a r).value = r.value := rfl
@[simp] theorem stamp_bounce (a : Address) (r : Msg) : (stamp a r).bounce = r.bounce := rfl
@[simp] theorem stamp_bounced (a : Address) (r : Msg) : (stamp a r).bounced = false := rfl

namespace World

variable (D : Deployment)

/-- Runs one contract: its receiver on an original message, its bounce handler on
a returned one. -/
def run {σ : Type} (receive : Ctx → σ → Body → Tx (σ × List Msg))
    (bounced : Ctx → σ → Body → Tx σ) (g : Gas) (now : Nat) (m : Msg) (s : σ) :
    Tx (σ × List Msg) :=
  if m.bounced then do
    let s ← bounced (Ctx.of g now m) s m.body
    .ok (s, [])
  else do
    let (s, out) ← receive (Ctx.of g now m) s (D.opened m.body)
    .ok (s, out.map (stamp m.dst))

/-- The bounce handler of a contract that changes nothing on a return. -/
def absorb {σ : Type} (_ : Ctx) (s : σ) (_ : Body) : Tx σ := .ok s

/-- The proposal at an address; a message with initial state attached deploys it. -/
def proposalAt (w : World) (m : Msg) (i : ProposalInit) : Tx Proposal :=
  match w.proposals.lookup m.dst with
  | some p => .ok p
  | none => if m.deploy && !m.bounced then .ok (Proposal.init i) else .error "Account not deployed"

def receive (g : Gas) (now : Nat) (m : Msg) (w : World) : Tx (World × List Msg) :=
  match D.partAt m.dst with
  | none => .error "Account not deployed"
  | some .jettonMaster | some (.jettonWallet _ _) => do
      let body := if m.bounced then m.body else D.opened m.body
      let (s, out) ← JettonState.receive D.wallets D.J g now { m with body := body } w.jetton
      .ok ({ w with jetton := s }, out.map (stamp m.dst))
  | some .stakingMaster => do
      let (s, out) ← run D StakingMaster.receive absorb g now m w.sm
      .ok ({ w with sm := s }, out)
  | some .stakingPool => do
      let (s, out) ← run D (StakingPool.receive D.wallets) (fun _ s b => .ok (s.bounced b)) g now m
        w.pool
      .ok ({ w with pool := s }, out)
  | some .stakingLock => do
      let (s, out) ← run D StakingLock.receive absorb g now m w.lock
      .ok ({ w with lock := s }, out)
  | some .governor => do
      let (s, out) ← run D (Governor.receive fun i => D.addr (.proposal i))
        (fun _ s b => .ok (s.bounced b)) g now m w.governor
      .ok ({ w with governor := s }, out)
  | some (.proposal i) => do
      let p ← w.proposalAt m i
      let (s, out) ← run D Proposal.receive absorb g now m p
      .ok ({ w with proposals := w.proposals.insert m.dst s }, out)
  | some .timelock => do
      let (s, out) ← run D Timelock.receive Timelock.bounced g now m w.timelock
      .ok ({ w with timelock := s }, out)
  | some .treasury => do
      let (s, out) ← run D (Treasury.receive D.wallets) (fun _ s b => s.bounced b) g now m
        w.treasury
      .ok ({ w with treasury := s }, out)
  | some .vesting => do
      let (s, out) ← run D (Vesting.receive D.wallets) (fun _ s b => s.bounced b) g now m w.vesting
      .ok ({ w with vesting := s }, out)

/-! ## What one execution touches -/

variable {D} {g : Gas} {now : Nat} {m : Msg} {w w' : World} {out : List Msg}

theorem run_eq_ok {σ : Type} {rcv : Ctx → σ → Body → Tx (σ × List Msg)}
    {bnc : Ctx → σ → Body → Tx σ} {s s' : σ} (h : run D rcv bnc g now m s = .ok (s', out)) :
    (m.bounced = true ∧ bnc (Ctx.of g now m) s m.body = .ok s' ∧ out = [])
      ∨ (m.bounced = false ∧ ∃ out', rcv (Ctx.of g now m) s (D.opened m.body) = .ok (s', out')
        ∧ out = out'.map (stamp m.dst)) := by
  unfold run at h
  split at h
  · simp only [bind_eq_ok, Except.ok.injEq, Prod.mk.injEq] at h
    obtain ⟨_, h, rfl, rfl⟩ := h
    exact .inl ⟨by assumption, h, rfl⟩
  · rename_i hb
    simp only [bind_eq_ok, Except.ok.injEq, Prod.mk.injEq, Prod.exists] at h
    obtain ⟨_, out', h, rfl, rfl⟩ := h
    exact .inr ⟨Bool.not_eq_true _ ▸ hb, out', h, rfl⟩

/-- Contracts speak in their own name. -/
theorem run_out {σ : Type} {rcv : Ctx → σ → Body → Tx (σ × List Msg)}
    {bnc : Ctx → σ → Body → Tx σ} {s s' : σ} (h : run D rcv bnc g now m s = .ok (s', out)) :
    ∀ r ∈ out, r.src = m.dst ∧ r.bounced = false := by
  intro r hr
  rcases run_eq_ok h with ⟨-, -, rfl⟩ | ⟨-, out', -, rfl⟩
  · cases hr
  · obtain ⟨r', -, rfl⟩ := List.mem_map.mp hr
    exact ⟨rfl, rfl⟩

/-- An execution changes the state of the addressed part only, and sends in its
name only. -/
structure Framed (D : Deployment) (m : Msg) (w w' : World) (out : List Msg) : Prop where
  out : ∀ r ∈ out, r.src = m.dst ∧ r.bounced = false
  sm : m.dst ≠ D.S → w'.sm = w.sm
  pool : m.dst ≠ D.P → w'.pool = w.pool
  lock : m.dst ≠ D.L → w'.lock = w.lock
  governor : m.dst ≠ D.G → w'.governor = w.governor
  proposals : (∀ i, m.dst ≠ D.addr (.proposal i)) → w'.proposals = w.proposals
  timelock : m.dst ≠ D.T → w'.timelock = w.timelock
  treasury : m.dst ≠ D.R → w'.treasury = w.treasury
  vesting : m.dst ≠ D.V → w'.vesting = w.vesting

theorem receive_framed (h : receive D g now m w = .ok (w', out)) : Framed D m w w' out := by
  unfold receive at h
  split at h
  · cases h
  case h_2 | h_3 =>
    simp only [bind_eq_ok, Except.ok.injEq, Prod.mk.injEq, Prod.exists] at h
    obtain ⟨_, out', -, rfl, rfl⟩ := h
    refine ⟨fun r hr => ?_, ?_, ?_, ?_, ?_, ?_, ?_, ?_, ?_⟩
    · obtain ⟨r', -, rfl⟩ := List.mem_map.mp hr
      exact ⟨rfl, rfl⟩
    all_goals exact fun _ => rfl
  case h_8 i hp =>
    simp only [bind_eq_ok, Except.ok.injEq, Prod.mk.injEq, Prod.exists] at h
    obtain ⟨_, -, _, _, h, rfl, rfl⟩ := h
    refine ⟨run_out h, ?_, ?_, ?_, ?_, fun hn => absurd (D.addr_of_partAt hp) (hn i), ?_, ?_, ?_⟩
    all_goals exact fun _ => rfl
  all_goals
    rename_i hp
    simp only [bind_eq_ok, Except.ok.injEq, Prod.mk.injEq, Prod.exists] at h
    obtain ⟨_, _, h, rfl, rfl⟩ := h
    refine ⟨run_out h, ?_, ?_, ?_, ?_, ?_, ?_, ?_, ?_⟩
    all_goals first
      | exact fun _ => rfl
      | exact fun hn => absurd (D.addr_of_partAt hp) hn

/-- An execution of the part at `a`, in terms of that contract's own functions. -/
theorem receive_sm (h : receive D g now m w = .ok (w', out)) (hd : m.dst = D.S) :
    (m.bounced = true ∧ w'.sm = w.sm ∧ out = [])
      ∨ (m.bounced = false ∧ ∃ out', w.sm.receive (Ctx.of g now m) (D.opened m.body)
          = .ok (w'.sm, out') ∧ out = out'.map (stamp m.dst)) := by
  unfold receive at h
  rw [hd, D.partAt_addr] at h
  simp only [bind_eq_ok, Except.ok.injEq, Prod.mk.injEq, Prod.exists] at h
  obtain ⟨_, _, h, rfl, rfl⟩ := h
  rcases run_eq_ok h with ⟨hb, h, ho⟩ | ⟨hb, out', h, ho⟩
  · exact .inl ⟨hb, (Except.ok.inj h).symm, ho⟩
  · exact .inr ⟨hb, out', h, ho⟩

theorem receive_pool (h : receive D g now m w = .ok (w', out)) (hd : m.dst = D.P) :
    (m.bounced = true ∧ w'.pool = w.pool.bounced m.body ∧ out = [])
      ∨ (m.bounced = false ∧ ∃ out', w.pool.receive D.wallets (Ctx.of g now m) (D.opened m.body)
          = .ok (w'.pool, out') ∧ out = out'.map (stamp m.dst)) := by
  unfold receive at h
  rw [hd, D.partAt_addr] at h
  simp only [bind_eq_ok, Except.ok.injEq, Prod.mk.injEq, Prod.exists] at h
  obtain ⟨_, _, h, rfl, rfl⟩ := h
  rcases run_eq_ok h with ⟨hb, h, ho⟩ | ⟨hb, out', h, ho⟩
  · exact .inl ⟨hb, (Except.ok.inj h).symm, ho⟩
  · exact .inr ⟨hb, out', h, ho⟩

theorem receive_lock (h : receive D g now m w = .ok (w', out)) (hd : m.dst = D.L) :
    run D StakingLock.receive absorb g now m w.lock = .ok (w'.lock, out) := by
  unfold receive at h
  rw [hd, D.partAt_addr] at h
  simp only [bind_eq_ok, Except.ok.injEq, Prod.mk.injEq, Prod.exists] at h
  obtain ⟨_, _, h, rfl, rfl⟩ := h
  exact h

theorem receive_at_timelock (hd : m.dst = D.T) :
    receive D g now m w = (do
      let (s, out) ← run D Timelock.receive Timelock.bounced g now m w.timelock
      .ok ({ w with timelock := s }, out)) := by
  unfold receive
  rw [hd, D.partAt_addr]

theorem receive_timelock (h : receive D g now m w = .ok (w', out)) (hd : m.dst = D.T) :
    run D Timelock.receive Timelock.bounced g now m w.timelock = .ok (w'.timelock, out) := by
  rw [receive_at_timelock hd] at h
  simp only [bind_eq_ok, Except.ok.injEq, Prod.mk.injEq, Prod.exists] at h
  obtain ⟨_, _, h, rfl, rfl⟩ := h
  exact h

theorem receive_governor (h : receive D g now m w = .ok (w', out)) (hd : m.dst = D.G) :
    run D (Governor.receive fun i => D.addr (.proposal i)) (fun _ s b => .ok (s.bounced b)) g now m
      w.governor = .ok (w'.governor, out) := by
  unfold receive at h
  rw [hd, D.partAt_addr] at h
  simp only [bind_eq_ok, Except.ok.injEq, Prod.mk.injEq, Prod.exists] at h
  obtain ⟨_, _, h, rfl, rfl⟩ := h
  exact h

theorem receive_proposal {i : ProposalInit} (h : receive D g now m w = .ok (w', out))
    (hd : m.dst = D.addr (.proposal i)) :
    ∃ p p', w.proposalAt m i = .ok p ∧ run D Proposal.receive absorb g now m p = .ok (p', out)
      ∧ w'.proposals = w.proposals.insert m.dst p' := by
  unfold receive at h
  rw [hd, D.partAt_addr] at h
  simp only [bind_eq_ok, Except.ok.injEq, Prod.mk.injEq, Prod.exists] at h
  obtain ⟨p, hp, p', _, h, rfl, rfl⟩ := h
  exact ⟨p, p', hp, h, by rw [hd]⟩

/-- An original message is accepted when the contract's receiver accepts it. -/
theorem run_of_ok {σ : Type} {rcv : Ctx → σ → Body → Tx (σ × List Msg)}
    {bnc : Ctx → σ → Body → Tx σ} {s s' : σ} {out' : List Msg} (hb : m.bounced = false)
    (h : rcv (Ctx.of g now m) s (D.opened m.body) = .ok (s', out')) :
    run D rcv bnc g now m s = .ok (s', out'.map (stamp m.dst)) := by
  simp only [run, hb, Bool.false_eq_true, if_false, h, ok_bind]

theorem receive_sm_of_ok {s' : StakingMaster} {out' : List Msg} (hd : m.dst = D.S)
    (hb : m.bounced = false)
    (h : w.sm.receive (Ctx.of g now m) (D.opened m.body) = .ok (s', out')) :
    receive D g now m w = .ok ({ w with sm := s' }, out'.map (stamp D.S)) := by
  unfold receive
  simp only [hd, D.partAt_addr, run_of_ok hb h, ok_bind]

theorem receive_governor_of_ok {s' : Governor} {out' : List Msg} (hd : m.dst = D.G)
    (hb : m.bounced = false)
    (h : w.governor.receive (fun i => D.addr (.proposal i)) (Ctx.of g now m) (D.opened m.body)
      = .ok (s', out')) :
    receive D g now m w = .ok ({ w with governor := s' }, out'.map (stamp D.G)) := by
  unfold receive
  simp only [hd, D.partAt_addr, run_of_ok hb h, ok_bind]

theorem receive_timelock_of_ok {s' : Timelock} {out' : List Msg} (hd : m.dst = D.T)
    (hb : m.bounced = false)
    (h : w.timelock.receive (Ctx.of g now m) (D.opened m.body) = .ok (s', out')) :
    receive D g now m w = .ok ({ w with timelock := s' }, out'.map (stamp D.T)) := by
  unfold receive
  simp only [hd, D.partAt_addr, run_of_ok hb h, ok_bind]

/-- A message for one account leaves all proposals at other addresses alone. -/
theorem receive_lookup_other (h : receive D g now m w = .ok (w', out)) {a : Address}
    (ha : m.dst ≠ a) : w'.proposals.lookup a = w.proposals.lookup a := by
  by_cases hd : ∃ i, m.dst = D.addr (.proposal i)
  · obtain ⟨i, hd⟩ := hd
    obtain ⟨_, _, -, -, hP⟩ := receive_proposal h hd
    rw [hP, AList.lookup_insert_ne (Ne.symm ha)]
  · rw [(receive_framed h).proposals fun i hi => hd ⟨i, hi⟩]

theorem receive_treasury (h : receive D g now m w = .ok (w', out)) (hd : m.dst = D.R) :
    run D (Treasury.receive D.wallets) (fun _ s b => s.bounced b) g now m w.treasury
      = .ok (w'.treasury, out) := by
  unfold receive at h
  rw [hd, D.partAt_addr] at h
  simp only [bind_eq_ok, Except.ok.injEq, Prod.mk.injEq, Prod.exists] at h
  obtain ⟨_, _, h, rfl, rfl⟩ := h
  exact h

theorem receive_vesting (h : receive D g now m w = .ok (w', out)) (hd : m.dst = D.V) :
    run D (Vesting.receive D.wallets) (fun _ s b => s.bounced b) g now m w.vesting
      = .ok (w'.vesting, out) := by
  unfold receive at h
  rw [hd, D.partAt_addr] at h
  simp only [bind_eq_ok, Except.ok.injEq, Prod.mk.injEq, Prod.exists] at h
  obtain ⟨_, _, h, rfl, rfl⟩ := h
  exact h

/-- The jetton master, in terms of its own functions. -/
theorem receive_master (h : receive D g now m w = .ok (w', out)) (hd : m.dst = D.J) :
    run D (BurnJettonMaster.receive D.wallets) (fun _ s b => .ok (s.bounced b)) g now m
        w.jetton.master = .ok (w'.jetton.master, out)
      ∧ w'.jetton.wallets = w.jetton.wallets := by
  obtain ⟨src, dst, value, bounce, bounced, deploy, body⟩ := m
  obtain rfl : dst = D.J := hd
  unfold receive at h
  rw [D.partAt_addr] at h
  simp only [JettonState.receive, if_true, JettonState.receiveMaster, bind_eq_ok,
    Except.ok.injEq, Prod.mk.injEq, Prod.exists] at h
  obtain ⟨_, out', h, rfl, rfl⟩ := h
  cases bounced with
  | true =>
      obtain ⟨rfl, rfl⟩ := Prod.mk.inj (Except.ok.inj h)
      exact ⟨rfl, rfl⟩
  | false =>
      simp only [Bool.false_eq_true, if_false, bind_eq_ok, Except.ok.injEq, Prod.mk.injEq,
        Prod.exists] at h
      obtain ⟨x, out', h, rfl, rfl⟩ := h
      refine ⟨?_, rfl⟩
      simp only [run, Bool.false_eq_true, if_false, bind_eq_ok, Except.ok.injEq, Prod.mk.injEq,
        Prod.exists]
      exact ⟨x, out', h, rfl, rfl⟩

/-- A jetton wallet, in terms of its own functions. -/
theorem receive_wallet {o j : Address} (h : receive D g now m w = .ok (w', out))
    (hd : m.dst = D.addr (.jettonWallet o j)) :
    ∃ x x', JettonState.walletAt D.wallets D.J w.jetton m = some x
      ∧ run D (BurnJettonWallet.receive D.wallets) (fun _ s b => .ok (s.bounced b)) g now m x
        = .ok (x', out)
      ∧ w'.jetton.wallets = w.jetton.wallets.insert m.dst x'
      ∧ w'.jetton.master = w.jetton.master := by
  obtain ⟨src, dst, value, bounce, bounced, deploy, body⟩ := m
  obtain rfl : dst = D.addr (.jettonWallet o j) := hd
  have hJ : D.addr (.jettonWallet o j) ≠ D.J := by simp
  unfold receive at h
  rw [D.partAt_addr] at h
  simp only [JettonState.receive, hJ, if_false, JettonState.receiveWallet, bind_eq_ok,
    Except.ok.injEq, Prod.mk.injEq, Prod.exists] at h
  obtain ⟨_, out', h, rfl, rfl⟩ := h
  split at h
  · cases h
  · rename_i x hx
    cases bounced with
    | true =>
        obtain ⟨rfl, rfl⟩ := Prod.mk.inj (Except.ok.inj h)
        exact ⟨x, _, hx, rfl, rfl, rfl⟩
    | false =>
        simp only [Bool.false_eq_true, if_false, bind_eq_ok, Except.ok.injEq, Prod.mk.injEq,
          Prod.exists] at h
        obtain ⟨x', out', h, rfl, rfl⟩ := h
        refine ⟨x, x', hx, ?_, rfl, rfl⟩
        simp only [run, Bool.false_eq_true, if_false, bind_eq_ok, Except.ok.injEq, Prod.mk.injEq,
          Prod.exists]
        exact ⟨x', out', h, rfl, rfl⟩

theorem receive_master_of_ok {r : BurnJettonMaster × List Msg} (hd : m.dst = D.J)
    (hb : m.bounced = false)
    (h : w.jetton.master.receive D.wallets (Ctx.of g now m) (D.opened m.body) = .ok r) :
    ∃ r', receive D g now m w = .ok r' := by
  obtain ⟨src, dst, value, bounce, bounced, deploy, body⟩ := m
  obtain rfl : dst = D.J := hd
  obtain rfl : bounced = false := hb
  have hctx : w.jetton.master.receive D.wallets
      (Ctx.of g now ⟨src, D.J, value, bounce, false, deploy, D.opened body⟩) (D.opened body)
      = .ok r := h
  unfold receive
  rw [D.partAt_addr]
  simp only [JettonState.receive, if_true, JettonState.receiveMaster, Bool.false_eq_true, if_false,
    hctx, ok_bind]
  exact ⟨_, rfl⟩

theorem receive_wallet_of_ok {o j : Address} {x : BurnJettonWallet}
    {r : BurnJettonWallet × List Msg} (hd : m.dst = D.addr (.jettonWallet o j))
    (hb : m.bounced = false) (hx : w.jetton.wallets.lookup m.dst = some x)
    (h : x.receive D.wallets (Ctx.of g now m) (D.opened m.body) = .ok r) :
    ∃ r', receive D g now m w = .ok r' := by
  obtain ⟨src, dst, value, bounce, bounced, deploy, body⟩ := m
  obtain rfl : dst = D.addr (.jettonWallet o j) := hd
  obtain rfl : bounced = false := hb
  have hJ : D.addr (.jettonWallet o j) ≠ D.J := by simp
  have hctx : x.receive D.wallets
      (Ctx.of g now ⟨src, D.addr (.jettonWallet o j), value, bounce, false, deploy, D.opened body⟩)
      (D.opened body) = .ok r := h
  unfold receive
  rw [D.partAt_addr]
  simp only [JettonState.receive, hJ, if_false, JettonState.receiveWallet, JettonState.walletAt,
    Bool.false_eq_true, hx, hctx, ok_bind]
  exact ⟨_, rfl⟩

/-- No other contract touches the jetton. -/
theorem receive_jetton_other (h : receive D g now m w = .ok (w', out)) (hJ : m.dst ≠ D.J)
    (hW : ∀ o j, m.dst ≠ D.addr (.jettonWallet o j)) : w'.jetton = w.jetton := by
  unfold receive at h
  split at h
  · cases h
  case h_2 hp => exact absurd (D.addr_of_partAt hp) hJ
  case h_3 hp => exact absurd (D.addr_of_partAt hp) (hW _ _)
  case h_8 i hp =>
    simp only [bind_eq_ok, Except.ok.injEq, Prod.mk.injEq, Prod.exists] at h
    obtain ⟨_, -, _, _, -, rfl, -⟩ := h
    rfl
  all_goals
    simp only [bind_eq_ok, Except.ok.injEq, Prod.mk.injEq, Prod.exists] at h
    obtain ⟨_, _, -, rfl, -⟩ := h
    rfl

end World

/-- Wallets of other jettons always belong to the environment. -/
def Deployment.owns (D : Deployment) (modelled : Part → Bool) (a : Address) : Bool :=
  match D.partAt a with
  | none => false
  | some (.jettonWallet o m) => decide (m = D.J) && modelled (.jettonWallet o m)
  | some p => modelled p

/-- The network of the modelled parts. `ordered` are the pairs of accounts whose
messages arrive in the order sent. -/
def network (D : Deployment) (modelled : Part → Bool) (ordered : Address → Address → Bool) :
    Network.Machine Address Body Gas World where
  owns := D.owns modelled
  ordered := ordered
  receive := World.receive D

abbrev WorldConf := Network.Conf Address Body World

theorem owns_of_modelled {D : Deployment} {modelled : Part → Bool}
    {ordered : Address → Address → Bool} {p : Part}
    (h : (network D modelled ordered).owns (D.addr p) = true) {a : Address}
    (ha : (network D modelled ordered).owns a = false) : a ≠ D.addr p := by
  rintro rfl
  rw [h] at ha
  cases ha

/-! ## Runs whose steps meet a condition -/

section Meets

open Network

theorem channel_stamp (a b : Address) (out : List Msg) :
    channel a b (out.map (stamp a)) = (out.filter fun r => decide (r.dst = b)).map (·.body) := by
  induction out with
  | nil => rfl
  | cons r out ih =>
      rw [List.map_cons]
      by_cases h : r.dst = b
      · rw [channel_cons_same (stamp_src a r) h rfl, ih,
          List.filter_cons_of_pos (by simpa using h), List.map_cons]
        rfl
      · rw [channel_cons_other (m := stamp a r) (.inr (.inl h)), ih,
          List.filter_cons_of_neg (by simpa using h)]

/-- The steps whose delivered message meets `Q` in the state it finds. -/
def Meets (Q : World → Nat → Gas → Msg → Prop) (c : WorldConf) : Action Address Body Gas → Prop
  | .deliver i g _ =>
      match c.flight[i]? with
      | some m => Q c.st c.now g m
      | none => True
  | _ => True

instance (Q : World → Nat → Gas → Msg → Prop) [∀ w now g m, Decidable (Q w now g m)]
    (c : WorldConf) : ∀ a, Decidable (Meets Q c a)
  | .deliver i _ _ =>
      match h : c.flight[i]? with
      | some m => decidable_of_iff (Q c.st c.now _ m) (by rw [Meets, h])
      | none => .isTrue (by rw [Meets, h]; trivial)
  | .send _ => .isTrue trivial
  | .wait _ => .isTrue trivial

theorem meets_true (c : WorldConf) (a : Action Address Body Gas) :
    Meets (fun _ _ _ _ => True) c a := by
  cases a with
  | deliver i =>
      simp only [Meets]
      split <;> trivial
  | _ => trivial

theorem Meets.at {Q : World → Nat → Gas → Msg → Prop} {c : WorldConf} {i : Nat} {g : Gas}
    {accept : Bool} {m : Msg} (h : Meets Q c (.deliver i g accept)) (hm : c.flight[i]? = some m) :
    Q c.st c.now g m := by
  rw [Meets, hm] at h
  exact h

theorem Meets.mono {Q Q' : World → Nat → Gas → Msg → Prop} {c : WorldConf}
    {a : Action Address Body Gas} (hQ : ∀ w now g m, Q w now g m → Q' w now g m)
    (h : Meets Q c a) : Meets Q' c a := by
  cases a with
  | deliver i g accept =>
      simp only [Meets] at h ⊢
      split at h
      · exact hQ _ _ _ _ h
      · trivial
  | _ => trivial

end Meets

/-! ## A deployment to compute with -/

end BurnedChats

namespace Codec

open BurnedChats

def proposalInit : Codec ProposalInit :=
  ((((nat.pair (address.pair (address.pair address))).pair (nat.pair cell)).pair
      ((nat.pair nat).pair (int.pair int))).pair (nat.pair (nat.pair address))).map
    (fun i => ((((i.id, i.governor, i.voteRelayer, i.proposer), i.proposalType, i.payload),
      (i.startTime, i.endTime), i.totalVpSnapshot, i.quorumRequired),
      i.thresholdBps, i.timelockDelaySec, i.timelockAddr))
    (fun ((((id, governor, voteRelayer, proposer), proposalType, payload), (startTime, endTime),
        totalVpSnapshot, quorumRequired), thresholdBps, timelockDelaySec, timelockAddr) =>
      { id, governor, voteRelayer, proposer, proposalType, payload, startTime, endTime
        totalVpSnapshot, quorumRequired, thresholdBps, timelockDelaySec, timelockAddr })
    fun _ => rfl

def encPart : Part → List Bool
  | .jettonMaster => nat.enc 0
  | .jettonWallet o m => nat.enc 1 ++ (address.pair address).enc (o, m)
  | .stakingMaster => nat.enc 2
  | .stakingPool => nat.enc 3
  | .stakingLock => nat.enc 4
  | .governor => nat.enc 5
  | .proposal i => nat.enc 6 ++ proposalInit.enc i
  | .timelock => nat.enc 7
  | .treasury => nat.enc 8
  | .vesting => nat.enc 9

def decPart (l : List Bool) : Option (Part × List Bool) :=
  (nat.dec l).bind fun (tag, l) =>
    match tag with
    | 0 => some (.jettonMaster, l)
    | 1 => ((address.pair address).dec l).map fun (p, l) => (.jettonWallet p.1 p.2, l)
    | 2 => some (.stakingMaster, l)
    | 3 => some (.stakingPool, l)
    | 4 => some (.stakingLock, l)
    | 5 => some (.governor, l)
    | 6 => (proposalInit.dec l).map fun (i, l) => (.proposal i, l)
    | 7 => some (.timelock, l)
    | 8 => some (.treasury, l)
    | 9 => some (.vesting, l)
    | _ => none

def part : Codec Part where
  enc := encPart
  dec := decPart
  law p r := by
    cases p <;> simp [encPart, decPart, nat.law, (address.pair address).law, proposalInit.law]

end Codec

namespace BurnedChats

/-- Every part at the address that is its number. -/
def Deployment.numbered : Deployment where
  addr p := ⟨.basechain, Codec.part.toNat p⟩
  partAt a :=
    match Codec.part.ofNat a.hash with
    | none => none
    | some p => if (⟨.basechain, Codec.part.toNat p⟩ : Address) = a then some p else none
  partAt_iff a p := by
    constructor
    · intro h
      split at h
      · cases h
      · split at h
        · obtain rfl := Option.some.inj h
          assumption
        · cases h
    · rintro rfl
      simp [Codec.ofNat_toNat]
  decode _ := .empty

end BurnedChats

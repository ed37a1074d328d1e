import BurnedChats.Governance.Execution
import BurnedChats.Governance.Reservations

/-!
# A proposal is queued at most once

A proposal that leaves the active state reports success at most once, and a
report that the governor accepts becomes one queue message, which becomes one
entry of the timelock. Since no id is registered twice, these three together are
at most one for every id; a queue message under way therefore finds its id free.
-/

namespace BurnedChats

open Network Timelock

variable {D : Deployment} {modelled : Part → Bool} {ordered : Address → Address → Bool}

/-! ## Tokens -/

/-- The report with which the contract for `i` asks to be queued. -/
def announces (D : Deployment) (i : ProposalInit) (m : Msg) : Nat :=
  match m.body with
  | .proposalStateReportToGovernor r =>
      if m.src = D.addr (.proposal i) ∧ m.bounced = false ∧ r.newState = 1 ∧ r.queueActive = true
      then 1 else 0
  | _ => 0

/-- The governor's queue message for `n`. -/
def queues (D : Deployment) (n : Nat) (m : Msg) : Nat :=
  match m.body with
  | .timelockQueue q => if q.proposalId = n ∧ m.src = D.G ∧ m.bounced = false then 1 else 0
  | _ => 0

/-- Whether the contract for `i` has left the active state. -/
def spent (D : Deployment) (w : World) (i : ProposalInit) : Nat :=
  match w.proposals.lookup (D.addr (.proposal i)) with
  | some p => if p.state = .active then 0 else 1
  | none => 0

/-- Whether the timelock has an entry for `n`. -/
def entered (w : World) (n : Nat) : Nat := (w.timelock.pendingActions.lookup n).isSome.toNat

theorem announces_of_src {i : ProposalInit} {m : Msg} (h : m.src ≠ D.addr (.proposal i)) :
    announces D i m = 0 := by
  unfold announces
  split
  · exact if_neg fun hc => h hc.1
  · rfl

theorem announces_of_bounced {i : ProposalInit} {m : Msg} (h : m.bounced = true) :
    announces D i m = 0 := by
  unfold announces
  split
  · refine if_neg fun hc => ?_
    rw [h] at hc
    cases hc.2.1
  · rfl

theorem queues_of_src {n : Nat} {m : Msg} (h : m.src ≠ D.G) : queues D n m = 0 := by
  unfold queues
  split
  · exact if_neg fun hc => h hc.2.1
  · rfl

theorem queues_of_bounced {n : Nat} {m : Msg} (h : m.bounced = true) : queues D n m = 0 := by
  unfold queues
  split
  · refine if_neg fun hc => ?_
    rw [h] at hc
    cases hc.2.2
  · rfl

theorem queues_of_body {n : Nat} {m : Msg} (h : ∀ q, m.body ≠ .timelockQueue q) :
    queues D n m = 0 := by
  unfold queues
  split
  · rename_i q hq
    exact absurd hq (h q)
  · rfl

theorem queues_queue {n : Nat} {m : Msg} {q : TimelockQueue} (h : m.body = .timelockQueue q)
    (hs : m.src = D.G) (hb : m.bounced = false) :
    queues D n m = if q.proposalId = n then 1 else 0 := by
  unfold queues
  rw [h]
  simp only [hs, hb, and_self, and_true]

theorem spent_le_one (w : World) (i : ProposalInit) : spent D w i ≤ 1 := by
  unfold spent
  split
  · split <;> omega
  · omega

/-- A proposal is announced, queued and entered at most once, all together. -/
structure Queueing (D : Deployment) (c : WorldConf) : Prop where
  announced : ∀ i, load (announces D i) c.flight ≤ spent D c.st i
  listed : ∀ n i, c.st.governor.proposals.lookup n = some (D.addr (.proposal i)) →
    load (announces D i) c.flight + (load (queues D n) c.flight + entered c.st n) ≤ spent D c.st i
  unlisted : ∀ n, c.st.governor.proposals.lookup n = none →
    load (queues D n) c.flight + entered c.st n = 0

namespace Queueing

variable {c : WorldConf} {m : Msg} {pre post out : List Msg} {w' : World} {g : Gas} {now : Nat}
  {treasury : Address}

/-- What is sent is paid for by what is taken or by the contract that is spent. -/
theorem next (h : Queueing D c) (hf : c.flight = pre ++ m :: post)
    (hprop : w'.governor.proposals = c.st.governor.proposals)
    (hann : ∀ i, load (announces D i) out + spent D c.st i ≤ announces D i m + spent D w' i)
    (hqueue : ∀ n, load (queues D n) out + entered w' n ≤ queues D n m + entered c.st n) :
    Queueing D ⟨w', pre ++ post ++ out, now⟩ := by
  refine ⟨fun i => ?_, fun n i hn => ?_, fun n hn => ?_⟩
  · have h₁ := h.announced i
    have := hann i
    rw [load_take _ hf] at h₁
    show load (announces D i) (pre ++ post ++ out) ≤ spent D w' i
    rw [load_append]
    omega
  · have h₁ := h.listed n i (hprop ▸ hn)
    have := hann i
    have := hqueue n
    rw [load_take _ hf, load_take (queues D n) hf] at h₁
    show load (announces D i) (pre ++ post ++ out) + (load (queues D n) (pre ++ post ++ out)
      + entered w' n) ≤ spent D w' i
    rw [load_append, load_append (queues D n)]
    omega
  · have h₁ := h.unlisted n (hprop ▸ hn)
    have := hqueue n
    rw [load_take _ hf] at h₁
    show load (queues D n) (pre ++ post ++ out) + entered w' n = 0
    rw [load_append]
    omega

/-- A message is dropped or returned. -/
theorem dropped (h : Queueing D c) (hf : c.flight = pre ++ m :: post)
    (hout : ∀ r ∈ out, r.bounced = true) : Queueing D ⟨c.st, pre ++ post ++ out, now⟩ := by
  refine h.next hf rfl (fun i => ?_) fun n => ?_
  · rw [load_eq_zero fun r hr => announces_of_bounced (hout r hr)]
    omega
  · rw [load_eq_zero fun r hr => queues_of_bounced (hout r hr)]
    omega

/-- Neither governor nor timelock nor a proposal. -/
theorem elsewhere (h : Queueing D c) (hf : c.flight = pre ++ m :: post) (hG : m.dst ≠ D.G)
    (hT : m.dst ≠ D.T) (hP : ∀ i, m.dst ≠ D.addr (.proposal i))
    (hr : World.receive D g c.now m c.st = .ok (w', out)) :
    Queueing D ⟨w', pre ++ post ++ out, c.now⟩ := by
  have hframe := World.receive_framed hr
  have hsrc : ∀ r ∈ out, r.src = m.dst := fun r hr' => (hframe.out r hr').1
  refine h.next hf (by rw [hframe.governor hG]) (fun i => ?_) fun n => ?_
  · rw [load_eq_zero fun r hr' => announces_of_src (hsrc r hr' ▸ hP i), spent, spent,
      hframe.proposals hP]
    omega
  · rw [load_eq_zero fun r hr' => queues_of_src (hsrc r hr' ▸ hG), entered, entered,
      hframe.timelock hT]
    omega

/-- A proposal is spent when it announces itself. -/
theorem decided {i : ProposalInit} {ctx : Ctx} {p p' : Proposal} {b : Body} {out' : List Msg}
    (h : Proposal.Decided ctx p b p' out') :
    load (announces D i) (out'.map (stamp (D.addr (.proposal i))))
        + (if p.state = .active then 0 else 1) ≤ if p'.state = .active then 0 else 1 := by
  have hplain : ∀ {r : Msg}, r.body = .empty →
      announces D i (stamp (D.addr (.proposal i)) r) = 0 := by
    intro r hr
    simp only [announces, stamp_body, hr]
  have hreport : ∀ {ns : ProposalState} {delay : Nat} {q : QueueRequest}, ns.code ≠ 1 →
      announces D i (stamp (D.addr (.proposal i)) (Proposal.reportStateEx ctx p ns delay q)) = 0 := by
    intro ns delay q hns
    exact if_neg fun hc => hns hc.2.2.1
  have hcash : ∀ a, announces D i (stamp (D.addr (.proposal i)) (ctx.cashback a)) = 0 := fun a =>
    hplain rfl
  cases h with
  | vote =>
      rw [List.map_cons, load_cons, hplain rfl]
      simp only [List.map_nil, load_nil, Proposal.counted, Nat.zero_add]
      exact Nat.le_refl _
  | defeat _ ha | cancel _ ha =>
      simp only [List.map_cons, List.map_nil, load_cons, load_nil, hcash, ha, if_true]
      rw [hreport (by decide)]
      simp
  | @succeed q _ ha =>
      have hone : announces D i (stamp (D.addr (.proposal i))
          (Proposal.reportStateEx ctx p .succeeded p.timelockDelaySec q)) ≤ 1 := by
        unfold announces
        split
        · split <;> omega
        · omega
      simp only [List.map_cons, List.map_nil, load_cons, load_nil, hcash, ha, if_true]
      simp only [reduceCtorEq, if_false]
      omega
  | execute hs =>
      simp only [List.map_cons, List.map_nil, load_cons, load_nil, hs]
      rw [hreport (by decide)]
      simp
  | idle hout =>
      rw [load_eq_zero fun r hr => ?_]
      · omega
      · obtain ⟨r, hrm, rfl⟩ := List.mem_map.mp hr
        rw [hout r hrm]
        exact hcash _

/-- A proposal. -/
theorem atProposal (h : Queueing D c) (hf : c.flight = pre ++ m :: post) {i : ProposalInit}
    (hd : m.dst = D.addr (.proposal i)) (hr : World.receive D g c.now m c.st = .ok (w', out)) :
    Queueing D ⟨w', pre ++ post ++ out, c.now⟩ := by
  have hframe := World.receive_framed hr
  have hsrc : ∀ r ∈ out, r.src = D.addr (.proposal i) := fun r hr' => (hframe.out r hr').1.trans hd
  refine h.next hf (by rw [hframe.governor (by simp [hd])]) (fun j => ?_) fun n => ?_
  · by_cases hj : j = i
    · subst hj
      obtain ⟨p, p', hat, hrun, hP⟩ := World.receive_proposal hr hd
      have hafter : spent D w' j = if p'.state = .active then 0 else 1 := by
        rw [spent, hP, hd, AList.lookup_insert]
      have hbefore : spent D c.st j = if p.state = .active then 0 else 1 := by
        unfold World.proposalAt at hat
        rw [hd] at hat
        unfold spent
        cases hp : c.st.proposals.lookup (D.addr (.proposal j)) with
        | some q =>
            rw [hp] at hat
            exact Except.ok.inj hat ▸ rfl
        | none =>
            simp only [hp] at hat
            split at hat
            · exact Except.ok.inj hat ▸ rfl
            · cases hat
      rw [hafter, hbefore]
      rcases World.run_eq_ok hrun with ⟨-, hs, rfl⟩ | ⟨-, out', hs, rfl⟩
      · obtain rfl := Except.ok.inj hs
        simp
      · have := decided (D := D) (i := j) (Proposal.receive_cases hs)
        rw [hd]
        omega
    · have hne : D.addr (.proposal i) ≠ D.addr (.proposal j) := by
        simpa using Ne.symm hj
      rw [load_eq_zero fun r hr' => announces_of_src (hsrc r hr' ▸ hne), spent, spent,
        World.receive_lookup_other hr (hd ▸ hne)]
      omega
  · rw [load_eq_zero fun r hr' => queues_of_src (hsrc r hr' ▸ by simp), entered, entered,
      hframe.timelock (by simp [hd])]
    omega

/-- Only a queue message of the governor enters an id. -/
theorem acted {ctx : Ctx} {s s' : Timelock} {b : Body} {out' : List Msg} (h : Acted ctx s b s' out')
    (n : Nat) : (∃ q, b = .timelockQueue q ∧ q.proposalId = n ∧ ctx.sender = s.governor)
      ∨ (s'.pendingActions.lookup n).isSome.toNat ≤ (s.pendingActions.lookup n).isSome.toNat := by
  have herase : ∀ k, ((s.pendingActions.erase k).lookup n).isSome.toNat
      ≤ (s.pendingActions.lookup n).isSome.toNat := by
    intro k
    rw [Table.lookup_erase_of]
    split
    · exact Nat.zero_le _
    · exact Nat.le_refl _
  cases h with
  | @queue msg hs =>
      by_cases hn : n = msg.proposalId
      · exact .inl ⟨msg, rfl, hn.symm, hs⟩
      · right
        simp only [Table.lookup_insert_of, if_neg hn]
        exact Nat.le_refl _
  | @dispatch _ k a _ ha =>
      right
      simp only [Table.lookup_insert_of]
      split
      · rename_i hn
        rw [hn, ha]
        exact Nat.le_refl _
      · exact Nat.le_refl _
  | relay | cancel => exact .inr (herase _)
  | idle => exact .inr (Nat.le_refl _)

/-- The timelock. -/
theorem atTimelock (h : Queueing D c) (hI : Governing D treasury c)
    (hf : c.flight = pre ++ m :: post) (hd : m.dst = D.T)
    (hr : World.receive D g c.now m c.st = .ok (w', out)) :
    Queueing D ⟨w', pre ++ post ++ out, c.now⟩ := by
  have hmem : m ∈ c.flight := by simp [hf]
  have hframe := World.receive_framed hr
  have hsrc : ∀ r ∈ out, r.src = D.T := fun r hr' => (hframe.out r hr').1.trans hd
  refine h.next hf (by rw [hframe.governor (by simp [hd])]) (fun i => ?_) fun n => ?_
  · rw [load_eq_zero fun r hr' => announces_of_src (hsrc r hr' ▸ by simp), spent, spent,
      hframe.proposals (by simp [hd])]
    omega
  · rw [load_eq_zero fun r hr' => queues_of_src (hsrc r hr' ▸ by simp), Nat.zero_add, entered,
      entered]
    rcases World.run_eq_ok (World.receive_timelock hr hd) with ⟨-, hs, -⟩ | ⟨hb, out', hs, -⟩
    · rw [bounced_eq, Except.ok.injEq] at hs
      rw [← hs]
      split
      · refine Nat.le_trans ?_ (Nat.le_add_left _ _)
        cases ha : (c.st.timelock.rearm _ _).pendingActions.lookup n with
        | none => exact Nat.zero_le _
        | some a' =>
            obtain ⟨a, ha', -⟩ := rearm_from ha
            rw [ha']
            exact Nat.le_refl _
      · exact Nat.le_add_left _ _
    · rcases acted (receive_acted hs) n with ⟨q, hq, hn, hsender⟩ | hle
      · have hs' : m.src = D.G := hsender.trans hI.queuer
        rw [hI.opened hmem hb (.inr (.inl hs'))] at hq
        have hone : queues D n m = 1 := by rw [queues_queue hq hs' hb, if_pos hn]
        have := Bool.toNat_le (w'.timelock.pendingActions.lookup n).isSome
        omega
      · exact Nat.le_trans hle (Nat.le_add_left _ _)

/-- The governor passes an announcement on. -/
theorem relayed (h : Queueing D c) (hf : c.flight = pre ++ m :: post) {i : ProposalInit} {n : Nat}
    (hn : c.st.governor.proposals.lookup n = some (D.addr (.proposal i)))
    (hm : announces D i m = 1) (hprop : w'.governor.proposals = c.st.governor.proposals)
    (hproposals : w'.proposals = c.st.proposals) (htimelock : w'.timelock = c.st.timelock)
    (hann : ∀ j, load (announces D j) out = 0)
    (hqueue : ∀ k, load (queues D k) out = if n = k then 1 else 0) :
    Queueing D ⟨w', pre ++ post ++ out, now⟩ := by
  have hspent : ∀ j, spent D w' j = spent D c.st j := by
    intro j
    rw [spent, spent, hproposals]
  have hentered : ∀ k, entered w' k = entered c.st k := by
    intro k
    rw [entered, entered, htimelock]
  refine ⟨fun j => ?_, fun k j hk => ?_, fun k hk => ?_⟩
  · have h₁ := h.announced j
    rw [load_take _ hf] at h₁
    show load (announces D j) (pre ++ post ++ out) ≤ spent D w' j
    rw [load_append, hann, hspent]
    omega
  · have hk : c.st.governor.proposals.lookup k = some (D.addr (.proposal j)) := hprop ▸ hk
    have h₁ := h.listed k j hk
    rw [load_take _ hf, load_take (queues D k) hf] at h₁
    show load (announces D j) (pre ++ post ++ out) + (load (queues D k) (pre ++ post ++ out)
      + entered w' k) ≤ spent D w' j
    rw [load_append, hann, load_append (queues D k), hqueue, hentered, hspent]
    by_cases hnk : n = k
    · subst hnk
      obtain rfl : i = j := by simpa using hn.symm.trans hk
      rw [hm] at h₁
      rw [if_pos rfl]
      omega
    · rw [if_neg hnk]
      omega
  · have hk : c.st.governor.proposals.lookup k = none := hprop ▸ hk
    have h₁ := h.unlisted k hk
    rw [load_take _ hf] at h₁
    show load (queues D k) (pre ++ post ++ out) + entered w' k = 0
    have hnk : n ≠ k := by
      rintro rfl
      rw [hn] at hk
      cases hk
    rw [load_append, hqueue, hentered, if_neg hnk]
    omega

/-- The governor registers a proposal. -/
theorem registered (h : Queueing D c) (hf : c.flight = pre ++ m :: post) {i : ProposalInit} {n : Nat}
    (hn : c.st.governor.proposals.lookup n = none)
    (hprop : w'.governor.proposals
      = c.st.governor.proposals.insert n (D.addr (.proposal i)))
    (hproposals : w'.proposals = c.st.proposals) (htimelock : w'.timelock = c.st.timelock)
    (hann : ∀ j, load (announces D j) out = 0) (hqueue : ∀ k, load (queues D k) out = 0) :
    Queueing D ⟨w', pre ++ post ++ out, now⟩ := by
  have hspent : ∀ j, spent D w' j = spent D c.st j := by
    intro j
    rw [spent, spent, hproposals]
  have hentered : ∀ k, entered w' k = entered c.st k := by
    intro k
    rw [entered, entered, htimelock]
  have hrest : ∀ {k}, c.st.governor.proposals.lookup k = none →
      load (queues D k) (pre ++ post ++ out) + entered w' k = 0 := by
    intro k hk
    have h₁ := h.unlisted k hk
    rw [load_take _ hf] at h₁
    rw [load_append, hqueue, hentered]
    omega
  have hannounced : ∀ j, load (announces D j) (pre ++ post ++ out) ≤ spent D w' j := by
    intro j
    have h₁ := h.announced j
    rw [load_take _ hf] at h₁
    rw [load_append, hann, hspent]
    omega
  refine ⟨hannounced, fun k j hk => ?_, fun k hk => ?_⟩
  · show load (announces D j) (pre ++ post ++ out) + (load (queues D k) (pre ++ post ++ out)
      + entered w' k) ≤ spent D w' j
    rw [hprop, Table.lookup_insert_of] at hk
    split at hk
    · rename_i hkn
      subst hkn
      rw [hrest hn, Nat.add_zero]
      exact hannounced j
    · have h₁ := h.listed k j hk
      rw [load_take _ hf, load_take (queues D k) hf] at h₁
      rw [load_append, hann, load_append (queues D k), hqueue, hentered, hspent]
      omega
  · rw [hprop, Table.lookup_insert_of] at hk
    split at hk
    · cases hk
    · exact hrest hk

/-- The governor. -/
theorem atGovernor (h : Queueing D c) {l : ProposalLog} (hL : Reserving D c l)
    (hf : c.flight = pre ++ m :: post) (hd : m.dst = D.G)
    (hr : World.receive D g c.now m c.st = .ok (w', out)) :
    Queueing D ⟨w', pre ++ post ++ out, c.now⟩ := by
  have hmem : m ∈ c.flight := by simp [hf]
  have hframe := World.receive_framed hr
  have hproposals := hframe.proposals (by simp [hd])
  have htimelock := hframe.timelock (by simp [hd])
  have hann : ∀ j, load (announces D j) out = 0 := fun j => load_eq_zero fun r hr' => by
    refine announces_of_src ?_
    rw [(hframe.out r hr').1, hd]
    simp
  -- most executions leave the list of proposals alone and queue nothing
  have hquiet : w'.governor.proposals = c.st.governor.proposals →
      (∀ r ∈ out, ∀ q, r.body ≠ .timelockQueue q) → Queueing D ⟨w', pre ++ post ++ out, c.now⟩ := by
    intro hprop hout
    refine h.next hf hprop (fun j => ?_) fun n => ?_
    · rw [hann, spent, spent, hproposals]
      omega
    · rw [load_eq_zero fun r hr' => queues_of_body (hout r hr'), entered, entered, htimelock]
      omega
  rcases World.run_eq_ok (World.receive_governor hr hd) with ⟨-, hs, rfl⟩ | ⟨hb, out', hs, rfl⟩
  · refine hquiet ?_ fun r hr' => absurd hr' List.not_mem_nil
    rw [← Except.ok.inj hs]
    unfold Governor.bounced
    split <;> rfl
  · have hgov := Governor.receive_cases hs
    generalize hbody : D.opened m.body = b at hgov
    generalize hs' : w'.governor = s' at hgov
    have hplain : ∀ {a : Address} {value : Nat} {bounce : Bool} {body : Body},
        (∀ q, body ≠ .timelockQueue q) →
        ∀ q, (stamp m.dst ((Ctx.of g c.now m).message a value bounce body)).body
          ≠ .timelockQueue q := fun hno q => hno q
    cases hgov with
    | @deploy msg i hsrc hi =>
        -- the reply under way shows that nothing is registered for its id
        have hsrc' : m.src = D.S := hsrc.trans hL.master
        have hbody' := (hL.opened hmem hb (.inl hsrc')).symm.trans hbody
        have hpend := pendingFor_reply (n := msg.proposalId) hbody' hsrc' hd hb
        rw [if_pos rfl] at hpend
        have hnone : c.st.governor.proposals.lookup msg.proposalId = none := by
          cases hlook : c.st.governor.proposals.lookup msg.proposalId with
          | none => rfl
          | some a =>
              obtain ⟨-, -, -, -, hin⟩ := hL.listed _ _ hlook
              have hcount : 0 < l.registrations msg.proposalId :=
                List.count_pos_iff.mpr (List.mem_map.mpr ⟨_, hin, rfl⟩)
              have honce := hL.once msg.proposalId
              have := le_load (pendingFor D msg.proposalId) hmem
              omega
        refine h.registered hf hnone (by rw [hs']) hproposals htimelock hann fun k =>
          load_eq_zero fun r hr' => ?_
        obtain ⟨r, hrm, rfl⟩ := List.mem_map.mp hr'
        obtain rfl := List.mem_singleton.mp hrm
        exact queues_of_body nofun
    | @queue msg hlook hnew hact =>
        obtain ⟨i, hi, -⟩ := hL.listed _ _ hlook
        have hsrc : m.src = D.addr (.proposal i) := hi
        have hbody' := (hL.opened hmem hb (.inr (.inr ⟨i, hsrc⟩))).symm.trans hbody
        refine h.relayed hf (hi ▸ hlook) ?_ (by rw [hs']) hproposals htimelock hann fun k => ?_
        · simp [announces, hbody', hsrc, hb, hnew, hact]
        · rw [List.map_cons, List.map_nil, load_cons, load_nil, Nat.add_zero]
          have hone := queues_queue (D := D) (n := k)
            (m := stamp m.dst ((Ctx.of g c.now m).message c.st.governor.timelock (milliTon 150) true
              (.timelockQueue { queryId := 0, proposalId := msg.proposalId
                                proposalContract := (Ctx.of g c.now m).sender
                                target := msg.queueTarget, method := msg.queueMethod
                                args := msg.queueArgs, delay := msg.queueDelay }))) rfl hd rfl
          exact hone
    | decline | report => exact hquiet (by rw [hs']) fun r hr' => absurd hr' List.not_mem_nil
    | create | vote | config =>
        refine hquiet (by rw [hs']) fun r hr' => ?_
        obtain rfl := List.mem_singleton.mp hr'
        exact hplain nofun
    | execute =>
        refine hquiet (by rw [hs']) fun r hr' => ?_
        simp only [List.map_cons, List.map_nil, List.mem_cons, List.not_mem_nil, or_false] at hr'
        rcases hr' with rfl | rfl <;> exact hplain nofun
    | idle hcash =>
        refine hquiet (by rw [hs']) fun r hr' => ?_
        obtain ⟨r, hrm, rfl⟩ := List.mem_map.mp hr'
        rw [hcash r hrm]
        exact hplain nofun

/-- A queue message under way finds its id free. -/
theorem free (h : Queueing D c) {l : ProposalLog} (hL : Reserving D c l) (hm : m ∈ c.flight)
    (hs : m.src = D.G) (hb : m.bounced = false) {q : TimelockQueue}
    (hbody : m.body = .timelockQueue q) :
    c.st.timelock.pendingActions.lookup q.proposalId = none := by
  have hone : queues D q.proposalId m = 1 := by rw [queues_queue hbody hs hb, if_pos rfl]
  have hle := le_load (queues D q.proposalId) hm
  have hzero : entered c.st q.proposalId = 0 := by
    cases hlook : c.st.governor.proposals.lookup q.proposalId with
    | none =>
        have := h.unlisted _ hlook
        omega
    | some a =>
        obtain ⟨i, rfl, -⟩ := hL.listed _ _ hlook
        have := h.listed _ _ hlook
        have := spent_le_one (D := D) c.st i
        omega
  unfold entered at hzero
  cases hlook : c.st.timelock.pendingActions.lookup q.proposalId with
  | none => rfl
  | some a =>
      rw [hlook] at hzero
      cases hzero

end Queueing

/-- Nothing is queued twice, in every run in which the governance network keeps its
word. -/
theorem queueing_preserved {treasury : Address}
    (hG : (network D modelled ordered).owns D.G = true)
    (hP : ∀ i, (network D modelled ordered).owns (D.addr (.proposal i)) = true)
    {G : WorldConf → Action Address Body Gas → Prop}
    (hguard : ∀ c a, G c a → Governing D treasury c ∧ ∃ l, Reserving D c l) :
    (network D modelled ordered).Preserves G (Queueing D) where
  send c m h _ hsrc _ := by
    have hzero : ∀ i, load (announces D i) (c.flight ++ [m]) = load (announces D i) c.flight := by
      intro i
      simp [announces_of_src (owns_of_modelled (hP i) hsrc)]
    have hzero' : ∀ n, load (queues D n) (c.flight ++ [m]) = load (queues D n) c.flight := by
      intro n
      simp [queues_of_src (owns_of_modelled hG hsrc)]
    refine ⟨fun i => ?_, fun n i hn => ?_, fun n hn => ?_⟩
    · simp only [hzero]
      exact h.announced i
    · simp only [hzero, hzero']
      exact h.listed n i hn
    · simp only [hzero']
      exact h.unlisted n hn
  ok c i g accept m pre post w' out h hg _ hf _ _ hr := by
    obtain ⟨hI, l, hL⟩ := hguard _ _ hg
    by_cases hdG : m.dst = D.G
    · exact h.atGovernor hL hf hdG hr
    by_cases hdT : m.dst = D.T
    · exact h.atTimelock hI hf hdT hr
    by_cases hdP : ∃ i, m.dst = D.addr (.proposal i)
    · obtain ⟨i, hi⟩ := hdP
      exact h.atProposal hf hi hr
    · exact h.elsewhere hf hdG hdT (fun i hi => hdP ⟨i, hi⟩) hr
  error c i g accept m pre post err h _ _ hf _ _ _ :=
    h.dropped hf fun r hr => (mem_bounceOf hr).2.2.2.2.1
  outside c m pre post h hf _ := by
    rw [← List.append_nil (pre ++ post)]
    exact h.dropped hf fun r hr => absurd hr List.not_mem_nil
  returned c m pre post h hf _ _ := h.dropped hf fun r hr => (mem_bounceOf hr).2.2.2.2.1
  wait c d h _ := ⟨h.announced, h.listed, h.unlisted⟩

end BurnedChats

import BurnedChats.Bootstrap
import BurnedChats.Governance.Actions

/-!
# The delay floor of high-value actions

The floor is checked on the declared method of a queued action, while the body
of an ordinary action is relayed as it is. A spend or a revoke relayed on the
ordinary path still fails: it arrives with 0.12 TON, and both targets ask for
more. On the high-value path the opcode in the body is the declared method, so
what reaches the targets with a budget has waited for the floor.
-/

namespace BurnedChats

open Network Timelock

variable {D : Deployment} {modelled : Part → Bool} {ordered : Address → Address → Bool}

/-! ## The targets -/

section Targets

variable {W : WalletBook} {ctx : Ctx} {b : Body} {out : List Msg}

theorem Treasury.rollbackSpend_eq_ok {s s' : Treasury} {queryId amount : Nat}
    (h : s.rollbackSpend queryId amount = .ok s') :
    s'.timelock = s.timelock ∧ s'.total_spent ≤ s.total_spent := by
  simp only [rollbackSpend, bind_eq_ok, require_eq_ok, exists_const] at h
  obtain ⟨-, h⟩ := h
  split at h
  · cases h
  · split at h
    · cases h
    · simp only [bind_eq_ok, require_eq_ok, exists_const, Except.ok.injEq] at h
      obtain ⟨-, _, -, rfl⟩ := h
      exact ⟨rfl, Nat.sub_le _ _⟩

theorem Treasury.bounced_eq_ok {s s' : Treasury} (h : s.bounced b = .ok s') :
    s'.timelock = s.timelock ∧ s'.total_spent ≤ s.total_spent := by
  cases b with
  | jettonTransfer msg => exact rollbackSpend_eq_ok h
  | _ =>
      obtain rfl := Except.ok.inj h
      exact ⟨rfl, Nat.le_refl _⟩

/-- Only a spend of the timelock with enough TON raises `total_spent`. -/
theorem Treasury.receive_eq_ok {s s' : Treasury} (h : s.receive W ctx b = .ok (s', out)) :
    s'.timelock = s.timelock ∧ (s.total_spent < s'.total_spent →
      ctx.sender = s.timelock ∧ MIN_SPEND_FORWARD ≤ ctx.value ∧ ∃ c, b = .raw c) := by
  unfold receive at h
  split at h
  · obtain ⟨rfl, -⟩ := Prod.mk.inj (Except.ok.inj h)
    exact ⟨rfl, fun hlt => absurd hlt (Nat.lt_irrefl _)⟩
  · simp only [receiveJettonNotification, bind_eq_ok, require_eq_ok, exists_const, Except.ok.injEq,
      Prod.mk.injEq] at h
    obtain ⟨-, rfl, -⟩ := h
    exact ⟨rfl, fun hlt => absurd hlt (Nat.lt_irrefl _)⟩
  · simp only [receiveJettonTransferCommitFailed, bind_eq_ok, require_eq_ok, exists_const,
      Except.ok.injEq, Prod.mk.injEq] at h
    obtain ⟨-, _, h, rfl, -⟩ := h
    obtain ⟨h1, h2⟩ := rollbackSpend_eq_ok h
    exact ⟨h1, fun hlt => absurd hlt (Nat.not_lt.mpr h2)⟩
  · rename_i c
    simp only [bind_eq_ok, Prod.exists] at h
    obtain ⟨op, t, -, h⟩ := h
    split at h
    · simp only [receiveSpend, bind_eq_ok, require_eq_ok, exists_const, Except.ok.injEq,
        Prod.mk.injEq] at h
      obtain ⟨msg, -, hs, -, -, hv, -, rfl, -⟩ := h
      exact ⟨rfl, fun _ => ⟨hs, hv, c, rfl⟩⟩
    · cases h
  · cases h

theorem Vesting.bounced_timelock {s s' : Vesting} (h : s.bounced b = .ok s') :
    s'.timelock = s.timelock := by
  cases b with
  | jettonTransfer msg =>
      simp only [bounced, bind_eq_ok, require_eq_ok, exists_const, Except.ok.injEq] at h
      obtain ⟨-, rfl⟩ := h
      rfl
  | _ =>
      obtain rfl := Except.ok.inj h
      rfl

/-- Only the timelock revokes, with enough TON. -/
theorem Vesting.receive_eq_ok {s s' : Vesting} (h : s.receive W ctx b = .ok (s', out)) :
    s'.timelock = s.timelock ∧ ((∃ c, b = .raw c) →
      ctx.sender = s.timelock ∧ ReleaseTon ≤ ctx.value) := by
  unfold receive at h
  split at h
  · obtain ⟨rfl, -⟩ := Prod.mk.inj (Except.ok.inj h)
    refine ⟨rfl, ?_⟩
    rintro ⟨c, hc⟩
    cases hc
  · simp only [receiveRelease, bind_eq_ok, require_eq_ok, exists_const, Except.ok.injEq,
      Prod.mk.injEq] at h
    obtain ⟨-, _, -, -, rfl, -⟩ := h
    refine ⟨rfl, ?_⟩
    rintro ⟨c, hc⟩
    cases hc
  · simp only [bind_eq_ok, Prod.exists] at h
    obtain ⟨op, t, -, h⟩ := h
    split at h
    · simp only [receiveEmergencyRevoke, bind_eq_ok, require_eq_ok, exists_const, Except.ok.injEq,
        Prod.mk.injEq, Prod.exists] at h
      obtain ⟨_, _, -, hs, hv, -, rfl, -⟩ := h
      exact ⟨rfl, fun _ => ⟨hs, hv⟩⟩
    · cases h
  · cases h

end Targets

/-! ## What the timelock has sent -/

/-- A message the timelock sent while it executed `action`, which was queued at
`queuedAt`. -/
structure Dispatch where
  action : PendingAction
  queuedAt : Nat
  msg : Msg

/-- When each id was last queued, and everything sent on executions. -/
structure FloorLog where
  queuedAt : Nat → Nat
  sent : List Dispatch

namespace FloorLog

def empty : FloorLog := ⟨fun _ => 0, []⟩

/-- The timelock `s` handled a message at `now` and sent `out`. -/
def handle (l : FloorLog) (now : Nat) (s : Timelock) (out : List Msg) : Body → FloorLog
  | .timelockQueue q => { l with queuedAt := Function.update l.queuedAt q.proposalId now }
  | .timelockExecutePending _ id =>
      match s.pendingActions.lookup id with
      | some a => { l with sent := l.sent ++ out.map fun r => ⟨a, l.queuedAt id, r⟩ }
      | none => l
  | _ => l

end FloorLog

def floorRecorder (D : Deployment) : Machine.Recorder Address Body Gas World FloorLog where
  accepted _ now m w r l :=
    if m.dst = D.T ∧ m.bounced = false then l.handle now w.timelock r.2 (D.opened m.body) else l

/-- A message that neither target accepts as a spend or a revoke. -/
def Harmless (m : Msg) : Prop := m.value ≤ TIMELOCK_TARGET_GAS ∨ m.body = .empty

theorem markExecuted_harmless {a : Address} {ctx : Ctx} {action : PendingAction} {queryId : Nat} :
    Harmless (stamp a (markExecuted ctx action queryId)) :=
  .inl (show TIMELOCK_MARK_EXECUTED_GAS ≤ TIMELOCK_TARGET_GAS by decide)

/-- A message sent for a high-value action that has waited for the floor. -/
def Waited (floor now : Nat) (l : FloorLog) (m : Msg) : Prop :=
  ∃ d ∈ l.sent, d.msg = m ∧ highValue d.action.method = true ∧ m.dst = d.action.target
    ∧ d.queuedAt + floor ≤ now ∧ d.queuedAt < now

theorem Waited.mono {floor now now' : Nat} {l l' : FloorLog} {m : Msg}
    (h : Waited floor now l m) (hnow : now ≤ now') (hl : ∀ d ∈ l.sent, d ∈ l'.sent) :
    Waited floor now' l' m := by
  obtain ⟨d, hd, hm, hv, ht, hf, hlt⟩ := h
  exact ⟨d, hl d hd, hm, hv, ht, hf.trans hnow, lt_of_lt_of_le hlt hnow⟩

structure Floored (D : Deployment) (floor : Nat) (c : WorldConf) (l : FloorLog) : Prop where
  fixed : c.st.timelock.highValueDelayFloorSec = floor
  treasury : c.st.treasury.timelock = D.T
  vesting : c.st.vesting.timelock = D.T
  entries : ∀ id a, c.st.timelock.pendingActions.lookup id = some a → highValue a.method = true →
    l.queuedAt id + floor ≤ a.scheduledTime ∧ l.queuedAt id < a.scheduledTime
  flight : ∀ m ∈ c.flight, m.src = D.T → m.bounced = false → Harmless m ∨ Waited floor c.now l m

section Steps

variable {floor : Nat} {c c' : WorldConf} {l l' : FloorLog} {m : Msg} {pre post out : List Msg}
  {w' : World} {g : Gas}

theorem Floored.carry (h : Floored D floor c l) (hnow : c.now ≤ c'.now)
    (hsent : ∀ d ∈ l.sent, d ∈ l'.sent)
    (hfixed : c'.st.timelock.highValueDelayFloorSec = c.st.timelock.highValueDelayFloorSec)
    (hR : c'.st.treasury.timelock = c.st.treasury.timelock)
    (hV : c'.st.vesting.timelock = c.st.vesting.timelock)
    (hentries : ∀ id a, c'.st.timelock.pendingActions.lookup id = some a →
      highValue a.method = true →
      l'.queuedAt id + floor ≤ a.scheduledTime ∧ l'.queuedAt id < a.scheduledTime)
    (hflight : ∀ m ∈ c'.flight, m.src = D.T → m.bounced = false →
      m ∈ c.flight ∨ Harmless m ∨ Waited floor c'.now l' m) : Floored D floor c' l' := by
  refine ⟨hfixed.trans h.fixed, hR.trans h.treasury, hV.trans h.vesting, hentries,
    fun m hm hs hb => ?_⟩
  rcases hflight m hm hs hb with hm | hm
  · exact (h.flight m hm hs hb).imp_right fun hw => hw.mono hnow hsent
  · exact hm

/-- An account other than the timelock accepts a message. -/
theorem Floored.elsewhere (h : Floored D floor c l) (hf : c.flight = pre ++ m :: post)
    (hd : m.dst ≠ D.T) (hr : World.receive D g c.now m c.st = .ok (w', out)) :
    Floored D floor ⟨w', pre ++ post ++ out, c.now⟩ l := by
  have hframe := World.receive_framed hr
  have hT := hframe.timelock hd
  refine h.carry (le_refl _) (fun _ hd => hd) (by simp only [hT]) ?_ ?_ ?_ fun r hr' hs _ => ?_
  · by_cases hR : m.dst = D.R
    · rcases World.run_eq_ok (World.receive_treasury hr hR) with ⟨-, hb, -⟩ | ⟨-, _, hb, -⟩
      · exact (Treasury.bounced_eq_ok hb).1
      · exact (Treasury.receive_eq_ok hb).1
    · rw [hframe.treasury hR]
  · by_cases hV : m.dst = D.V
    · rcases World.run_eq_ok (World.receive_vesting hr hV) with ⟨-, hb, -⟩ | ⟨-, _, hb, -⟩
      · exact Vesting.bounced_timelock hb
      · exact (Vesting.receive_eq_ok hb).1
    · rw [hframe.vesting hV]
  · rw [hT]
    exact h.entries
  · rcases List.mem_append.mp hr' with hr' | hr'
    · exact .inl (mem_rest hf hr')
    · rw [(hframe.out r hr').1] at hs
      exact absurd hs hd

theorem Floored.rejected (h : Floored D floor c l) (hf : c.flight = pre ++ m :: post) :
    Floored D floor ⟨c.st, pre ++ post ++ bounceOf m, c.now⟩ l := by
  refine h.carry (le_refl _) (fun _ hd => hd) rfl rfl rfl h.entries fun r hr _ hb => ?_
  rcases List.mem_append.mp hr with hr | hr
  · exact .inl (mem_rest hf hr)
  · rw [(mem_bounceOf hr).2.2.2.2.1] at hb
    cases hb

/-- The timelock takes a return back. -/
theorem Floored.returned (h : Floored D floor c l) (hf : c.flight = pre ++ m :: post)
    (hs : c.st.timelock.bounced (Ctx.of g c.now m) m.body = .ok w'.timelock)
    (hR : w'.treasury = c.st.treasury) (hV : w'.vesting = c.st.vesting) :
    Floored D floor ⟨w', pre ++ post, c.now⟩ l := by
  rw [bounced_eq, Except.ok.injEq] at hs
  refine h.carry (le_refl _) (fun _ hd => hd) ?_ (by simp only [hR]) (by simp only [hV]) ?_
    fun r hr _ _ => .inl (mem_rest hf hr)
  · simp only [← hs]
    split
    · exact rearm_fixed.2
    · rfl
  · intro id a ha hv
    simp only [← hs] at ha
    split at ha
    · obtain ⟨a', ha', rfl | rfl⟩ := rearm_from ha
      · exact h.entries id a ha' hv
      · exact h.entries id a' ha' hv
    · exact h.entries id a ha hv

/-- The timelock handles a message. -/
theorem Floored.acted (h : Floored D floor c l) (hf : c.flight = pre ++ m :: post)
    {s' : Timelock} (hs : w'.timelock = s') (hR : w'.treasury = c.st.treasury)
    (hV : w'.vesting = c.st.vesting)
    (hact : Acted (Ctx.of g c.now m) c.st.timelock (D.opened m.body) s' out) :
    Floored D floor ⟨w', pre ++ post ++ out.map (stamp m.dst), c.now⟩
      (l.handle c.now c.st.timelock (out.map (stamp m.dst)) (D.opened m.body)) := by
  generalize D.opened m.body = b at hact ⊢
  -- what is left of the flight was there before; only what is sent needs an argument
  have hnew : ∀ {l' : FloorLog}, (∀ r ∈ out, Harmless (stamp m.dst r)
        ∨ Waited floor c.now l' (stamp m.dst r)) →
      ∀ r ∈ pre ++ post ++ out.map (stamp m.dst), r.src = D.T → r.bounced = false →
        r ∈ c.flight ∨ Harmless r ∨ Waited floor c.now l' r := by
    intro l' hout r hr _ _
    rcases List.mem_append.mp hr with hr | hr
    · exact .inl (mem_rest hf hr)
    · obtain ⟨r', hr', rfl⟩ := List.mem_map.mp hr
      exact .inr (hout r' hr')
  have herase : ∀ {id : Nat} {n : Nat} {a : PendingAction},
      (c.st.timelock.pendingActions.erase id).lookup n = some a → highValue a.method = true →
      l.queuedAt n + floor ≤ a.scheduledTime ∧ l.queuedAt n < a.scheduledTime := by
    intro id n a ha hv
    rw [Table.lookup_erase_of] at ha
    split at ha
    · cases ha
    · exact h.entries n a ha hv
  have hkeep : ∀ d ∈ l.sent, d ∈ l.sent := fun _ hd => hd
  cases hact with
  | @queue msg _ hnone hfloor =>
      refine h.carry (le_refl _) hkeep (by simp only [hs]) (by simp only [hR]) (by simp only [hV])
        ?_ (hnew fun r hr => absurd hr List.not_mem_nil)
      intro id a ha hv
      simp only [hs, Table.lookup_insert_of] at ha
      simp only [FloorLog.handle, Function.update_apply]
      split at ha
      · rename_i hid
        obtain rfl := Option.some.inj ha
        obtain ⟨hpos, hle⟩ := hfloor hv
        rw [h.fixed] at hle
        rw [if_pos hid]
        show c.now + floor ≤ c.now + msg.delay ∧ c.now < c.now + msg.delay
        omega
      · rename_i hid
        rw [if_neg hid]
        exact h.entries id a ha hv
  | @dispatch queryId id a cell ha htime hex hv hcell =>
      simp only [FloorLog.handle, ha]
      refine h.carry (le_refl _) (fun d hd => List.mem_append_left _ hd) (by simp only [hs])
        (by simp only [hR]) (by simp only [hV]) ?_ (hnew fun r hr => ?_)
      · intro n a' ha' hv'
        simp only [hs, Table.lookup_insert_of] at ha'
        split at ha'
        · rename_i hn
          obtain rfl := Option.some.inj ha'
          rw [hn]
          exact h.entries id a ha hv
        · exact h.entries n a' ha' hv'
      · simp only [List.mem_cons, List.not_mem_nil, or_false] at hr
        rcases hr with rfl | rfl
        · exact .inl markExecuted_harmless
        · -- the entry is executable, so the floor has passed since it was queued
          obtain ⟨hfloor, hlt⟩ := h.entries id a ha hv
          refine .inr ⟨⟨a, l.queuedAt id, _⟩, List.mem_append_right _ (List.mem_map_of_mem
            (List.mem_map_of_mem (List.mem_cons_of_mem _ (List.mem_cons_self ..)))), rfl, hv, rfl,
            hfloor.trans htime, lt_of_lt_of_le hlt htime⟩
  | @relay queryId id a ha htime hex hv =>
      simp only [FloorLog.handle, ha]
      refine h.carry (le_refl _) (fun d hd => List.mem_append_left _ hd) (by simp only [hs])
        (by simp only [hR]) (by simp only [hV]) ?_ (hnew fun r hr => ?_)
      · intro n a' ha' hv'
        rw [hs] at ha'
        exact herase ha' hv'
      · simp only [List.mem_cons, List.not_mem_nil, or_false] at hr
        rcases hr with rfl | rfl | rfl
        · exact .inl markExecuted_harmless
        · exact .inl (.inl (Nat.le_refl _))
        · exact .inl (.inr rfl)
  | @cancel queryId id a _ ha =>
      refine h.carry (le_refl _) hkeep (by simp only [hs]) (by simp only [hR]) (by simp only [hV])
        ?_ (hnew fun r hr => absurd hr List.not_mem_nil)
      intro n a' ha' hv
      rw [hs] at ha'
      exact herase ha' hv
  | @idle _ hcash =>
      refine h.carry (le_refl _) hkeep (by simp only [hs]) (by simp only [hR]) (by simp only [hV])
        ?_ (hnew fun r hr => .inl (.inr ?_))
      · rw [hs]
        exact h.entries
      · rw [hcash r hr]
        rfl

end Steps

/-! ## Whole runs -/

theorem floor_tracks {floor : Nat} (hown : (network D modelled ordered).owns D.T = true) :
    (network D modelled ordered).Tracks (fun _ _ => True) (floorRecorder D) (Floored D floor) := by
  refine ⟨?send, ?ok, ?error, ?outside, ?returned, ?wait⟩
  case send =>
    intro c l m h _ hsrc _
    refine h.carry (le_refl _) (fun _ hd => hd) rfl rfl rfl h.entries fun r hr hs _ => ?_
    rcases List.mem_append.mp hr with hr | hr
    · exact .inl hr
    · obtain rfl := List.mem_singleton.mp hr
      exact absurd hs (owns_of_modelled hown hsrc)
  case ok =>
    intro c l i g accept m pre post w' out h _ _ hf _ _ hr
    show Floored D floor _ (if m.dst = D.T ∧ m.bounced = false then _ else l)
    by_cases hd : m.dst = D.T
    · have hframe := World.receive_framed hr
      have hR : w'.treasury = c.st.treasury := hframe.treasury (by simp [hd])
      have hV : w'.vesting = c.st.vesting := hframe.vesting (by simp [hd])
      rcases World.run_eq_ok (World.receive_timelock hr hd) with
        ⟨hb, hs, rfl⟩ | ⟨hb, out', hs, rfl⟩
      · rw [if_neg (by simp [hb]), List.append_nil]
        exact h.returned hf hs hR hV
      · rw [if_pos ⟨hd, hb⟩]
        exact h.acted hf rfl hR hV (receive_acted hs)
    · rw [if_neg fun hc => hd hc.1]
      exact h.elsewhere hf hd hr
  case error =>
    intro c l i g accept m pre post err h _ _ hf _ _ _
    exact h.rejected hf
  case outside =>
    intro c l m pre post h hf _
    exact h.carry (le_refl _) (fun _ hd => hd) rfl rfl rfl h.entries fun r hr _ _ =>
      .inl (mem_rest hf hr)
  case returned =>
    intro c l m pre post h hf _ _
    exact h.rejected hf
  case wait =>
    intro c l d h _
    exact h.carry (Nat.le_add_right _ _) (fun _ hd => hd) rfl rfl rfl h.entries fun r hr _ _ =>
      .inl hr

/-- A revoke: an original message to the vesting contract that it reads as such. -/
def Revokes (D : Deployment) (m : Msg) : Prop :=
  m.dst = D.V ∧ m.bounced = false ∧ ∃ cell, D.opened m.body = .raw cell
    ∧ opcodeOf cell = some VestEmergencyRevoke.opcode

/-- An accepted spend or revoke comes from the timelock, with a budget. -/
theorem budget_of_accepted {g : Gas} {now : Nat} {m : Msg} {w w' : World} {out : List Msg}
    (hR : w.treasury.timelock = D.T) (hV : w.vesting.timelock = D.T)
    (hr : World.receive D g now m w = .ok (w', out))
    (h : w.treasury.total_spent < w'.treasury.total_spent ∨ Revokes D m) :
    m.src = D.T ∧ m.bounced = false ∧ TIMELOCK_TARGET_GAS < m.value
      ∧ ∃ cell, D.opened m.body = .raw cell := by
  rcases h with h | ⟨hd, hb, hraw⟩
  · by_cases hd : m.dst = D.R
    · rcases World.run_eq_ok (World.receive_treasury hr hd) with ⟨-, hs, -⟩ | ⟨hb, out', hs, -⟩
      · exact absurd h (Nat.not_lt.mpr (Treasury.bounced_eq_ok hs).2)
      · obtain ⟨hsrc, hvalue, hraw⟩ := (Treasury.receive_eq_ok hs).2 h
        rw [hR] at hsrc
        exact ⟨hsrc, hb, lt_of_lt_of_le (by decide) hvalue, hraw⟩
    · rw [(World.receive_framed hr).treasury hd] at h
      exact absurd h (Nat.lt_irrefl _)
  · obtain ⟨cell, hcell, -⟩ := hraw
    rcases World.run_eq_ok (World.receive_vesting hr hd) with ⟨hb', -, -⟩ | ⟨-, out', hs, -⟩
    · rw [hb] at hb'
      cases hb'
    · obtain ⟨hsrc, hvalue⟩ := (Vesting.receive_eq_ok hs).2 ⟨cell, hcell⟩
      rw [hV] at hsrc
      exact ⟨hsrc, hb, lt_of_lt_of_le (by decide) hvalue, cell, hcell⟩

/-- **The floor holds.** In every run, whatever the governor queues, a message that
raises `total_spent` or revokes the vesting was sent by the timelock for a
high-value action that had been queued for at least the floor. -/
theorem floor_respected {c₀ c : WorldConf} {l : FloorLog}
    (hown : (network D modelled ordered).owns D.T = true)
    (h₀ : c₀.st.timelock.pendingActions = ∅) (hR : c₀.st.treasury.timelock = D.T)
    (hV : c₀.st.vesting.timelock = D.T) (hf₀ : c₀.flight = [])
    (h : (network D modelled ordered).Logged (fun _ _ => True) (floorRecorder D) c₀ .empty c l) :
    ∀ m ∈ c.flight, ∀ g w' out, World.receive D g c.now m c.st = .ok (w', out) →
      (c.st.treasury.total_spent < w'.treasury.total_spent ∨ Revokes D m) →
      Waited c₀.st.timelock.highValueDelayFloorSec c.now l m := by
  have hstart : Floored D c₀.st.timelock.highValueDelayFloorSec c₀ .empty := by
    refine ⟨rfl, hR, hV, fun id a ha _ => ?_, fun m hm => ?_⟩
    · rw [h₀] at ha
      cases ha
    · rw [hf₀] at hm
      cases hm
  have hF := h.invariant (floor_tracks hown) hstart
  intro m hm g w' out hr hacc
  obtain ⟨hsrc, hb, hvalue, cell, hcell⟩ := budget_of_accepted hF.treasury hF.vesting hr hacc
  rcases hF.flight m hm hsrc hb with (hlow | hempty) | hwaited
  · exact absurd hvalue (Nat.not_lt.mpr hlow)
  · rw [hempty] at hcell
    cases hcell
  · exact hwaited

/-- The timelock and both targets are modelled. -/
def highValueContracts : Part → Bool
  | .timelock | .treasury | .vesting => true
  | _ => false

/-- A spend of 300 nano for account 6. -/
def spendBody : Cell :=
  match TreasurySpend.toCell
    { queryId := 0, recipient := account 6, amount := 300, reason := .mk [true] []
      proposalId := 4 } with
  | .ok c => c
  | .error _ => .mk [] []

/-- A spend queued under its own method (4) and one hidden under another method
with no delay (5); both are executed, the second one at once. -/
def spendsQueued : List (Action Address Body Gas) :=
  [.send (external (D₀.addr (.jettonWallet D₀.R D₀.J)) D₀.R (milliTon 100)
     (.jettonNotification { queryId := 0, amount := 1000, sender := account 7
                            forwardPayload := noForwardPayload })),
   .deliver 0 (freeGas 0) true,
   .send (external D₀.G D₀.T (milliTon 1000)
     (.timelockQueue { queryId := 0, proposalId := 4, proposalContract := account 8, target := D₀.R
                       method := TREASURY_SPEND_METHOD, args := spendBody, delay := 172800 })),
   .deliver 0 (freeGas 0) true,
   .send (external D₀.G D₀.T (milliTon 1000)
     (.timelockQueue { queryId := 0, proposalId := 5, proposalContract := account 8, target := D₀.R
                       method := 0, args := spendBody, delay := 0 })),
   .deliver 0 (freeGas 0) true,
   .send (external (account 9) D₀.T (milliTon 9000) (.timelockExecutePending 0 5)),
   .deliver 0 (freeGas (milliTon 8000)) true,
   .deliver 1 (freeGas 0) true,
   .wait 172800,
   .send (external (account 9) D₀.T (milliTon 3000) (.timelockExecutePending 0 4)),
   .deliver 2 (freeGas (milliTon 2900)) true]

/-- The hidden spend has failed; the other one is under way, and accepted. -/
theorem floor_respected_spend :
    ∃ c l m w' out, (network D₀ highValueContracts fun _ _ => false).execLogged (floorRecorder D₀)
        (bootstrapAt 1000) .empty spendsQueued = some (c, l)
      ∧ c.flight[3]? = some m ∧ World.receive D₀ (freeGas 0) c.now m c.st = .ok (w', out)
      ∧ c.st.treasury.total_spent = 0 ∧ w'.treasury.total_spent = 300
      ∧ Waited 172800 c.now l m := by
  have hrun : ((network D₀ highValueContracts fun _ _ => false).execLogged (floorRecorder D₀)
      (bootstrapAt 1000) .empty spendsQueued).bind (fun r => (r.1.flight[3]?).bind fun m =>
        match World.receive D₀ (freeGas 0) r.1.now m r.1.st with
        | .ok (w', _) => some (r.1.st.treasury.total_spent, w'.treasury.total_spent)
        | .error _ => none) = some (0, 300) := by
    decide +kernel
  obtain ⟨⟨c, l⟩, hc, hrun⟩ := Option.bind_eq_some_iff.mp hrun
  obtain ⟨m, hm, hrun⟩ := Option.bind_eq_some_iff.mp hrun
  split at hrun
  · rename_i w' out hr
    obtain ⟨h1, h2⟩ : c.st.treasury.total_spent = 0 ∧ w'.treasury.total_spent = 300 :=
      Prod.mk.inj (Option.some.inj hrun)
    refine ⟨c, l, m, w', out, hc, hm, hr, h1, h2, ?_⟩
    exact floor_respected (by decide +kernel) rfl rfl rfl rfl (Machine.logged_of_exec hc) m
      (List.mem_of_getElem? hm) (freeGas 0) w' out hr (.inl (by omega))
  · cases hrun

end BurnedChats

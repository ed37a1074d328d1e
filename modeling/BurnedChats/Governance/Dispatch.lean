import BurnedChats.Bootstrap
import BurnedChats.Governance.Actions

/-!
# High-value actions are dispatched exactly once

A high-value entry is either waiting or out: dispatched and on its way, on its
way back, or accepted by its target. Counting what is out for an id over the
flight and the accepted dispatches gives zero or one, and it is one exactly when
the entry is flagged. A return takes the one away and re-arms the entry; it
names its entry by the id in its body, and the target it comes from is the
entry's own.

An id that the governor queues again after cancelling it may meet a dispatch of
its former entry; such ids are recorded and nothing is claimed of them.
-/

namespace BurnedChats

open Network Timelock

variable {D : Deployment} {modelled : Part → Bool} {ordered : Address → Address → Bool}

/-! ## What is out -/

/-- A high-value dispatch of `n` on its way to the target. -/
def dispatched (D : Deployment) (n : Nat) (m : Msg) : Nat :=
  if m.src = D.T ∧ m.bounce = true ∧ m.bounced = false ∧ named m.body = some n then 1 else 0

/-- A rejected dispatch of `n` on its way back. -/
def returning (D : Deployment) (n : Nat) (m : Msg) : Nat :=
  if m.dst = D.T ∧ m.bounced = true ∧ named m.body = some n then 1 else 0

def outstanding (D : Deployment) (n : Nat) (m : Msg) : Nat := dispatched D n m + returning D n m

/-- The account a dispatch is sent to, or a return comes from. -/
def peer (m : Msg) : Address := if m.bounced then m.src else m.dst

/-- Dispatches accepted by their targets, and the ids cancelled and queued again
after that. -/
structure DispatchLog where
  accepted : Nat → Nat
  cancelled : Nat → Bool
  requeued : Nat → Bool

namespace DispatchLog

def empty : DispatchLog := ⟨fun _ => 0, fun _ => false, fun _ => false⟩

/-- A message was accepted by an account other than the timelock. -/
def reach (D : Deployment) (m : Msg) (l : DispatchLog) : DispatchLog :=
  { l with accepted := fun n => l.accepted n + dispatched D n m }

/-- The timelock handled a message. -/
def handle (l : DispatchLog) : Body → DispatchLog
  | .timelockQueue q =>
      { l with requeued := fun n => l.requeued n || decide (n = q.proposalId) && l.cancelled n }
  | .timelockCancel _ id => { l with cancelled := fun n => l.cancelled n || decide (n = id) }
  | _ => l

end DispatchLog

def dispatchRecorder (D : Deployment) : Machine.Recorder Address Body Gas World DispatchLog where
  accepted _ _ m _ _ l :=
    if m.dst = D.T then (if m.bounced then l else l.handle (D.opened m.body)) else l.reach D m
  taken _ m l := l.reach D m

/-- How many dispatches of `n` are out. -/
def outFor (D : Deployment) (n : Nat) (flight : List Msg) (l : DispatchLog) : Nat :=
  load (outstanding D n) flight + l.accepted n

theorem outstanding_original {n : Nat} {m : Msg} (hb : m.bounced = false) :
    outstanding D n m = dispatched D n m := by
  simp [outstanding, returning, hb]

theorem outstanding_eq_zero {n : Nat} {m : Msg} (h : m.src ≠ D.T ∨ m.bounce = false)
    (hb : m.bounced = false) : outstanding D n m = 0 := by
  rw [outstanding_original hb, dispatched, if_neg]
  rintro ⟨h1, h2, -⟩
  rcases h with h | h
  · exact h h1
  · rw [h2] at h
    cases h

theorem dispatched_message {n k : Nat} {ctx : Ctx} {target : Address} {value : Nat} {c : Cell}
    (h : named (.raw c) = some k) :
    dispatched D n (stamp D.T (ctx.message target value true (.raw c)))
      = if n = k then 1 else 0 := by
  have hn : k = n ↔ n = k := eq_comm
  simp only [dispatched, stamp_src, stamp_bounce, stamp_bounced, stamp_body, Ctx.message, h,
    Option.some.injEq, true_and, hn]

theorem load_outstanding_zero {n : Nat} {l : List Msg}
    (h : ∀ m ∈ l, (m.src ≠ D.T ∨ m.bounce = false) ∧ m.bounced = false) :
    load (outstanding D n) l = 0 := by
  induction l with
  | nil => rfl
  | cons m l ih =>
      obtain ⟨h1, h2⟩ := h m (List.mem_cons_self ..)
      rw [load_cons, outstanding_eq_zero h1 h2,
        ih fun m' hm' => h m' (List.mem_cons_of_mem _ hm')]

/-- A rejected original comes back as what it was. -/
theorem outstanding_bounceOf {n : Nat} {m : Msg} (hb : m.bounced = false) :
    load (outstanding D n) (bounceOf m) = outstanding D n m := by
  cases hbn : m.bounce with
  | false =>
      rw [outstanding_eq_zero (.inr hbn) hb]
      simp [bounceOf, hbn]
  | true =>
      rw [outstanding_original hb]
      simp only [bounceOf, hbn, hb, Bool.not_false, Bool.and_self, if_true, load_cons, load_nil,
        outstanding]
      simp [dispatched, returning, hbn, hb]

theorem opened_named {b : Body} {n : Nat} (h : named b = some n) : D.opened b = b := by
  cases b with
  | raw c =>
      simp only [named] at h
      split at h
      · rename_i hv
        obtain ⟨h96, hv⟩ := hv
        have hop : opcodeOf c = some (bitsToNat (c.bits.take 32)) := by
          have hload : c.beginParse.loadUint 32
              = .ok (bitsToNat (c.bits.take 32), ⟨c.bits.drop 32, c.refs⟩) :=
            Slice.loadUint_eq_ok.mpr ⟨by simp only [Cell.beginParse]; omega, rfl, rfl⟩
          simp [opcodeOf, Slice.preloadUint, hload]
        simp only [highValue, Bool.or_eq_true, decide_eq_true_eq] at hv
        simp only [Deployment.opened, hop, Option.some.injEq]
        exact if_pos hv
      · cases h
  | _ => rfl

/-! ## The invariant -/

/-- The entry `n`, and what is out for it. -/
structure ExactAt (D : Deployment) (n : Nat) (c : WorldConf) (l : DispatchLog) : Prop where
  keyed : ∀ a, c.st.timelock.pendingActions.lookup n = some a → a.proposalId = n
  ready : ∀ a, c.st.timelock.pendingActions.lookup n = some a → a.executed = true →
    highValue a.method = true ∧ a.scheduledTime ≤ c.now ∧ ∃ cell, rewriteArgs a = .ok cell
  fresh : l.requeued n = false → l.cancelled n = true →
    c.st.timelock.pendingActions.lookup n = none
  live : ∀ a, l.requeued n = false → c.st.timelock.pendingActions.lookup n = some a →
    outFor D n c.flight l = if a.executed then 1 else 0
  gone : l.requeued n = false → c.st.timelock.pendingActions.lookup n = none →
    outFor D n c.flight l ≤ 1 ∧ (l.cancelled n = false → outFor D n c.flight l = 0)
  peers : ∀ a, l.requeued n = false → c.st.timelock.pendingActions.lookup n = some a →
    ∀ m ∈ c.flight, outstanding D n m ≠ 0 → peer m = a.target

def Exact (D : Deployment) (c : WorldConf) (l : DispatchLog) : Prop := ∀ n, ExactAt D n c l

section Steps

variable {n : Nat} {c c' : WorldConf} {l l' : DispatchLog} {m : Msg} {pre post out : List Msg}
  {w' : World} {g : Gas}

/-- The entry stays, and what is out for it stays out. -/
theorem ExactAt.carry (h : ExactAt D n c l)
    (hlook : c'.st.timelock.pendingActions.lookup n = c.st.timelock.pendingActions.lookup n)
    (hnow : c.now ≤ c'.now) (hcan : l'.cancelled n = l.cancelled n)
    (hreq : l'.requeued n = l.requeued n) (hout : outFor D n c'.flight l' = outFor D n c.flight l)
    (hpeer : ∀ m ∈ c'.flight, outstanding D n m ≠ 0 →
      ∃ m' ∈ c.flight, outstanding D n m' ≠ 0 ∧ peer m = peer m') : ExactAt D n c' l' := by
  refine ⟨?_, ?_, ?_, ?_, ?_, ?_⟩
  · rw [hlook]
    exact h.keyed
  · intro a ha hex
    rw [hlook] at ha
    obtain ⟨h1, h2, h3⟩ := h.ready a ha hex
    exact ⟨h1, h2.trans hnow, h3⟩
  · rw [hlook, hreq, hcan]
    exact h.fresh
  · rw [hlook, hreq, hout]
    exact h.live
  · rw [hlook, hreq, hout, hcan]
    exact h.gone
  · intro a hr ha m hm ho
    rw [hlook] at ha
    rw [hreq] at hr
    obtain ⟨m', hm', ho', hp⟩ := hpeer m hm ho
    rw [hp]
    exact h.peers a hr ha m' hm' ho'

/-- There is no entry. -/
theorem ExactAt.erased (hlook : c'.st.timelock.pendingActions.lookup n = none)
    (hgone : l'.requeued n = false → outFor D n c'.flight l' ≤ 1
      ∧ (l'.cancelled n = false → outFor D n c'.flight l' = 0)) : ExactAt D n c' l' := by
  have hno : ∀ a, c'.st.timelock.pendingActions.lookup n ≠ some a := by
    intro a ha
    rw [hlook] at ha
    cases ha
  exact ⟨fun a ha => absurd ha (hno a), fun a ha => absurd ha (hno a), fun _ _ => hlook,
    fun a _ ha => absurd ha (hno a), fun hr _ => hgone hr, fun a _ ha => absurd ha (hno a)⟩

/-- A dispatch is accepted by its target; any other message is not counted. -/
theorem Exact.reached (h : Exact D c l) (hf : c.flight = pre ++ m :: post) (hd : m.dst ≠ D.T)
    (hT : w'.timelock = c.st.timelock)
    (hsrc : ∀ r ∈ out, r.src ≠ D.T ∧ r.bounced = false) :
    Exact D ⟨w', pre ++ post ++ out, c.now⟩ (l.reach D m) := by
  intro n
  have hzero : load (outstanding D n) out = 0 :=
    load_outstanding_zero fun r hr => ⟨.inl (hsrc r hr).1, (hsrc r hr).2⟩
  refine (h n).carry (by simp only [hT]) (le_refl _) rfl rfl ?_ fun r hr ho => ?_
  · have hret : returning D n m = 0 := by simp [returning, hd]
    have htake := load_take (outstanding D n) hf
    simp only [outFor, load_append (outstanding D n) (pre ++ post), hzero, DispatchLog.reach]
    simp only [outstanding, hret] at htake ⊢
    omega
  · rcases List.mem_append.mp hr with hr | hr
    · exact ⟨r, mem_rest hf hr, ho, rfl⟩
    · have hle := le_load (outstanding D n) hr
      omega

/-- A message is rejected and comes back, if it can. -/
theorem Exact.rejected (h : Exact D c l) (hf : c.flight = pre ++ m :: post)
    (hm : m.bounced = false ∨ m.dst ≠ D.T) :
    Exact D ⟨c.st, pre ++ post ++ bounceOf m, c.now⟩ l := by
  intro n
  have htake := load_take (outstanding D n) hf
  cases hb : m.bounced with
  | true =>
      have hnil : bounceOf m = [] := by simp [bounceOf, hb]
      have hd : m.dst ≠ D.T := hm.resolve_left (by simp [hb])
      have h0 : outstanding D n m = 0 := by simp [outstanding, dispatched, returning, hb, hd]
      refine (h n).carry rfl (le_refl _) rfl rfl ?_ fun r hr ho => ?_
      · simp only [hnil, List.append_nil, outFor]
        omega
      · rw [hnil, List.append_nil] at hr
        exact ⟨r, mem_rest hf hr, ho, rfl⟩
  | false =>
      refine (h n).carry rfl (le_refl _) rfl rfl ?_ fun r hr ho => ?_
      · simp only [outFor, load_append (outstanding D n) (pre ++ post), outstanding_bounceOf hb]
        omega
      · rcases List.mem_append.mp hr with hr | hr
        · exact ⟨r, mem_rest hf hr, ho, rfl⟩
        · have hmem : m ∈ c.flight := by simp [hf]
          obtain ⟨-, -, hsrc, -, hrb, -⟩ := mem_bounceOf hr
          refine ⟨m, hmem, ?_, by simp [peer, hrb, hb, hsrc]⟩
          have hle := le_load (outstanding D n) hr
          rw [outstanding_bounceOf hb] at hle
          omega

/-- A return is what is out for its entry, so the entry is flagged, waits for that
return and is re-armed by it. -/
theorem ExactAt.rearmed (h : ExactAt D n c l) (hr : l.requeued n = false) {a : PendingAction}
    (ha : c.st.timelock.pendingActions.lookup n = some a) (hmem : m ∈ c.flight)
    (hm : returning D n m ≠ 0) :
    (c.st.timelock.rearm m.src n).pendingActions.lookup n = some { a with executed := false }
      ∧ outFor D n c.flight l = 1 := by
  have hout : outstanding D n m ≠ 0 := by
    unfold outstanding
    omega
  have hpos : 0 < outFor D n c.flight l := by
    have hle := le_load (outstanding D n) hmem
    unfold outFor
    omega
  have hlive := h.live a hr ha
  have hex : a.executed = true := by
    cases hx : a.executed with
    | true => rfl
    | false =>
        simp only [hx, Bool.false_eq_true, if_false] at hlive
        omega
  have hb : m.bounced = true := by
    by_contra hb
    simp [returning, hb] at hm
  have htgt : m.src = a.target := by
    have hp := h.peers a hr ha m hmem hout
    rwa [peer, hb, if_pos rfl] at hp
  rw [hex, if_pos rfl] at hlive
  exact ⟨rearm_self ha htgt hex, hlive⟩

/-- The timelock takes a return back. -/
theorem Exact.returned (h : Exact D c l) (hf : c.flight = pre ++ m :: post) (hd : m.dst = D.T)
    (hb : m.bounced = true)
    (hs : c.st.timelock.bounced (Ctx.of g c.now m) m.body = .ok w'.timelock) :
    Exact D ⟨w', pre ++ post, c.now⟩ l := by
  intro n
  have hmem : m ∈ c.flight := by simp [hf]
  have htake := load_take (outstanding D n) hf
  have hdis : dispatched D n m = 0 := by simp [dispatched, hb]
  rw [bounced_eq, Except.ok.injEq] at hs
  by_cases hn : named m.body = some n
  · have hret : returning D n m = 1 := by simp [returning, hd, hb, hn]
    have hone : outstanding D n m = 1 := by rw [outstanding, hdis, hret]
    have hT : c.st.timelock.rearm m.src n = w'.timelock := by
      simp only [hn] at hs
      exact hs
    have hout : outFor D n c.flight l = outFor D n (pre ++ post) l + 1 := by
      unfold outFor
      omega
    refine ⟨fun a' ha' => ?_, fun a' ha' hex => ?_, fun hr hcan => ?_, fun a' hr ha' => ?_,
      fun hr hnone => ?_, fun a' hr ha' r hr' ho => ?_⟩
    · rw [← hT] at ha'
      obtain ⟨a, ha, rfl | rfl⟩ := rearm_from ha'
      · exact (h n).keyed a' ha
      · exact (h n).keyed a ha
    · rw [← hT] at ha'
      obtain ⟨a, ha, rfl | rfl⟩ := rearm_from ha'
      · exact (h n).ready a' ha hex
      · cases hex
    · have hnone := (h n).fresh hr hcan
      rw [← hT, rearm_none hnone]
      exact hnone
    · rw [← hT] at ha'
      obtain ⟨a, ha, -⟩ := rearm_from ha'
      obtain ⟨harm, h1⟩ := (h n).rearmed hr ha hmem (by omega)
      rw [ha'] at harm
      rw [Option.some.inj harm]
      simp only [Bool.false_eq_true, if_false]
      omega
    · have hnone' : c.st.timelock.pendingActions.lookup n = none := by
        cases ha : c.st.timelock.pendingActions.lookup n with
        | none => rfl
        | some a =>
            obtain ⟨harm, -⟩ := (h n).rearmed hr ha hmem (by omega)
            rw [hT, hnone] at harm
            cases harm
      obtain ⟨h1, h2⟩ := (h n).gone hr hnone'
      refine ⟨by simp only; omega, fun hcan => ?_⟩
      have := h2 hcan
      simp only
      omega
    · rw [← hT] at ha'
      obtain ⟨a, ha, rfl | rfl⟩ := rearm_from ha'
      · exact (h n).peers a' hr ha r (mem_rest hf hr') ho
      · exact (h n).peers a hr ha r (mem_rest hf hr') ho
  · have hret : returning D n m = 0 := by simp [returning, hn]
    have hzero : outstanding D n m = 0 := by rw [outstanding, hdis, hret]
    refine (h n).carry ?_ (le_refl _) rfl rfl ?_ fun r hr ho => ⟨r, mem_rest hf hr, ho, rfl⟩
    · simp only [← hs]
      split
      · rename_i k hk
        exact rearm_other fun hnk => hn (hnk ▸ hk)
      · rfl
    · simp only [outFor]
      omega

theorem DispatchLog.handle_accepted (l : DispatchLog) (b : Body) :
    (l.handle b).accepted = l.accepted := by
  unfold handle
  split <;> rfl

/-- What the timelock handles is never a dispatch of its own. -/
theorem outstanding_handled {s' : Timelock} (hb : m.bounced = false)
    (hact : Acted (Ctx.of g c.now m) c.st.timelock (D.opened m.body) s' out) (n : Nat) :
    outstanding D n m = 0 := by
  rw [outstanding_original hb, dispatched, if_neg]
  rintro ⟨-, -, -, hn⟩
  rw [opened_named hn] at hact
  cases hm : m.body with
  | raw cell =>
      rw [hm] at hact
      cases hact
  | _ =>
      rw [hm] at hn
      cases hn

/-- The timelock handles a message. -/
theorem Exact.acted (h : Exact D c l) (hf : c.flight = pre ++ m :: post) (hd : m.dst = D.T)
    (hb : m.bounced = false) {s' : Timelock} (hs : w'.timelock = s')
    (hact : Acted (Ctx.of g c.now m) c.st.timelock (D.opened m.body) s' out) :
    Exact D ⟨w', pre ++ post ++ out.map (stamp m.dst), c.now⟩ (l.handle (D.opened m.body)) := by
  intro n
  have hmsg := outstanding_handled (D := D) hb hact n
  have htake := load_take (outstanding D n) hf
  have hout : outFor D n (pre ++ post ++ out.map (stamp m.dst)) (l.handle (D.opened m.body))
      = outFor D n c.flight l + load (outstanding D n) (out.map (stamp m.dst)) := by
    simp only [outFor, DispatchLog.handle_accepted, load_append (outstanding D n) (pre ++ post)]
    omega
  have hsent : (∀ r ∈ out, r.bounce = false) →
      load (outstanding D n) (out.map (stamp m.dst)) = 0 := by
    intro ho
    refine load_outstanding_zero fun r hr => ?_
    obtain ⟨r', hr', rfl⟩ := List.mem_map.mp hr
    exact ⟨.inr (ho r' hr'), rfl⟩
  -- nothing new is out for `n`
  have hkeep : load (outstanding D n) (out.map (stamp m.dst)) = 0 →
      ∀ r ∈ pre ++ post ++ out.map (stamp m.dst), outstanding D n r ≠ 0 → r ∈ c.flight := by
    intro h0 r hr ho
    rcases List.mem_append.mp hr with hr | hr
    · exact mem_rest hf hr
    · have hle := le_load (outstanding D n) hr
      omega
  have hcarry : load (outstanding D n) (out.map (stamp m.dst)) = 0 →
      s'.pendingActions.lookup n = c.st.timelock.pendingActions.lookup n →
      (l.handle (D.opened m.body)).cancelled n = l.cancelled n →
      (l.handle (D.opened m.body)).requeued n = l.requeued n →
      ExactAt D n ⟨w', pre ++ post ++ out.map (stamp m.dst), c.now⟩
        (l.handle (D.opened m.body)) := by
    intro h0 hlook hcan hreq
    refine (h n).carry (by simp only [hs, hlook]) (le_refl _) hcan hreq ?_ fun r hr ho =>
      ⟨r, hkeep h0 r hr ho, ho, rfl⟩
    simp only [hout, h0, Nat.add_zero]
  generalize hbody : D.opened m.body = b at hact hout hcarry ⊢
  cases hact with
  | @queue msg _ hnone hfloor =>
      by_cases hn : n = msg.proposalId
      · subst hn
        have hlook : w'.timelock.pendingActions.lookup msg.proposalId
            = some (entryOf c.now msg) := by
          rw [hs]
          exact AList.lookup_insert ..
        -- an id that was not cancelled before has nothing out when it is queued
        have hfresh : (l.handle (.timelockQueue msg)).requeued msg.proposalId = false →
            l.requeued msg.proposalId = false ∧ l.cancelled msg.proposalId = false := by
          intro hr
          simpa [DispatchLog.handle] using hr
        have hzero : (l.handle (.timelockQueue msg)).requeued msg.proposalId = false →
            outFor D msg.proposalId c.flight l = 0 := by
          intro hr
          obtain ⟨h1, h2⟩ := hfresh hr
          exact ((h _).gone h1 hnone).2 h2
        have hnil : load (outstanding D msg.proposalId)
            (([] : List Msg).map (stamp m.dst)) = 0 := rfl
        refine ⟨fun a ha => ?_, fun a ha hex => ?_, fun hr hcan => ?_, fun a hr ha => ?_,
          fun hr hno => ?_, fun a hr ha r hr' ho => ?_⟩
        · rw [hlook] at ha
          obtain rfl := Option.some.inj ha
          rfl
        · rw [hlook] at ha
          obtain rfl := Option.some.inj ha
          cases hex
        · have := (hfresh hr).2
          simp only [DispatchLog.handle] at hcan
          rw [this] at hcan
          cases hcan
        · rw [hlook] at ha
          obtain rfl := Option.some.inj ha
          simp only [hout, hnil, hzero hr]
          rfl
        · rw [hlook] at hno
          cases hno
        · have hmem := hkeep hnil r hr' ho
          have hle := le_load (outstanding D msg.proposalId) hmem
          have h0 := hzero hr
          simp only [outFor] at h0
          omega
      · refine hcarry rfl ?_ rfl ?_
        · simp [hn]
        · simp [DispatchLog.handle, hn]
  | @dispatch queryId id a cell ha htime hex hv hcell =>
      have hid := (h id).keyed a ha
      have hnamed := named_dispatched hv hcell
      rw [hid] at hnamed
      have hmark : outstanding D n (stamp m.dst (markExecuted (Ctx.of g c.now m) a queryId)) = 0 :=
        outstanding_eq_zero (.inr rfl) rfl
      have hone : outstanding D n (stamp m.dst
          ((Ctx.of g c.now m).message a.target (Ctx.of g c.now m).remaining true (.raw cell)))
          = if n = id then 1 else 0 := by
        rw [outstanding_original rfl, hd]
        exact dispatched_message hnamed
      have hload : load (outstanding D n) ([markExecuted (Ctx.of g c.now m) a queryId,
          (Ctx.of g c.now m).message a.target (Ctx.of g c.now m).remaining true (.raw cell)].map
            (stamp m.dst)) = if n = id then 1 else 0 := by
        rw [List.map_cons, List.map_cons, List.map_nil, load_cons, load_cons, load_nil, hmark, hone]
        omega
      by_cases hn : n = id
      · subst hn
        have hlook : w'.timelock.pendingActions.lookup n = some { a with executed := true } := by
          rw [hs]
          exact AList.lookup_insert ..
        refine ⟨fun a' ha' => ?_, fun a' ha' _ => ?_, fun hr hcan => ?_, fun a' hr ha' => ?_,
          fun hr hno => ?_, fun a' hr ha' r hr' ho => ?_⟩
        · rw [hlook] at ha'
          obtain rfl := Option.some.inj ha'
          exact hid
        · rw [hlook] at ha'
          obtain rfl := Option.some.inj ha'
          exact ⟨hv, htime, cell, hcell⟩
        · have hno := (h n).fresh hr hcan
          rw [ha] at hno
          cases hno
        · rw [hlook] at ha'
          obtain rfl := Option.some.inj ha'
          have hwas := (h n).live a hr ha
          rw [hex] at hwas
          rw [if_pos rfl] at hload
          simp only [hout, hload, hwas]
          rfl
        · rw [hlook] at hno
          cases hno
        · rw [hlook] at ha'
          obtain rfl := Option.some.inj ha'
          simp only [List.map_cons, List.map_nil, List.mem_append, List.mem_cons,
            List.not_mem_nil, or_false] at hr'
          rcases hr' with hr' | rfl | rfl
          · exact (h n).peers a hr ha r (mem_rest hf (List.mem_append.mpr hr')) ho
          · exact absurd hmark ho
          · rfl
      · rw [if_neg hn] at hload
        refine hcarry hload ?_ rfl rfl
        simp [hn]
  | @relay queryId id a ha htime hex hv =>
      have hsil := hsent (by simp [markExecuted, Ctx.message, Ctx.cashback])
      by_cases hn : n = id
      · subst hn
        have hlook : w'.timelock.pendingActions.lookup n = none := by
          rw [hs]
          exact AList.lookup_erase ..
        refine .erased hlook fun hr => ?_
        have hwas := (h n).live a hr ha
        rw [hex] at hwas
        simp only [hout, hsil, hwas]
        exact ⟨by simp, fun _ => rfl⟩
      · refine hcarry hsil ?_ rfl rfl
        simp [hn]
  | @cancel queryId id a _ ha =>
      by_cases hn : n = id
      · subst hn
        have hlook : w'.timelock.pendingActions.lookup n = none := by
          rw [hs]
          exact AList.lookup_erase ..
        refine .erased hlook fun hr => ⟨?_, fun hcan => ?_⟩
        · have hwas := (h n).live a hr ha
          have hnil : load (outstanding D n) (([] : List Msg).map (stamp m.dst)) = 0 := rfl
          simp only [hout, hnil, hwas]
          split <;> omega
        · simp [DispatchLog.handle] at hcan
      · refine hcarry rfl ?_ ?_ rfl
        · simp [hn]
        · simp [DispatchLog.handle, hn]
  | @idle _ hcash =>
      refine hcarry (hsent fun r hr => ?_) rfl rfl rfl
      rw [hcash r hr]
      rfl

end Steps

/-! ## Whole runs -/

/-- A return to the timelock never fails. -/
theorem World.receive_return {g : Gas} {now : Nat} {m : Msg} {w : World} (hd : m.dst = D.T)
    (hb : m.bounced = true) :
    World.receive D g now m w = .ok ({ w with
      timelock := match named m.body with
        | some id => w.timelock.rearm m.src id
        | none => w.timelock }, []) := by
  rw [World.receive_at_timelock hd, World.run, if_pos hb, bounced_eq]
  rfl

theorem dispatch_tracks (hown : (network D modelled ordered).owns D.T = true) :
    (network D modelled ordered).Tracks (fun _ _ => True) (dispatchRecorder D) (Exact D) := by
  refine ⟨?send, ?ok, ?error, ?outside, ?returned, ?wait⟩
  case send =>
    intro c l m h _ hsrc hb n
    have h0 : outstanding D n m = 0 := outstanding_eq_zero (.inl (owns_of_modelled hown hsrc)) hb
    refine (h n).carry rfl (le_refl _) rfl rfl ?_ fun r hr ho => ?_
    · show outFor D n (c.flight ++ [m]) l = outFor D n c.flight l
      simp [outFor, h0]
    · rcases List.mem_append.mp hr with hr | hr
      · exact ⟨r, hr, ho, rfl⟩
      · obtain rfl := List.mem_singleton.mp hr
        exact absurd h0 ho
  case ok =>
    intro c l i g accept m pre post w' out h _ _ hf _ _ hr
    show Exact D _ (if m.dst = D.T then (if m.bounced then l else l.handle (D.opened m.body))
      else l.reach D m)
    by_cases hd : m.dst = D.T
    · rw [if_pos hd]
      rcases World.run_eq_ok (World.receive_timelock hr hd) with
        ⟨hb, hs, rfl⟩ | ⟨hb, out', hs, rfl⟩
      · rw [if_pos hb, List.append_nil]
        exact h.returned hf hd hb hs
      · rw [hb, if_neg Bool.false_ne_true]
        exact h.acted hf hd hb rfl (receive_acted hs)
    · rw [if_neg hd]
      have hframe := World.receive_framed hr
      refine h.reached hf hd (hframe.timelock hd) fun r hr' => ⟨?_, (hframe.out r hr').2⟩
      rw [(hframe.out r hr').1]
      exact hd
  case error =>
    intro c l i g accept m pre post err h _ _ hf _ _ hr
    refine h.rejected hf ?_
    cases hb : m.bounced with
    | false => exact .inl rfl
    | true =>
        refine .inr fun hd => ?_
        have hok := (World.receive_return hd hb).symm.trans
          (show World.receive D g c.now m c.st = .error err from hr)
        cases hok
  case outside =>
    intro c l m pre post h hf hd
    have hreach : Exact D ⟨c.st, pre ++ post ++ [], c.now⟩ (l.reach D m) :=
      h.reached hf (owns_of_modelled hown hd) rfl fun r hr => absurd hr List.not_mem_nil
    rwa [List.append_nil] at hreach
  case returned =>
    intro c l m pre post h hf _ hd
    exact h.rejected hf (.inr (owns_of_modelled hown hd))
  case wait =>
    intro c l d h _ n
    exact (h n).carry rfl (Nat.le_add_right _ _) rfl rfl rfl fun r hr ho => ⟨r, hr, ho, rfl⟩

/-- Anyone who attaches enough can execute `n` from `now` on. -/
def Executable (D : Deployment) (n now : Nat) (w : World) : Prop :=
  ∀ (g : Gas) (now' : Nat) (m : Msg) (queryId : Nat), now ≤ now' → m.dst = D.T →
    m.bounced = false → D.opened m.body = .timelockExecutePending queryId n →
    TIMELOCK_HIGH_VALUE_EXEC_MIN ≤ m.value →
    ∃ w' out, World.receive D g now' m w = .ok (w', out) ∧ load (dispatched D n) out = 1

/-- The entry `n` and its dispatches. -/
structure DispatchedOnce (D : Deployment) (n : Nat) (c : WorldConf) (l : DispatchLog) : Prop where
  once : load (dispatched D n) c.flight + l.accepted n ≤ 1
  flagged : ∀ a, c.st.timelock.pendingActions.lookup n = some a → highValue a.method = true →
    (a.executed = true ↔ 0 < load (outstanding D n) c.flight + l.accepted n)
  rearmed : ∀ a m, c.st.timelock.pendingActions.lookup n = some a → m ∈ c.flight →
    returning D n m = 1 → ∀ g, ∃ w', World.receive D g c.now m c.st = .ok (w', [])
      ∧ w'.timelock.pendingActions.lookup n = some { a with executed := false }
      ∧ Executable D n c.now w'
  others : ∀ m g w' out, m.dst = D.T → m.bounced = true → named m.body ≠ some n →
    World.receive D g c.now m c.st = .ok (w', out) →
    w'.timelock.pendingActions.lookup n = c.st.timelock.pendingActions.lookup n

theorem Timelock.receive_execute {ctx : Ctx} {s : Timelock} {n queryId : Nat} {a : PendingAction}
    {cell : Cell} (ha : s.pendingActions.lookup n = some a) (htime : a.scheduledTime ≤ ctx.now)
    (hex : a.executed = false) (hv : highValue a.method = true)
    (hvalue : TIMELOCK_HIGH_VALUE_EXEC_MIN ≤ ctx.value) (hcell : rewriteArgs a = .ok cell) :
    ∃ s', s.receive ctx (.timelockExecutePending queryId n) = .ok (s',
      [markExecuted ctx a queryId, ctx.message a.target ctx.remaining true (.raw cell)]) := by
  have hcell' : rewriteArgs { a with executed := true } = .ok cell := hcell
  refine ⟨{ s with pendingActions := s.pendingActions.insert n { a with executed := true } }, ?_⟩
  simp only [receive, receiveExecutePending, ha]
  rw [require_pos htime, ok_bind, require_pos hex, ok_bind, if_pos hv, executeHighValue,
    require_pos hvalue, ok_bind]
  simp only [hcell', ok_bind]
  rfl

/-- An armed entry whose time has come, with a body that can be rewritten. -/
theorem executable_of_armed {n now : Nat} {w : World} {a : PendingAction} {cell : Cell}
    (ha : w.timelock.pendingActions.lookup n = some a) (hid : a.proposalId = n)
    (hex : a.executed = false) (hv : highValue a.method = true) (htime : a.scheduledTime ≤ now)
    (hcell : rewriteArgs a = .ok cell) : Executable D n now w := by
  intro g now' m queryId hnow hd hb hbody hvalue
  obtain ⟨s', hs'⟩ : ∃ s', w.timelock.receive (Ctx.of g now' m) (.timelockExecutePending queryId n)
      = .ok (s', [markExecuted (Ctx.of g now' m) a queryId,
        (Ctx.of g now' m).message a.target (Ctx.of g now' m).remaining true (.raw cell)]) :=
    receive_execute ha (htime.trans hnow) hex hv hvalue hcell
  have hnamed := named_dispatched hv hcell
  rw [hid] at hnamed
  have hmark : dispatched D n (stamp D.T (markExecuted (Ctx.of g now' m) a queryId)) = 0 := by
    simp [dispatched, markExecuted, Ctx.message]
  refine ⟨{ w with timelock := s' }, [markExecuted (Ctx.of g now' m) a queryId,
    (Ctx.of g now' m).message a.target (Ctx.of g now' m).remaining true (.raw cell)].map
      (stamp m.dst), ?_, ?_⟩
  · rw [World.receive_at_timelock hd, World.run, hb, if_neg Bool.false_ne_true, hbody, hs']
    rfl
  · rw [hd, List.map_cons, List.map_cons, List.map_nil, load_cons, load_cons, load_nil, hmark,
      dispatched_message hnamed, if_pos rfl]
    rfl

/-- **Exactly one dispatch.** In every run from an empty timelock, for every id that
is not queued again after a cancel: at most one dispatch is under way or
accepted, the entry is flagged exactly while one is out, a return re-arms its
entry, and returns of other entries leave it alone. -/
theorem dispatched_once {c₀ c : WorldConf} {l : DispatchLog} {n : Nat}
    (hown : (network D modelled ordered).owns D.T = true)
    (h₀ : c₀.st.timelock.pendingActions = ∅) (hf₀ : c₀.flight = [])
    (h : (network D modelled ordered).Logged (fun _ _ => True) (dispatchRecorder D)
      c₀ .empty c l) (hn : l.requeued n = false) : DispatchedOnce D n c l := by
  have hstart : Exact D c₀ .empty := by
    intro n
    refine .erased (by rw [h₀]; rfl) fun _ => ?_
    simp [outFor, hf₀, DispatchLog.empty]
  have hE := h.invariant (dispatch_tracks hown) hstart n
  refine ⟨?_, fun a ha _ => ?_, fun a m ha hm hret g => ?_, fun m g w' out hd hb hne hr => ?_⟩
  · have hle : load (dispatched D n) c.flight ≤ load (outstanding D n) c.flight :=
      load_le_load fun m _ => Nat.le_add_right _ _
    have hout : outFor D n c.flight l ≤ 1 := by
      cases ha : c.st.timelock.pendingActions.lookup n with
      | none => exact (hE.gone hn ha).1
      | some a =>
          rw [hE.live a hn ha]
          split <;> omega
    unfold outFor at hout
    omega
  · have hlive := hE.live a hn ha
    unfold outFor at hlive
    rw [hlive]
    cases a.executed <;> simp
  · have hpos : returning D n m ≠ 0 := by omega
    obtain ⟨hlook, hone⟩ := hE.rearmed hn ha hm hpos
    obtain ⟨hd, hb, hname⟩ : m.dst = D.T ∧ m.bounced = true ∧ named m.body = some n := by
      by_contra hcon
      exact hpos (if_neg hcon)
    have hex : a.executed = true := by
      have hlive := hE.live a hn ha
      rw [hone] at hlive
      by_contra hx
      rw [if_neg hx] at hlive
      cases hlive
    obtain ⟨hv, htime, cell, hcell⟩ := hE.ready a ha hex
    have hrcv : World.receive D g c.now m c.st
        = .ok ({ c.st with timelock := c.st.timelock.rearm m.src n }, []) := by
      rw [World.receive_return hd hb, hname]
    exact ⟨_, hrcv, hlook, executable_of_armed hlook (hE.keyed a ha) rfl hv htime hcell⟩
  · rw [World.receive_return hd hb] at hr
    obtain ⟨rfl, -⟩ := Prod.mk.inj (Except.ok.inj hr)
    cases hname : named m.body with
    | none => rfl
    | some k => exact rearm_other fun hnk => hne (hnk ▸ hname)

/-- The timelock is modelled; the governor and all targets are not. -/
def timelockOnly : Part → Bool
  | .timelock => true
  | _ => false

/-- The body of a spend, cut after its query id. -/
def spendArgs : Cell := .mk (natToBits 32 TREASURY_SPEND_METHOD ++ natToBits 64 0) []

def queueSpend (id : Nat) : Msg :=
  external D₀.G D₀.T (milliTon 1000)
    (.timelockQueue { queryId := 0, proposalId := id, proposalContract := account 8, target := D₀.R
                      method := TREASURY_SPEND_METHOD, args := spendArgs, delay := 172800 })

def executeAction (id : Nat) (value : Nat) : Msg :=
  external (account 9) D₀.T value (.timelockExecutePending 0 id)

/-- Action 7 is dispatched, rejected, returned, dispatched again and accepted. -/
def retriedSpend : List (Action Address Body Gas) :=
  [.send (queueSpend 7),
   .deliver 0 (freeGas 0) true,
   .wait 172800,
   .send (executeAction 7 (milliTon 2500)),
   .deliver 0 (freeGas 0) true,
   .deliver 1 (freeGas 0) false,
   .deliver 1 (freeGas 0) true,
   .send (executeAction 7 (milliTon 2500)),
   .deliver 1 (freeGas 0) true,
   .deliver 2 (freeGas 0) true]

theorem dispatched_once_retried :
    ∃ c l, (network D₀ timelockOnly fun _ _ => false).execLogged (dispatchRecorder D₀)
        (bootstrapAt 1000) .empty retriedSpend = some (c, l)
      ∧ l.requeued 7 = false ∧ l.accepted 7 = 1
      ∧ (c.st.timelock.pendingActions.lookup 7).map (·.executed) = some true
      ∧ DispatchedOnce D₀ 7 c l := by
  have hrun : ((network D₀ timelockOnly fun _ _ => false).execLogged (dispatchRecorder D₀)
      (bootstrapAt 1000) .empty retriedSpend).map
      (fun r => (r.2.requeued 7, r.2.accepted 7,
        (r.1.st.timelock.pendingActions.lookup 7).map (·.executed))) = some (false, 1, some true) := by
    decide +kernel
  obtain ⟨⟨c, l⟩, hc, hv⟩ := Option.map_eq_some_iff.mp hrun
  simp only [Prod.mk.injEq] at hv
  obtain ⟨h1, h2, h3⟩ := hv
  exact ⟨c, l, hc, h1, h2, h3, dispatched_once (by decide +kernel) rfl rfl
    (Machine.logged_of_exec hc) h1⟩

end BurnedChats

import BurnedChats.Bootstrap
import BurnedChats.Staking.Orders

/-!
# Master and pool agree

The network view of the books: in every run in which the master's messages reach
the pool in the order sent, the pool's totals are the master's up to the orders
under way, and the pool refuses none of them. Fees, returned payouts and commit
failures may reach the pool at any time; they only raise its balance.
-/

namespace BurnedChats

open Network StakingMaster

variable {D : Deployment} {modelled : Part → Bool} {ordered : Address → Address → Bool}

/-- The orders under way from the master to the pool, oldest first. -/
def orderQueue (D : Deployment) (flight : List Msg) : List Body :=
  (channel D.S D.P flight).filter isOrder

@[simp] theorem orderQueue_append (l l' : List Msg) :
    orderQueue D (l ++ l') = orderQueue D l ++ orderQueue D l' := by
  simp [orderQueue]

theorem orderQueue_sent (out : List Msg) :
    orderQueue D (out.map (stamp D.S)) = orders D.P out := by
  rw [orderQueue, channel_stamp, orders]

theorem orderQueue_foreign {l : List Msg} (h : ∀ r ∈ l, r.src ≠ D.S ∨ r.bounced = true) :
    orderQueue D l = [] := by
  rw [orderQueue, channel_eq_nil fun r hr => (h r hr).imp_right .inr]
  rfl

/-- An order of the master on its way to the pool. -/
def IsOrderMsg (D : Deployment) (m : Msg) : Prop :=
  m.src = D.S ∧ m.dst = D.P ∧ m.bounced = false ∧ isOrder m.body = true

/-- A delivery takes the head off the queue, or nothing. -/
theorem orderQueue_deliver {m : Msg} {pre : List Msg} (post : List Msg) (ho : ordered D.S D.P = true)
    (hbl : ∀ m' ∈ pre, (network D modelled ordered).blocks m m' = false) :
    (IsOrderMsg D m ∧ orderQueue D (pre ++ m :: post) = m.body :: orderQueue D (pre ++ post))
      ∨ (¬ IsOrderMsg D m ∧ orderQueue D (pre ++ m :: post) = orderQueue D (pre ++ post)) := by
  by_cases h : m.src = D.S ∧ m.dst = D.P ∧ m.bounced = false
  · obtain ⟨hs, hd, hb⟩ := h
    have hch : channel D.S D.P (pre ++ m :: post) = m.body :: channel D.S D.P (pre ++ post) :=
      channel_deliver (M := network D modelled ordered) ho hs hd hb hbl
    cases hord : isOrder m.body with
    | true =>
        refine .inl ⟨⟨hs, hd, hb, hord⟩, ?_⟩
        rw [orderQueue, hch, List.filter_cons_of_pos hord, orderQueue]
    | false =>
        refine .inr ⟨fun hm => ?_, ?_⟩
        · exact absurd hm.2.2.2 (by simp [hord])
        · rw [orderQueue, hch, List.filter_cons_of_neg (by simp [hord]), orderQueue]
  · refine .inr ⟨fun hm => h ⟨hm.1, hm.2.1, hm.2.2.1⟩, ?_⟩
    rw [orderQueue, channel_remove_other, orderQueue]
    by_cases hs : m.src = D.S
    · by_cases hd : m.dst = D.P
      · refine .inr (.inr ?_)
        cases hb : m.bounced with
        | true => rfl
        | false => exact absurd ⟨hs, hd, hb⟩ h
      · exact .inr (.inl hd)
    · exact .inl hs

/-- The master's messages are never raw and never ask for a fee to be relayed, and
its payout orders carry the budget of the payout. -/
structure Valued (m : Msg) : Prop where
  typed : ∀ c, m.body ≠ .raw c
  noRelay : ∀ q fee, m.body ≠ .relayStakeFeeAccrual q fee
  budget : (∃ r, m.body = .payRewards r) ∨ (∃ u, m.body = .payUnstake u) →
    StakingPool.PayRewardsTon ≤ m.value

theorem did_valued {ctx : Ctx} {s s' : StakingMaster} {b : Body} {out : List Msg}
    (h : Did ctx s b s' out) : ∀ r ∈ out, Valued r := by
  have hmsg : ∀ {dst v bn b}, (∀ c, b ≠ .raw c) ∧ (∀ q fee, b ≠ .relayStakeFeeAccrual q fee) →
      (∀ m, b ≠ .payRewards m) → (∀ m, b ≠ .payUnstake m) → Valued (ctx.message dst v bn b) := by
    intro dst v bn b h0 h1 h2
    refine ⟨h0.1, h0.2, ?_⟩
    rintro (⟨m, hm⟩ | ⟨m, hm⟩)
    · exact absurd hm (h1 m)
    · exact absurd hm (h2 m)
  have hpay : ∀ {dst bn b}, (∀ c, b ≠ .raw c) ∧ (∀ q fee, b ≠ .relayStakeFeeAccrual q fee) →
      Valued (ctx.message dst GasPayRewards bn b) :=
    fun h0 => ⟨h0.1, h0.2, fun _ => le_refl _⟩
  have hcash : ∀ a, Valued (ctx.cashback a) := fun a => hmsg (by simp) (by simp) (by simp)
  have hpaid : ∀ who reward q, ∀ r ∈ rewardMsgs ctx s who reward q, Valued r := by
    intro who reward q r hr
    unfold rewardMsgs at hr
    split at hr
    · obtain rfl := List.mem_singleton.mp hr
      exact hpay (by simp)
    · cases hr
  have htick : ∀ {s₁ ticked}, tickEmission ctx s = .ok (s₁, ticked) → ∀ r ∈ ticked, Valued r := by
    intro s₁ ticked ht r hr
    obtain ⟨_, -, -, rfl⟩ := tickEmission_spec ht
    split at hr
    · obtain rfl := List.mem_singleton.mp hr
      exact hmsg (by simp) (by simp) (by simp)
    · cases hr
  intro r hr
  cases h with
  | stake _ _ _ _ ht =>
      simp only [List.mem_append, List.mem_cons, List.not_mem_nil, or_false] at hr
      rcases hr with (hr | hr) | rfl | rfl | rfl | rfl
      · exact htick ht r hr
      · exact hpaid _ _ _ r hr
      · exact hmsg (by simp) (by simp) (by simp)
      · exact hmsg (by simp) (by simp) (by simp)
      · exact hmsg (by simp) (by simp) (by simp)
      · exact hcash _
  | unstake ht =>
      simp only [List.mem_append, List.mem_cons, List.not_mem_nil, or_false] at hr
      rcases hr with hr | rfl | rfl | rfl
      · exact htick ht r hr
      · exact hpay (by simp)
      · exact hmsg (by simp) (by simp) (by simp)
      · exact hcash _
  | claim ht =>
      simp only [List.mem_append, List.mem_cons, List.not_mem_nil, or_false] at hr
      rcases hr with (hr | hr) | rfl
      · exact htick ht r hr
      · exact hpaid _ _ _ r hr
      · exact hcash _
  | accrue => cases hr
  | sync => cases hr
  | fund => cases hr
  | relay =>
      obtain rfl := List.mem_singleton.mp hr
      exact hmsg (by simp) (by simp) (by simp)
  | snapshot =>
      obtain rfl := List.mem_singleton.mp hr
      exact hmsg (by simp) (by simp) (by simp)
  | quiet _ _ _ hout =>
      rcases hout r hr with h | ⟨t, h⟩ <;> exact ⟨by simp [h], by simp [h], by simp [h]⟩

/-! ## The invariant -/

/-- The books agree, with the pool in phase `φ` of the queue. -/
structure AgreeAt (D : Deployment) (φ : Pend) (c : WorldConf) : Prop where
  pool : c.st.sm.pool = D.P
  wired : c.st.pool.Wired D.S
  tallied : c.st.sm.Tallied
  valued : ∀ m ∈ c.flight, m.src = D.S → m.bounced = false → Valued m
  backed : c.st.pool.Backed φ
  leads : Leads c.st.pool.tierTotal φ (orderQueue D c.flight) c.st.sm.tierTotalStake

def Agree (D : Deployment) (c : WorldConf) : Prop := ∃ φ, AgreeAt D φ c

theorem opened_order {b : Body} (h : isOrder b = true) : D.opened b = b :=
  opened_of_not_raw fun c hc => by
    rw [hc] at h
    cases h

section Steps

variable {φ : Pend} {c : WorldConf} {m : Msg} {pre post out : List Msg} {w' : World} {g : Gas}

/-- The pool carries out the order at the head of the queue. -/
theorem AgreeAt.accepts (h : AgreeAt D φ c) (hf : c.flight = pre ++ m :: post)
    (hm : IsOrderMsg D m)
    (hq : orderQueue D c.flight = m.body :: orderQueue D (pre ++ post)) (g : Gas) :
    ∃ p' out φ', c.st.pool.receive D.wallets (Ctx.of g c.now m) (D.opened m.body) = .ok (p', out)
      ∧ follow φ m.body = some φ' ∧ p'.Wired D.S ∧ p'.Backed φ'
      ∧ Leads p'.tierTotal φ' (orderQueue D (pre ++ post)) c.st.sm.tierTotalStake := by
  obtain ⟨hs, hd, hb, hord⟩ := hm
  have hl := h.leads
  rw [opened_order hord]
  rw [hq] at hl
  exact StakingPool.order_accepted h.wired hs hord (h.valued m (by simp [hf]) hs hb).budget
    h.backed hl

theorem AgreeAt.receive_ok (h : AgreeAt D φ c) (hf : c.flight = pre ++ m :: post)
    (hm : IsOrderMsg D m)
    (hq : orderQueue D c.flight = m.body :: orderQueue D (pre ++ post)) (g : Gas) :
    ∃ r, World.receive D g c.now m c.st = .ok r := by
  obtain ⟨p', out, φ', hr, -⟩ := h.accepts hf hm hq g
  refine ⟨({ c.st with pool := p' }, out.map (stamp m.dst)), ?_⟩
  simp only [World.receive, hm.2.1, D.partAt_addr, World.run, hm.2.2.1, Bool.false_eq_true, if_false,
    hr, ok_bind]

/-- Carrying it out moves the pool to the next phase. -/
theorem AgreeAt.order (h : AgreeAt D φ c) (hf : c.flight = pre ++ m :: post)
    (hm : IsOrderMsg D m)
    (hq : orderQueue D c.flight = m.body :: orderQueue D (pre ++ post))
    (hr : World.receive D g c.now m c.st = .ok (w', out)) :
    ∃ φ', follow φ m.body = some φ' ∧ AgreeAt D φ' ⟨w', pre ++ post ++ out, c.now⟩ := by
  obtain ⟨p', out', φ', hp, hfol, hw, hback, hl⟩ := h.accepts hf hm hq g
  have hfr := World.receive_framed hr
  have hsm : w'.sm = c.st.sm := hfr.sm (by rw [hm.2.1]; simp)
  rcases World.receive_pool hr hm.2.1 with ⟨hb, -⟩ | ⟨-, out'', hp', -⟩
  · rw [hm.2.2.1] at hb
    cases hb
  have hpool : p' = w'.pool := by
    rw [hp] at hp'
    exact (Prod.mk.inj (Except.ok.inj hp')).1
  subst hpool
  have hsrc : ∀ r ∈ out, r.src ≠ D.S := fun r hr' hs => by
    have := (hfr.out r hr').1.symm.trans hs
    rw [hm.2.1] at this
    simp at this
  refine ⟨φ', hfol, hsm ▸ h.pool, hw, hsm ▸ h.tallied, fun r hr' hs hb => ?_, hback, ?_⟩
  · rcases List.mem_append.mp hr' with hr' | hr'
    · exact h.valued r (mem_rest hf hr') hs hb
    · exact absurd hs (hsrc r hr')
  · rw [orderQueue_append, orderQueue_foreign fun r hr' => .inl (hsrc r hr'), List.append_nil, hsm]
    exact hl

/-- A message that is not an order, executed by the pool. -/
theorem AgreeAt.topped (h : AgreeAt D φ c) (hf : c.flight = pre ++ m :: post)
    (hm : ¬ IsOrderMsg D m) (hd : m.dst = D.P) (hb : m.bounced = false) {p' : StakingPool}
    (hr : c.st.pool.receive D.wallets (Ctx.of g c.now m) (D.opened m.body) = .ok (p', out)) :
    p'.Wired D.S ∧ StakingPool.Topped c.st.pool p' (D.opened m.body) out := by
  -- the master sends no raw bodies, so the pool sees what was sent
  have hmaster : m.src = D.S → D.opened m.body = m.body ∧ isOrder m.body = false
      ∧ ∀ q fee, m.body ≠ .relayStakeFeeAccrual q fee := by
    intro hs
    have hv := h.valued m (by simp [hf]) hs hb
    refine ⟨opened_of_not_raw hv.typed, ?_, hv.noRelay⟩
    cases hord : isOrder m.body with
    | false => rfl
    | true => exact absurd ⟨hs, hd, hb, hord⟩ hm
  refine StakingPool.receive_other h.wired ?_ ?_ hr
  · by_cases hs : m.src = D.S
    · obtain ⟨h1, h2, -⟩ := hmaster hs
      rw [h1]
      exact .inl h2
    · exact .inr hs
  · intro q fee hb' hs
    obtain ⟨h1, -, h3⟩ := hmaster hs
    exact h3 q fee (h1.symm.trans hb')

/-- What a message that is not an order does at the pool: it leaves the totals and
never lowers the balance. -/
theorem AgreeAt.pool_other (h : AgreeAt D φ c) (hf : c.flight = pre ++ m :: post)
    (hm : ¬ IsOrderMsg D m) (hr : World.receive D g c.now m c.st = .ok (w', out)) :
    w'.pool.Wired D.S ∧ w'.pool.totals = c.st.pool.totals
      ∧ c.st.pool.pool_balance ≤ w'.pool.pool_balance := by
  by_cases hd : m.dst = D.P
  · rcases World.receive_pool hr hd with ⟨-, hp, -⟩ | ⟨hb, out', hp, -⟩
    · obtain ⟨h1, h2, h3, -⟩ := StakingPool.bounced_other h.wired m.body
      rw [hp]
      exact ⟨h1, h2, h3⟩
    · obtain ⟨hw, ht⟩ := h.topped hf hm hd hb hp
      exact ⟨hw, ht.totals, (Nat.le_add_right _ _).trans ht.fees⟩
  · rw [(World.receive_framed hr).pool hd]
    exact ⟨h.wired, rfl, le_refl _⟩

theorem AgreeAt.other (h : AgreeAt D φ c) (hf : c.flight = pre ++ m :: post)
    (hm : ¬ IsOrderMsg D m) (hq : orderQueue D c.flight = orderQueue D (pre ++ post))
    (hr : World.receive D g c.now m c.st = .ok (w', out)) :
    AgreeAt D φ ⟨w', pre ++ post ++ out, c.now⟩ := by
  have hfr := World.receive_framed hr
  have hl := h.leads
  rw [hq] at hl
  obtain ⟨hw, htot, hbal⟩ := h.pool_other hf hm hr
  have htt : w'.pool.tierTotal = c.st.pool.tierTotal := by
    funext t
    rw [StakingPool.tierTotal, StakingPool.tierTotal, htot]
  have hb : w'.pool.Backed φ := by
    have := h.backed
    simp only [StakingPool.Backed, StakingPool.totalPrincipal, htt] at this ⊢
    omega
  by_cases hd : m.dst = D.S
  · rcases World.receive_sm hr hd with ⟨-, hsm, rfl⟩ | ⟨hbn, out', hsm, rfl⟩
    · refine ⟨hsm ▸ h.pool, hw, hsm ▸ h.tallied, fun r hr' => ?_, hb, ?_⟩
      · rw [List.append_nil] at hr'
        exact h.valued r (mem_rest hf hr')
      · rw [htt, hsm, List.append_nil]
        exact hl
    · obtain ⟨h1, h2, h3⟩ := did_orders (receive_cases hsm) h.tallied
      rw [h.pool] at h3
      refine ⟨h1.trans h.pool, hw, h2, fun r hr' hs hb' => ?_, hb, ?_⟩
      · rcases List.mem_append.mp hr' with hr' | hr'
        · exact h.valued r (mem_rest hf hr') hs hb'
        · obtain ⟨r', hr'', rfl⟩ := List.mem_map.mp hr'
          have hv := did_valued (receive_cases hsm) r' hr''
          exact ⟨hv.typed, hv.noRelay, hv.budget⟩
      · rw [htt, orderQueue_append, hd, orderQueue_sent]
        exact hl.append h3
  · have hsm := hfr.sm hd
    have hforeign : orderQueue D out = [] :=
      orderQueue_foreign fun r hr' => .inl fun hs => hd ((hfr.out r hr').1.symm.trans hs)
    refine ⟨hsm ▸ h.pool, hw, hsm ▸ h.tallied, fun r hr' hs hb' => ?_, hb, ?_⟩
    · rcases List.mem_append.mp hr' with hr' | hr'
      · exact h.valued r (mem_rest hf hr') hs hb'
      · exact absurd ((hfr.out r hr').1.symm.trans hs) hd
    · rw [htt, hsm, orderQueue_append, hforeign, List.append_nil]
      exact hl

/-- A message is taken away, or returned. -/
theorem AgreeAt.drop (h : AgreeAt D φ c) (hf : c.flight = pre ++ m :: post)
    (hq : orderQueue D c.flight = orderQueue D (pre ++ post))
    (hout : ∀ r ∈ out, r.bounced = true) : AgreeAt D φ ⟨c.st, pre ++ post ++ out, c.now⟩ := by
  refine ⟨h.pool, h.wired, h.tallied, fun r hr hs hb => ?_, h.backed, ?_⟩
  · rcases List.mem_append.mp hr with hr | hr
    · exact h.valued r (mem_rest hf hr) hs hb
    · rw [hout r hr] at hb
      cases hb
  · rw [orderQueue_append, orderQueue_foreign fun r hr => .inr (hout r hr), List.append_nil, ← hq]
    exact h.leads

/-- The environment speaks. -/
theorem AgreeAt.send (h : AgreeAt D φ c) (hsrc : m.src ≠ D.S) :
    AgreeAt D φ { c with flight := c.flight ++ [m] } := by
  refine ⟨h.pool, h.wired, h.tallied, fun r hr hs hb' => ?_, h.backed, ?_⟩
  · rcases List.mem_append.mp hr with hr | hr
    · exact h.valued r hr hs hb'
    · obtain rfl := List.mem_singleton.mp hr
      exact absurd hs hsrc
  · have hnil : orderQueue D [m] = [] := orderQueue_foreign fun r hr => by
      obtain rfl := List.mem_singleton.mp hr
      exact .inl hsrc
    rw [orderQueue_append, hnil, List.append_nil]
    exact h.leads

end Steps

theorem bounceOf_bounced {m r : Msg} (hr : r ∈ bounceOf m) : r.bounced = true :=
  (mem_bounceOf hr).2.2.2.2.1

theorem orderQueue_outside {m : Msg} (pre post : List Msg) (hd : m.dst ≠ D.P) :
    orderQueue D (pre ++ m :: post) = orderQueue D (pre ++ post) := by
  rw [orderQueue, channel_remove_other (.inr (.inl hd)), orderQueue]

/-- An order whose turn it is does not fail; anything that fails is no order. -/
theorem AgreeAt.error {φ : Pend} {c : WorldConf} {m : Msg} {pre post : List Msg} {g : Gas}
    {err : String} (h : AgreeAt D φ c) (ho : ordered D.S D.P = true)
    (hf : c.flight = pre ++ m :: post)
    (hbl : ∀ m' ∈ pre, (network D modelled ordered).blocks m m' = false)
    (hr : World.receive D g c.now m c.st = .error err) :
    orderQueue D c.flight = orderQueue D (pre ++ post) := by
  rcases orderQueue_deliver post ho hbl with ⟨hm, hq⟩ | ⟨-, hq⟩
  · rw [← hf] at hq
    obtain ⟨r, hok⟩ := h.receive_ok hf hm hq g
    rw [hok] at hr
    cases hr
  · rwa [← hf] at hq

theorem agree_preserved (hS : modelled .stakingMaster = true) (hP : modelled .stakingPool = true)
    (ho : ordered D.S D.P = true) :
    (network D modelled ordered).Preserves (fun _ _ => True) (Agree D) := by
  have hownS : (network D modelled ordered).owns D.S = true := by
    simpa [network, Deployment.owns] using hS
  have hownP : (network D modelled ordered).owns D.P = true := by
    simpa [network, Deployment.owns] using hP
  constructor
  case send =>
    rintro c m ⟨φ, h⟩ _ hsrc _
    exact ⟨φ, h.send (owns_of_modelled hownS hsrc)⟩
  case ok =>
    rintro c i g acc m pre post w' out ⟨φ, h⟩ _ _ hf hbl _ hr
    rcases orderQueue_deliver post ho hbl with ⟨hm, hq⟩ | ⟨hm, hq⟩
    · rw [← hf] at hq
      obtain ⟨φ', -, h'⟩ := h.order hf hm hq hr
      exact ⟨φ', h'⟩
    · rw [← hf] at hq
      exact ⟨φ, h.other hf hm hq hr⟩
  case error =>
    rintro c i g acc m pre post err ⟨φ, h⟩ _ _ hf hbl _ hr
    exact ⟨φ, h.drop hf (h.error ho hf hbl hr) fun _ => bounceOf_bounced⟩
  case outside =>
    rintro c m pre post ⟨φ, h⟩ hf hd
    have hq := orderQueue_outside pre post (owns_of_modelled hownP hd)
    have := h.drop hf (hf ▸ hq) (fun r (hr : r ∈ []) => by cases hr)
    exact ⟨φ, by simpa using this⟩
  case returned =>
    rintro c m pre post ⟨φ, h⟩ hf _ hd
    have hq := orderQueue_outside pre post (owns_of_modelled hownP hd)
    exact ⟨φ, h.drop hf (hf ▸ hq) fun _ => bounceOf_bounced⟩
  case wait =>
    rintro c d ⟨φ, h⟩ _
    exact ⟨φ, h.pool, h.wired, h.tallied, h.valued, h.backed, h.leads⟩

/-! ## Whole runs -/

/-- Master and pool wired to each other, nothing staked and nothing under way.
Everything else, the pool's balance included, is arbitrary. -/
structure StakingStart (D : Deployment) (c : WorldConf) : Prop where
  pool : c.st.sm.pool = D.P
  wired : c.st.pool.Wired D.S
  stakes : c.st.sm.stakes = ∅
  masterTotals : c.st.sm.totalStakeByTier = ∅
  poolTotals : c.st.pool.totals = ∅
  flight : c.flight = []

theorem StakingStart.books {c : WorldConf} (h : StakingStart D c) :
    c.st.sm.tierTotalStake = (fun _ => 0) ∧ c.st.pool.tierTotal = fun _ => 0 := by
  refine ⟨?_, ?_⟩ <;> funext t
  · simp [tierTotalStake, h.masterTotals]
  · simp [StakingPool.tierTotal, h.poolTotals]

theorem StakingStart.agree {c : WorldConf} (h : StakingStart D c) : AgreeAt D .settled c := by
  obtain ⟨h1, h2⟩ := h.books
  refine ⟨h.pool, h.wired, fun t => ?_, by simp [h.flight], ?_, ?_⟩
  · simp [h1, staked, h.stakes]
  · simp [StakingPool.Backed, StakingPool.totalPrincipal, h2, tiers]
  · rw [h1, h2, h.flight]
    exact .nil _

/-- **Master and pool agree**, in every run: the master's totals are its
positions, the pool's totals are the master's up to the orders under way, and an
order whose turn it is to be delivered is accepted. -/
theorem master_pool_agree (hS : modelled .stakingMaster = true)
    (hP : modelled .stakingPool = true) (ho : ordered D.S D.P = true) {c₀ c : WorldConf}
    (h₀ : StakingStart D c₀) (h : (network D modelled ordered).Reach c₀ c) :
    (∀ t, c.st.sm.tierTotalStake t = c.st.sm.staked t)
      ∧ (∀ t, c.st.pool.tierTotal t + increments t (orderQueue D c.flight)
        = c.st.sm.tierTotalStake t + decrements t (orderQueue D c.flight))
      ∧ ∀ i g acc m, c.flight[i]? = some m → IsOrderMsg D m →
          ((network D modelled ordered).step c (.deliver i g acc)).isSome →
          ∃ r, World.receive D g c.now m c.st = .ok r := by
  obtain ⟨φ, hag⟩ : Agree D c := h.invariant (agree_preserved hS hP ho) ⟨_, h₀.agree⟩
  refine ⟨hag.tallied, fun t => (replay_balance hag.leads.totals t).symm, fun i g acc m hi hm hstep => ?_⟩
  obtain ⟨c', hstep⟩ := Option.isSome_iff_exists.mp hstep
  rcases Machine.step_cases hstep with ⟨m', hx, -⟩ |
    ⟨i', g', acc', m', pre, post, ha, hi', hf, hbl, -⟩ | ⟨d, hx, -⟩
  · cases hx
  · obtain ⟨rfl, rfl, rfl⟩ := Action.deliver.inj ha
    rw [hi] at hi'
    obtain rfl := Option.some.inj hi'
    rcases orderQueue_deliver post ho hbl with ⟨-, hq⟩ | ⟨hno, -⟩
    · rw [← hf] at hq
      exact hag.receive_ok hf hm hq g
    · exact absurd hm hno
  · cases hx

/-- Account 3 stakes 10 million in tier 1; the pool has seen the increment, not
yet the credit. -/
def stakeHalfDelivered : List (Action Address Body Gas) :=
  [.send (stakeNotice 1 10000000 (account 3) (milliTon 5000)),
   .deliver 0 (freeGas 0) true,
   .deliver 0 (freeGas 0) true]

/-- Only master and pool are modelled, and only their channel is ordered. -/
def stakingParts : Part → Bool
  | .stakingMaster | .stakingPool => true
  | _ => false

def masterToPool (a b : Address) : Bool := decide (a = D₀.S) && decide (b = D₀.P)

theorem master_pool_agree_stake :
    ∃ c, (network D₀ stakingParts masterToPool).exec (bootstrapAt 1000) stakeHalfDelivered = some c
      ∧ c.st.sm.staked 1 = 10000000 ∧ c.st.pool.tierTotal 1 = 10000000
      ∧ (orderQueue D₀ c.flight).length = 1
      ∧ ∀ t, c.st.sm.tierTotalStake t = c.st.sm.staked t := by
  have hrun : ((network D₀ stakingParts masterToPool).exec (bootstrapAt 1000)
      stakeHalfDelivered).map (fun c => (c.st.sm.staked 1, c.st.pool.tierTotal 1,
        (orderQueue D₀ c.flight).length)) = some (10000000, 10000000, 1) := by
    decide +kernel
  obtain ⟨c, hc, hv⟩ := Option.map_eq_some_iff.mp hrun
  obtain ⟨h1, h2, h3⟩ : c.st.sm.staked 1 = 10000000 ∧ c.st.pool.tierTotal 1 = 10000000
      ∧ (orderQueue D₀ c.flight).length = 1 := by simpa using hv
  have hstart : StakingStart D₀ (bootstrapAt 1000) := ⟨rfl, ⟨rfl, rfl⟩, rfl, rfl, rfl, rfl⟩
  exact ⟨c, hc, h1, h2, h3,
    (master_pool_agree rfl rfl (by decide) hstart (Machine.run_of_exec hc)).1⟩

end BurnedChats

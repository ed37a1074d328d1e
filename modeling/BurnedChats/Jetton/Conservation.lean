import BurnedChats.Jetton.Books
import BurnedChats.Jetton.System

/-!
# Conservation of jettons

Every jetton counted in the total supply is in a wallet or under way: in an
undelivered internal transfer, in an undelivered burn notification, or in the
return of one of these. `Sound` is the invariant: the equation itself, what is
known of every deployed wallet, and what is known of every message under way
that carries jettons, so that whoever rejects it has somewhere to return it to.
-/

namespace BurnedChats

open Network

section

variable (W : WalletBook) (J : Address)

/-- A message of the jetton itself: sent by the master or a wallet, or returning
to one. Anybody can send messages that look like these. -/
def genuine (m : Msg) : Bool :=
  if m.bounced then JettonState.owns W J m.dst else JettonState.owns W J m.src

/-- The jettons a message under way carries. -/
def carried (m : Msg) : Int := if genuine W J m then tokens m.body else 0

def circulating (s : JettonState) : Int := Table.sum (fun _ w => w.balance) s.wallets

/-- Both directions of an amount: out, it is bounceable, addressed within the
jetton and its sender exists; on its way back, its recipient exists. -/
structure Carriage (s : JettonState) (m : Msg) : Prop where
  out : m.bounced = false → JettonState.owns W J m.src = true → tokens m.body ≠ 0 →
    m.bounce = true ∧ JettonState.owns W J m.dst = true
      ∧ (m.src = J → ∀ n, m.body ≠ .jettonBurnNotification n)
      ∧ (m.src ≠ J → (s.wallets.lookup m.src).isSome)
  back : m.bounced = true → JettonState.owns W J m.dst = true → tokens m.body ≠ 0 →
    (m.dst = J → ∀ n, m.body ≠ .jettonBurnNotification n)
      ∧ (m.dst ≠ J → (s.wallets.lookup m.dst).isSome)

structure WalletOk (a : Address) (w : BurnJettonWallet) : Prop where
  master : w.master = J
  addr : W.addr w.owner J = a
  nonneg : 0 ≤ w.balance
  config : ConfigOk w.feeConfig

structure Sound (c : JettonConf) : Prop where
  supply : c.st.master.totalSupply = circulating c.st + load (carried W J) c.flight
  cap : c.st.master.totalSupply ≤ BURN_MAX_SUPPLY_NANO
  wallet : ∀ a w, c.st.wallets.lookup a = some w → WalletOk W J a w
  carriage : ∀ m ∈ c.flight, Carriage W J c.st m

end

variable {W : WalletBook} {J : Address}

theorem owns_master : JettonState.owns W J J = true := by simp [JettonState.owns]

theorem owns_addr (o : Address) : JettonState.owns W J (W.addr o J) = true := by
  simp [JettonState.owns]

theorem carried_sent {m : Msg} (hb : m.bounced = false) (ho : JettonState.owns W J m.src = true) :
    carried W J m = tokens m.body := by
  simp [carried, genuine, hb, ho]

theorem carried_foreign {m : Msg} (hb : m.bounced = false)
    (ho : JettonState.owns W J m.src = false) : carried W J m = 0 := by
  simp [carried, genuine, hb, ho]

theorem carried_nonneg (m : Msg) : 0 ≤ carried W J m := by
  unfold carried
  split
  · exact tokens_nonneg _
  · exact le_refl 0

theorem load_carried_nonneg (l : List Msg) : 0 ≤ load (carried W J) l := by
  induction l with
  | nil => exact le_refl 0
  | cons m l ih =>
      rw [load_cons]
      exact add_nonneg (carried_nonneg m) ih

theorem load_carried_sent {l : List Msg}
    (h : ∀ m ∈ l, m.bounced = false ∧ JettonState.owns W J m.src = true) :
    load (carried W J) l = sentTokens l := by
  induction l with
  | nil => rfl
  | cons m l ih =>
      obtain ⟨hb, ho⟩ := h m (List.mem_cons_self ..)
      simp only [load_cons, carried_sent hb ho, ih fun m' hm' => h m' (List.mem_cons_of_mem _ hm')]

namespace Carriage

variable {s s' : JettonState} {m r : Msg}

/-- Wallets are never removed, so carriage survives every step. -/
theorem mono (h : Carriage W J s m)
    (hw : ∀ a, (s.wallets.lookup a).isSome → (s'.wallets.lookup a).isSome) :
    Carriage W J s' m where
  out hb ho ht := by
    obtain ⟨h1, h2, h3, h4⟩ := h.out hb ho ht
    exact ⟨h1, h2, h3, fun hne => hw _ (h4 hne)⟩
  back hb ho ht := by
    obtain ⟨h1, h2⟩ := h.back hb ho ht
    exact ⟨h1, fun hne => hw _ (h2 hne)⟩

/-- A rejected message returns to where it came from. -/
theorem bounceOf (h : Carriage W J s m) (hr : r ∈ bounceOf m) : Carriage W J s r := by
  obtain ⟨-, hb, hsrc, hdst, hrb, hbody⟩ := mem_bounceOf hr
  constructor
  · intro hb'
    rw [hrb] at hb'
    cases hb'
  · intro _ ho ht
    rw [hdst] at ho ⊢
    rw [hbody] at ht ⊢
    exact (h.out hb ho ht).2.2

/-- The return of an original message carries what the message carried. -/
theorem load_bounceOf (h : Carriage W J s m) (hb : m.bounced = false) :
    load (carried W J) (Network.bounceOf m) = carried W J m := by
  cases ho : JettonState.owns W J m.src with
  | false =>
      rw [carried_foreign hb ho]
      unfold Network.bounceOf
      split <;> simp [carried, genuine, ho]
  | true =>
      rw [carried_sent hb ho]
      by_cases ht : tokens m.body = 0
      · unfold Network.bounceOf
        split <;> simp [carried, ht]
      · obtain ⟨hbounce, -⟩ := h.out hb ho ht
        simp [Network.bounceOf, hbounce, hb, carried, genuine, ho]

/-- What leaves the jetton carries nothing. -/
theorem carried_outside (h : Carriage W J s m) (hd : JettonState.owns W J m.dst = false) :
    carried W J m = 0 := by
  cases hb : m.bounced with
  | true => simp [carried, genuine, hb, hd]
  | false =>
      cases ho : JettonState.owns W J m.src with
      | false => exact carried_foreign hb ho
      | true =>
          rw [carried_sent hb ho]
          by_contra ht
          have h2 := (h.out hb ho ht).2.1
          rw [hd] at h2
          cases h2

end Carriage

/-! ## One step -/

theorem walletAt_ok {s : JettonState} {m : Msg} {w : BurnJettonWallet}
    (hs : ∀ a w, s.wallets.lookup a = some w → WalletOk W J a w)
    (h : JettonState.walletAt W J s m = some w) : WalletOk W J m.dst w := by
  unfold JettonState.walletAt at h
  split at h
  · rename_i w' hw
    obtain rfl := Option.some.inj h
    exact hs _ _ hw
  · split at h
    · obtain ⟨o, ho, rfl⟩ := Option.map_eq_some_iff.mp h
      exact ⟨rfl, (W.ownerOf_iff o J m.dst).mp ho, le_refl 0, configOk_empty⟩
    · cases h

/-- The wallet a message finds or creates counts with its balance. -/
theorem circulating_insert {s : JettonState} {m : Msg} {w : BurnJettonWallet}
    (w' : BurnJettonWallet) (h : JettonState.walletAt W J s m = some w) :
    circulating { s with wallets := s.wallets.insert m.dst w' } + w.balance
      = circulating s + w'.balance := by
  unfold JettonState.walletAt at h
  have hsum := Table.sum_insert_add (fun _ (w : BurnJettonWallet) => w.balance) m.dst w' s.wallets
  split at h
  · rename_i v hv
    obtain rfl := Option.some.inj h
    rw [Table.at?_some hv] at hsum
    exact hsum
  · rename_i hv
    split at h
    · obtain ⟨o, ho, rfl⟩ := Option.map_eq_some_iff.mp h
      rw [Table.at?_none hv] at hsum
      exact hsum
    · cases h

theorem isSome_lookup_insert {s : JettonState} {k a : Address} {w : BurnJettonWallet}
    (h : (s.wallets.lookup a).isSome) : ((s.wallets.insert k w).lookup a).isSome := by
  rw [Table.lookup_insert_of]
  split
  · rfl
  · exact h

/-- What a delivery has to show: the message's jettons are accounted for by the
new state and the new messages. -/
theorem Sound.deliver {c : JettonConf} {m : Msg} {pre post out : List Msg} {s' : JettonState}
    (h : Sound W J c) (hf : c.flight = pre ++ m :: post)
    (hsup : s'.master.totalSupply + circulating c.st + carried W J m
      = c.st.master.totalSupply + circulating s' + load (carried W J) out)
    (hcap : s'.master.totalSupply ≤ BURN_MAX_SUPPLY_NANO)
    (hw : ∀ a w, s'.wallets.lookup a = some w → WalletOk W J a w)
    (hmono : ∀ a, (c.st.wallets.lookup a).isSome → (s'.wallets.lookup a).isSome)
    (hout : ∀ r ∈ out, Carriage W J s' r) : Sound W J ⟨s', pre ++ post ++ out, c.now⟩ := by
  refine ⟨?_, hcap, hw, fun r hr => ?_⟩
  · have hs := h.supply
    rw [hf] at hs
    simp only [load_append, load_cons] at hs ⊢
    linarith
  · rcases List.mem_append.mp hr with hr | hr
    · refine (h.carriage r ?_).mono hmono
      rw [hf]
      simp only [List.mem_append, List.mem_cons] at hr ⊢
      tauto
    · exact hout r hr

/-- A wallet execution: books and authenticity give the equation, and what it
sends is again carried properly, since the wallet now exists. -/
theorem Sound.receiveWallet {c : JettonConf} {m : Msg} {pre post out : List Msg}
    {s' : JettonState} {g : Gas} (h : Sound W J c) (hf : c.flight = pre ++ m :: post)
    (_hm : Carriage W J c.st m) (hJ : m.dst ≠ J) (hd : JettonState.owns W J m.dst = true)
    (hr : JettonState.receiveWallet W J g c.now m c.st = .ok (s', out)) :
    Sound W J ⟨s', pre ++ post ++ out, c.now⟩ := by
  unfold JettonState.receiveWallet at hr
  split at hr
  · cases hr
  rename_i w hw
  have hok := walletAt_ok h.wallet hw
  cases hb : m.bounced with
  | true =>
      rw [if_pos hb] at hr
      obtain ⟨rfl, rfl⟩ := Prod.mk.inj (Except.ok.inj hr)
      have hcar : carried W J m = tokens m.body := by simp [carried, genuine, hb, hd]
      refine h.deliver hf ?_ h.cap (fun a v hv => ?_) (fun a => isSome_lookup_insert) (by simp)
      · have hc := circulating_insert (w.bounced m.body) hw
        rw [w.bounced_eq] at hc ⊢
        simp only [hcar, load_nil] at hc ⊢
        linarith
      · rw [Table.lookup_insert_of] at hv
        split at hv
        · rename_i ha
          obtain rfl := Option.some.inj hv
          rw [w.bounced_eq]
          exact ⟨hok.master, ha ▸ hok.addr, add_nonneg hok.nonneg (tokens_nonneg _), hok.config⟩
        · exact h.wallet a v hv
  | false =>
      rw [if_neg (by simp [hb])] at hr
      simp only [bind_eq_ok, Except.ok.injEq, Prod.mk.injEq, Prod.exists] at hr
      obtain ⟨w', out', hr, rfl, rfl⟩ := hr
      have hbk := BurnJettonWallet.receive_books hok.config hok.nonneg hr
      have hsrc : ∀ r ∈ out', r.bounced = false ∧ JettonState.owns W J r.src = true := by
        intro r hr'
        obtain ⟨h1, h2, -⟩ := hbk.sends r hr'
        rw [h1]
        exact ⟨h2, hd⟩
      have hcar : carried W J m = tokens m.body := by
        by_cases ht : tokens m.body = 0
        · unfold carried
          split
          · rfl
          · exact ht.symm
        · refine carried_sent hb ?_
          rcases tokens_ne_zero ht with ⟨t, hbody⟩ | ⟨n, hbody⟩
          · rcases hbk.authentic t hbody with ha | ha
            · rw [show m.src = _ from ha, hok.master]
              exact owns_addr _
            · rw [show m.src = _ from ha, hok.master]
              exact owns_master
          · exact absurd hbody (hbk.noBurn n)
      refine h.deliver hf ?_ h.cap (fun a v hv => ?_) (fun a => isSome_lookup_insert)
        (fun r hr' => ?_)
      · have hc := circulating_insert w' hw
        have hbal := hbk.balance
        rw [hcar, load_carried_sent hsrc]
        linarith
      · rw [Table.lookup_insert_of] at hv
        split at hv
        · rename_i ha
          obtain rfl := Option.some.inj hv
          refine ⟨hbk.master ▸ hok.master, ?_, hbk.nonneg, hbk.config⟩
          rw [hbk.owner, ha]
          exact hok.addr
        · exact h.wallet a v hv
      · obtain ⟨h1, h2, h3, h4⟩ := hbk.sends r hr'
        refine ⟨fun _ _ ht => ?_, fun hb' => by rw [h2] at hb'; cases hb'⟩
        have hex : ((c.st.wallets.insert m.dst w').lookup r.src).isSome := by
          rw [Table.lookup_insert_of, if_pos (show r.src = m.dst from h1)]
          rfl
        have hne : r.src ≠ J := fun hs => hJ ((show r.src = m.dst from h1).symm.trans hs)
        rcases tokens_ne_zero ht with ⟨t, hbody⟩ | ⟨n, hbody⟩
        · obtain ⟨-, hbounce, o, ho⟩ := h3 t hbody
          refine ⟨hbounce, ?_, fun hs => absurd hs hne, fun _ => hex⟩
          rw [ho, hok.master]
          exact owns_addr o
        · obtain ⟨-, hbounce, hdst⟩ := h4 n hbody
          refine ⟨hbounce, ?_, fun hs => absurd hs hne, fun _ => hex⟩
          rw [hdst, hok.master]
          exact owns_master

/-- A master execution. The wallets stay, so only the supply and the sent
amounts move. -/
theorem Sound.receiveMaster {c : JettonConf} {m : Msg} {pre post out : List Msg}
    {s' : JettonState} {g : Gas} (h : Sound W J c) (hf : c.flight = pre ++ m :: post)
    (hm : Carriage W J c.st m) (hJ : m.dst = J)
    (hr : JettonState.receiveMaster W g c.now m c.st = .ok (s', out)) :
    Sound W J ⟨s', pre ++ post ++ out, c.now⟩ := by
  unfold JettonState.receiveMaster at hr
  cases hb : m.bounced with
  | true =>
      rw [if_pos hb] at hr
      obtain ⟨rfl, rfl⟩ := Prod.mk.inj (Except.ok.inj hr)
      have hown : JettonState.owns W J m.dst = true := hJ ▸ owns_master
      have hcar : carried W J m = tokens m.body := by simp [carried, genuine, hb, hown]
      -- burn notifications never return here, so what returns is a mint
      have hbal : (c.st.master.bounced m.body).totalSupply
          = c.st.master.totalSupply - tokens m.body := by
        by_cases ht : tokens m.body = 0
        · rw [ht, sub_zero]
          unfold BurnJettonMaster.bounced
          split
          · rename_i t hbody
            rw [hbody] at ht
            simpa [tokens] using ht
          · rfl
        · rcases tokens_ne_zero ht with ⟨t, hbody⟩ | ⟨n, hbody⟩
          · rw [hbody]
            rfl
          · exact absurd hbody ((hm.back hb hown ht).1 hJ n)
      have ht := tokens_nonneg m.body
      have hcap := h.cap
      refine h.deliver hf ?_ ?_ h.wallet (fun _ => id) (by simp)
      · simp only [hbal, hcar, load_nil, circulating]
        linarith
      · simp only [hbal]
        omega
  | false =>
      rw [if_neg (by simp [hb])] at hr
      simp only [bind_eq_ok, Except.ok.injEq, Prod.mk.injEq, Prod.exists] at hr
      obtain ⟨x', out', hr, rfl, rfl⟩ := hr
      have hbk := BurnJettonMaster.receive_books hr
      have hsrc : ∀ r ∈ out', r.bounced = false ∧ JettonState.owns W J r.src = true := by
        intro r hr'
        obtain ⟨h1, h2, -⟩ := hbk.sends r hr'
        refine ⟨h2, ?_⟩
        rw [show r.src = m.dst from h1, hJ]
        exact owns_master
      have hcar : carried W J m = tokens m.body := by
        by_cases ht : tokens m.body = 0
        · unfold carried
          split
          · rfl
          · exact ht.symm
        · refine carried_sent hb ?_
          rcases tokens_ne_zero ht with ⟨t, hbody⟩ | ⟨n, hbody⟩
          · exact absurd hbody (hbk.noTransfer t)
          · rw [show m.src = W.addr n.sender m.dst from hbk.authentic n hbody, hJ]
            exact owns_addr _
      refine h.deliver hf ?_ (hbk.cap h.cap) h.wallet (fun _ => id) (fun r hr' => ?_)
      · have hs := hbk.supply
        rw [hcar, load_carried_sent hsrc]
        simp only [circulating] at hs ⊢
        linarith
      · obtain ⟨h1, h2, h3, h4⟩ := hbk.sends r hr'
        refine ⟨fun _ _ ht => ?_, fun hb' => by rw [h2] at hb'; cases hb'⟩
        rcases tokens_ne_zero ht with ⟨t, hbody⟩ | ⟨n, hbody⟩
        · obtain ⟨hbounce, o, ho⟩ := h3 t hbody
          refine ⟨hbounce, ?_, fun _ => h4, fun hne => ?_⟩
          · rw [ho, show (Ctx.of g c.now m).myAddress = J from hJ]
            exact owns_addr o
          · exact absurd ((show r.src = m.dst from h1).trans hJ) hne
        · exact absurd hbody (h4 n)

/-- A rejected message: an original one returns what it carried, and a return is
only rejected when it carries nothing. -/
theorem Sound.reject {c : JettonConf} {m : Msg} {pre post : List Msg} (h : Sound W J c)
    (hf : c.flight = pre ++ m :: post) (hm : Carriage W J c.st m)
    (hret : m.bounced = true → carried W J m = 0) :
    Sound W J ⟨c.st, pre ++ post ++ bounceOf m, c.now⟩ := by
  refine h.deliver hf ?_ h.cap h.wallet (fun _ => id) (fun r hr => hm.bounceOf hr)
  cases hb : m.bounced with
  | false => rw [hm.load_bounceOf hb]
  | true => simp [hret hb, bounceOf, hb]

theorem carried_of_receive_error {s : JettonState} {m : Msg} {g : Gas} {now : Nat} {err : String}
    (hm : Carriage W J s m) (hb : m.bounced = true) (hd : JettonState.owns W J m.dst = true)
    (h : JettonState.receive W J g now m s = .error err) : carried W J m = 0 := by
  by_contra ht
  have ht' : tokens m.body ≠ 0 := fun h0 => ht (by simp [carried, h0])
  obtain ⟨-, hex⟩ := hm.back hb hd ht'
  unfold JettonState.receive at h
  split at h
  · simp [JettonState.receiveMaster, hb] at h
  · rename_i hJ
    obtain ⟨w, hw⟩ := Option.isSome_iff_exists.mp (hex hJ)
    simp [JettonState.receiveWallet, JettonState.walletAt, hw, hb] at h

theorem sound_preserved : (jettonMachine W J).Preserves (fun _ _ => True) (Sound W J) where
  send c m h _ ho hb := by
    refine ⟨?_, h.cap, h.wallet, fun r hr => ?_⟩
    · simpa [carried_foreign hb ho] using h.supply
    · rcases List.mem_append.mp hr with hr | hr
      · exact h.carriage r hr
      · obtain rfl := List.mem_singleton.mp hr
        refine ⟨fun _ ho' => ?_, fun hb' => ?_⟩
        · rw [show JettonState.owns W J r.src = false from ho] at ho'
          cases ho'
        · rw [hb] at hb'
          cases hb'
  ok c i e acc m pre post s' out h _ _ hf _ hd hr := by
    have hm := h.carriage m (by simp [hf])
    simp only [jettonMachine, JettonState.receive] at hr
    split at hr
    · exact h.receiveMaster hf hm (by assumption) hr
    · exact h.receiveWallet hf hm (by assumption) hd hr
  error c i e acc m pre post err h _ _ hf _ hd hr := by
    have hm := h.carriage m (by simp [hf])
    exact h.reject hf hm fun hb => carried_of_receive_error hm hb hd hr
  outside c m pre post h hf hd := by
    have hm := h.carriage m (by simp [hf])
    have hnil : ∀ r ∈ ([] : List Msg), Carriage W J c.st r := by simp
    have := h.deliver hf (by simp [hm.carried_outside hd]) h.cap h.wallet (fun _ => id) hnil
    simpa using this
  returned c m pre post h hf _ hd := by
    have hm := h.carriage m (by simp [hf])
    exact h.reject hf hm fun _ => hm.carried_outside hd
  wait c d h _ := ⟨h.supply, h.cap, h.wallet, h.carriage⟩

/-! ## A closed mint -/

theorem receive_closed {s s' : JettonState} {m : Msg} {g : Gas} {now : Nat} {out : List Msg}
    (h : JettonState.receive W J g now m s = .ok (s', out)) (hc : s.master.mintable = false) :
    s'.master.mintable = false ∧ s'.master.totalSupply ≤ s.master.totalSupply := by
  unfold JettonState.receive at h
  split at h
  · unfold JettonState.receiveMaster at h
    split at h
    · obtain ⟨rfl, -⟩ := Prod.mk.inj (Except.ok.inj h)
      simp only [BurnJettonMaster.bounced]
      split
      · exact ⟨hc, by simp only; omega⟩
      · exact ⟨hc, le_refl _⟩
    · simp only [bind_eq_ok, Except.ok.injEq, Prod.mk.injEq, Prod.exists] at h
      obtain ⟨x', out', hr, rfl, rfl⟩ := h
      exact (BurnJettonMaster.receive_books hr).closed hc
  · unfold JettonState.receiveWallet at h
    split at h
    · cases h
    · split at h
      · obtain ⟨rfl, -⟩ := Prod.mk.inj (Except.ok.inj h)
        exact ⟨hc, le_refl _⟩
      · simp only [bind_eq_ok, Except.ok.injEq, Prod.mk.injEq, Prod.exists] at h
        obtain ⟨w', out', -, rfl, rfl⟩ := h
        exact ⟨hc, le_refl _⟩

theorem closed_preserved (k : Int) : (jettonMachine W J).Preserves (fun _ _ => True)
    fun c => c.st.master.mintable = false ∧ c.st.master.totalSupply ≤ k where
  send _ _ h _ _ _ := h
  ok c i e acc m pre post s' out h _ _ _ _ _ hr := by
    obtain ⟨h1, h2⟩ := receive_closed hr h.1
    exact ⟨h1, h2.trans h.2⟩
  error _ _ _ _ _ _ _ _ h _ _ _ _ _ _ := h
  outside _ _ _ _ h _ _ := h
  returned _ _ _ _ h _ _ _ := h
  wait _ _ h _ := h

/-! ## Whole runs -/

/-- The jetton before anything happened: no supply, nothing under way, and
wallets, if any, just deployed. The master's configuration is arbitrary. -/
structure JettonStart (W : WalletBook) (J : Address) (c : JettonConf) : Prop where
  supply : c.st.master.totalSupply = 0
  wallets : ∀ a w, c.st.wallets.lookup a = some w →
    ∃ o, W.addr o J = a ∧ w = BurnJettonWallet.init o J
  flight : c.flight = []

theorem JettonStart.sound {c : JettonConf} (h : JettonStart W J c) : Sound W J c := by
  refine ⟨?_, ?_, fun a w hw => ?_, by simp [h.flight]⟩
  · have h0 : circulating c.st = 0 := by
      unfold circulating
      rw [Table.sum_congr (g := fun _ _ => 0), Table.sum_zero]
      intro a w hw
      obtain ⟨o, -, rfl⟩ := h.wallets a w hw
      rfl
    simp [h.supply, h0, h.flight]
  · rw [h.supply]
    simp [BURN_MAX_SUPPLY_NANO]
  · obtain ⟨o, ho, rfl⟩ := h.wallets a w hw
    exact ⟨rfl, ho, le_refl 0, configOk_empty⟩

/-- The `i`-th undelivered message is a `CloseMint` that the master accepts. -/
def closesMint (W : WalletBook) (J : Address) (c : JettonConf) (i : Nat) (g : Gas) : Prop :=
  ∃ m q r, c.flight[i]? = some m ∧ m.dst = J ∧ m.bounced = false ∧ m.body = .closeMint q
    ∧ JettonState.receive W J g c.now m c.st = .ok r

theorem mintable_of_closesMint {c c' : JettonConf} {i : Nat} {g : Gas} {acc : Bool}
    (h : closesMint W J c i g) (hs : (jettonMachine W J).step c (.deliver i g acc) = some c') :
    c'.st.master.mintable = false := by
  obtain ⟨m, q, r, hm, hJ, hb, hbody, hr⟩ := h
  simp only [Machine.step, hm] at hs
  split at hs
  · cases hs
  · obtain rfl := Option.some.inj hs
    have hown : (jettonMachine W J).owns m.dst = true := hJ ▸ owns_master (W := W)
    have hr' : (jettonMachine W J).receive g c.now m c.st = .ok r := hr
    simp only [Machine.turn, hown, if_true, hr']
    simp only [JettonState.receive, hJ, if_true, JettonState.receiveMaster, hb,
      Bool.false_eq_true, if_false, hbody, BurnJettonMaster.receive, bind_eq_ok, require_eq_ok,
      exists_const, Except.ok.injEq] at hr
    obtain ⟨⟨x, out⟩, ⟨-, hx⟩, rfl⟩ := hr
    obtain ⟨rfl, -⟩ := Prod.mk.inj hx
    rfl

/-- **Conservation of jettons**, in every run from the start: the supply is what
the wallets hold plus what is under way, nothing is ever negative, the cap
holds, and after an accepted `CloseMint` the supply only ever falls. -/
theorem jetton_conservation {c₀ c : JettonConf} (h₀ : JettonStart W J c₀)
    (h : (jettonMachine W J).Reach c₀ c) :
    c.st.master.totalSupply = circulating c.st + load (carried W J) c.flight
      ∧ (∀ a w, c.st.wallets.lookup a = some w → 0 ≤ w.balance)
      ∧ 0 ≤ c.st.master.totalSupply
      ∧ c.st.master.totalSupply ≤ 1000 * 10 ^ 9
      ∧ ∀ i g acc c₁ c₂ c₃, closesMint W J c i g →
          (jettonMachine W J).step c (.deliver i g acc) = some c₁ →
          (jettonMachine W J).Reach c₁ c₂ → (jettonMachine W J).Reach c₂ c₃ →
          c₃.st.master.totalSupply ≤ c₂.st.master.totalSupply := by
  have hs : Sound W J c := h.invariant sound_preserved h₀.sound
  have hbal : ∀ a w, c.st.wallets.lookup a = some w → 0 ≤ w.balance :=
    fun a w hw => (hs.wallet a w hw).nonneg
  refine ⟨hs.supply, hbal, ?_, hs.cap, fun i g acc c₁ c₂ c₃ hcl hstep h12 h23 => ?_⟩
  · rw [hs.supply]
    exact add_nonneg (Table.sum_nonneg hbal) (load_carried_nonneg _)
  · have h1 := mintable_of_closesMint hcl hstep
    obtain ⟨h2, -⟩ := h12.invariant (closed_preserved _) ⟨h1, le_refl _⟩
    exact (h23.invariant (closed_preserved _) ⟨h2, le_refl _⟩).2

/-- A master at account 0, administered by account 2. -/
def freshJetton : JettonConf :=
  ⟨⟨.fromInitDeployed (account 2) (account 2) .empty, ∅⟩, [], 0⟩

/-- The administrator mints 7 jettons to account 4 and closes the mint; the
minted jettons are still under way. -/
def mintAndClose : List (Action Address Body Gas) :=
  [.send
    { src := account 2, dst := account 0, value := milliTon 1000, bounce := true
      bounced := false, deploy := false
      body := .mint { queryId := 0, receiver := account 4, mintMessage :=
        { queryId := 0, amount := 7, sender := account 0, responseDestination := none
          forwardTonAmount := 0, forwardPayload := noForwardPayload } } },
   .deliver 0 ⟨0, 0, 0, 0, 0⟩ true,
   .send
    { src := account 2, dst := account 0, value := milliTon 1000, bounce := true
      bounced := false, deploy := false, body := .closeMint 0 },
   .deliver 1 ⟨0, 0, 0, 0, 0⟩ true]

theorem jetton_conservation_mint :
    ∃ c, (jettonMachine .numbered (account 0)).exec freshJetton mintAndClose = some c
      ∧ c.st.master.totalSupply = 7
      ∧ c.st.master.totalSupply
        = circulating c.st + load (carried .numbered (account 0)) c.flight := by
  have h7 : ((jettonMachine .numbered (account 0)).exec freshJetton mintAndClose).map
      (·.st.master.totalSupply) = some 7 := by decide +kernel
  obtain ⟨c, hc, hs⟩ := Option.map_eq_some_iff.mp h7
  have hstart : JettonStart .numbered (account 0) freshJetton :=
    ⟨rfl, fun a w hw => by simp [freshJetton] at hw, rfl⟩
  exact ⟨c, hc, hs, (jetton_conservation hstart (Machine.run_of_exec hc)).1⟩

end BurnedChats

import BurnedChats.Jetton.Transfers
import Mathlib.Algebra.Order.Group.Multiset
import Mathlib.Tactic.Abel

/-!
# The fate of a transfer

Followed through its stages (`underway`), every transfer an owner has sent to its
wallet is on its way, carried out, or refused with a signal to the owner, and only
one of the three (`transfers_settle`). The accounting is by query id and amount,
with multiplicity: an owner may use a query id twice.

The condition (`unhindered`) is what the code does not check in time: a transfer
that its owner sends without the bounce flag, a resolution without the TON it
needs, and a commit that finds a fee destination off the base chain.
-/

namespace BurnedChats

open Network

/-! ## Stages and outcomes -/

section Stages

variable (D : Deployment) (O : Address)

/-- The wallet of the owner `O`. -/
abbrev walletOf : Address := D.addr (.jettonWallet O D.J)

/-- A transfer that the owner asks its wallet for. -/
def issued (m : Msg) : Multiset Key :=
  match m.bounced, D.opened m.body with
  | false, .jettonTransfer t =>
      if m.src = O ∧ m.dst = walletOf D O then {(t.queryId, t.amount)} else 0
  | _, _ => 0

/-- A transfer of the owner on its way, in one of its three stages. -/
def underway (m : Msg) : Multiset Key :=
  match m.bounced, D.opened m.body with
  | false, .jettonTransfer t =>
      if m.src = O ∧ m.dst = walletOf D O then {(t.queryId, t.amount)} else 0
  | false, .resolveJettonTransfer t =>
      if m.src = walletOf D O ∧ m.dst = D.J then {(t.queryId, t.amount)} else 0
  | false, .commitJettonTransfer t =>
      if m.src = D.J ∧ m.dst = walletOf D O then {(t.queryId, t.amount)} else 0
  | _, _ => 0

/-- A failure signal of the wallet to its owner: a returned transfer, or the
report of a failed commit. -/
def signal (m : Msg) : Multiset Key :=
  match m.bounced, D.opened m.body with
  | true, .jettonTransfer t =>
      if m.src = walletOf D O ∧ m.dst = O then {(t.queryId, t.amount)} else 0
  | false, .jettonTransferCommitFailed queryId amount =>
      if m.src = walletOf D O ∧ m.dst = O then {(queryId, amount)} else 0
  | _, _ => 0

def balanceAt (w : World) (a : Address) : Int :=
  match w.jetton.wallets.lookup a with
  | some x => x.balance
  | none => 0

/-- The transfer that an accepted message has carried out: the wallet paid its
amount, and the legs it sent carry the same amount. -/
def carriedOut (m : Msg) (w : World) (r : World × List Msg) : Multiset Key :=
  match m.bounced, (D.opened m.body).asks with
  | false, some (queryId, amount) =>
      if m.dst = walletOf D O
          ∧ balanceAt r.1 (walletOf D O) = balanceAt w (walletOf D O) - amount
          ∧ sentTokens r.2 = amount then {(queryId, amount)} else 0
  | _, _ => 0

/-- The failure signals of an execution that left the balance alone. -/
def signalled (w : World) (r : World × List Msg) : Multiset Key :=
  if balanceAt r.1 (walletOf D O) = balanceAt w (walletOf D O) then load (signal D O) r.2 else 0

end Stages

/-- The transfers of one owner. -/
structure Transfers where
  sent : Multiset Key
  executed : Multiset Key
  refused : Multiset Key
  deriving DecidableEq

/-- Logs what the owner sends, what its wallet carries out, and which failures
it signals. -/
def transfersRecorder (D : Deployment) (O : Address) :
    Machine.Recorder Address Body Gas World Transfers where
  accepted _ _ m w r l :=
    { sent := l.sent + load (issued D O) r.2
      executed := l.executed + carriedOut D O m w r
      refused := l.refused + signalled D O w r }
  sent m l := { l with sent := l.sent + issued D O m }
  rejected m l := { l with refused := l.refused + load (signal D O) (bounceOf m) }

/-- The transfers of `O` are sent bounceable; their resolutions reach the master
with the TON they need; and a commit that would be carried out finds both fee
destinations on the base chain. -/
def unhindered (D : Deployment) (O : Address) (w : World) (now : Nat) (g : Gas) (m : Msg) : Bool :=
  match m.bounced, D.opened m.body with
  | false, .jettonTransfer _ => !decide (m.src = O ∧ m.dst = walletOf D O) || m.bounce
  | false, .resolveJettonTransfer _ =>
      !decide (m.src = walletOf D O ∧ m.dst = D.J)
        || decide (BurnJettonMaster.cfgPushTon + milliTon 50 < m.value)
  | false, .commitJettonTransfer t =>
      !decide (m.src = D.J ∧ m.dst = walletOf D O) ||
        match w.jetton.wallets.lookup (walletOf D O) with
        | some x => x.sinksReachable (Ctx.of g now m) t
        | none => true
  | _, _ => true

section Runs

variable {D : Deployment} {O : Address} {modelled : Part → Bool}
  {ordered : Address → Address → Bool}

theorem opened_quiet {b : Body} (h : b.proceeds = false) : D.opened b = b :=
  opened_of_not_raw fun c hc => by rw [hc] at h; cases h

theorem issued_quiet {m : Msg} (h : m.body.proceeds = false) : issued D O m = 0 := by
  unfold issued
  rw [opened_quiet h]
  split
  · rename_i hb
    rw [hb] at h
    cases h
  · rfl

theorem underway_quiet {m : Msg} (h : m.body.proceeds = false) : underway D O m = 0 := by
  unfold underway
  rw [opened_quiet h]
  split
  case h_4 => rfl
  all_goals
    rename_i hb
    rw [hb] at h
    cases h

theorem signal_quiet {m : Msg} (h : m.body.proceeds = false) : signal D O m = 0 := by
  unfold signal
  rw [opened_quiet h]
  split
  case h_3 => rfl
  all_goals
    rename_i hb
    rw [hb] at h
    cases h

theorem load_quiet {f : Msg → Multiset Key} (hf : ∀ {m : Msg}, m.body.proceeds = false → f m = 0)
    {out : List Msg} (h : ∀ m ∈ out, m.body.proceeds = false) (a : Address) :
    load f (out.map (stamp a)) = 0 := by
  refine load_eq_zero fun r hr => ?_
  obtain ⟨r', hr', rfl⟩ := List.mem_map.mp hr
  exact hf (h r' hr')

/-- Nobody else sends in the name of the master or the wallet. -/
theorem underway_of_other {m : Msg} (hJ : m.src ≠ D.J) (hW : m.src ≠ walletOf D O) :
    underway D O m = issued D O m := by
  unfold underway issued
  split <;> simp_all

theorem underway_elsewhere {m : Msg} (hJ : m.dst ≠ D.J) (hW : m.dst ≠ walletOf D O) :
    underway D O m = 0 := by
  unfold underway
  split <;> simp_all

theorem underway_bounced {m : Msg} (h : m.bounced = true) : underway D O m = 0 := by
  unfold underway
  split <;> simp_all

theorem signal_of_other {m : Msg} (hW : m.src ≠ walletOf D O) : signal D O m = 0 := by
  unfold signal
  split <;> simp_all

/-! ### The state of the wallets -/

/-- The wallets are sound, and their configurations can be read. -/
def WalletsOk (D : Deployment) (w : World) : Prop :=
  ∀ a x, w.jetton.wallets.lookup a = some x →
    WalletOk D.wallets D.J a x ∧ ∃ d, decodeFeeConfig x.feeConfig = .ok d

theorem walletOk_init (o : Address) :
    WalletOk D.wallets D.J (D.addr (.jettonWallet o D.J)) (.init o D.J)
      ∧ ∃ d, decodeFeeConfig (BurnJettonWallet.init o D.J).feeConfig = .ok d :=
  ⟨⟨rfl, rfl, le_refl 0, configOk_empty⟩, _, rfl⟩

theorem walletsOk_preserved {G : WorldConf → Action Address Body Gas → Prop} :
    (network D modelled ordered).Preserves G fun c => WalletsOk D c.st := by
  refine walletsAt_preserved walletOk_init ?_ ?_
  · rintro a x b ⟨hok, d, hd⟩
    rw [x.bounced_eq]
    exact ⟨⟨hok.master, hok.addr, add_nonneg hok.nonneg (tokens_nonneg b), hok.config⟩, d, hd⟩
  · rintro a ctx x b x' out hr ⟨hok, d, hd⟩
    have hbooks := BurnJettonWallet.receive_books hok.config hok.nonneg hr
    refine ⟨⟨hbooks.master.trans hok.master, ?_, hbooks.nonneg, hbooks.config⟩, ?_⟩
    · rw [hbooks.owner]
      exact hok.addr
    · rcases BurnJettonWallet.receive_feeConfig hr with hsame | ⟨msg, -, hu⟩
      · exact ⟨d, hsame ▸ hd⟩
      · obtain ⟨d', hd', -⟩ := BurnJettonWallet.receiveUpdateFeeConfig_decodes hu
        exact ⟨d', hd'⟩

/-- A configuration, once arrived, stays. -/
theorem BurnJettonWallet.Active.receive {W : WalletBook} {ctx : Ctx} {x x' : BurnJettonWallet}
    {b : Body} {out : List Msg} (h : x.Active) (hr : x.receive W ctx b = .ok (x', out)) :
    x'.Active := by
  rcases BurnJettonWallet.receive_feeConfig hr with hsame | ⟨msg, -, hu⟩
  · unfold BurnJettonWallet.Active
    rw [hsame]
    exact h
  · simp only [BurnJettonWallet.receiveUpdateFeeConfig, bind_eq_ok, Except.ok.injEq,
      Prod.mk.injEq] at hu
    obtain ⟨_, -, _, -, _, -, ext, hext, cfg, hcfg, rfl, -⟩ := hu
    exact ⟨_, (decodeFeeConfig_pack hext hcfg).1, rfl⟩

theorem BurnJettonWallet.Active.bounced {x : BurnJettonWallet} (b : Body) :
    (x.bounced b).Active ↔ x.Active := by
  rw [x.bounced_eq]
  rfl

theorem not_active_init (o j : Address) : ¬ (BurnJettonWallet.init o j).Active := by
  rintro ⟨d, hd, hactive⟩
  have hempty : decodeFeeConfig (BurnJettonWallet.init o j).feeConfig = .ok _ := rfl
  rw [hempty] at hd
  obtain rfl := Except.ok.inj hd
  cases hactive

/-- An execution anywhere, seen from the wallet of `O` and the master. -/
theorem receive_seen {g : Gas} {now : Nat} {m : Msg} {w w' : World} {out : List Msg}
    (h : World.receive D g now m w = .ok (w', out)) :
    (m.dst = walletOf D O ∧ w'.jetton.master = w.jetton.master
        ∧ ∃ x x', JettonState.walletAt D.wallets D.J w.jetton m = some x
          ∧ w'.jetton.wallets.lookup (walletOf D O) = some x'
          ∧ World.run D (BurnJettonWallet.receive D.wallets) (fun _ s b => .ok (s.bounced b)) g now
            m x = .ok (x', out))
      ∨ (m.dst = D.J ∧ w'.jetton.wallets = w.jetton.wallets
        ∧ World.run D (BurnJettonMaster.receive D.wallets) (fun _ s b => .ok (s.bounced b)) g now m
          w.jetton.master = .ok (w'.jetton.master, out))
      ∨ (m.dst ≠ walletOf D O ∧ m.dst ≠ D.J ∧ w'.jetton.master = w.jetton.master
        ∧ w'.jetton.wallets.lookup (walletOf D O) = w.jetton.wallets.lookup (walletOf D O)) := by
  by_cases hJ : m.dst = D.J
  · obtain ⟨hrun, hw⟩ := World.receive_master h hJ
    exact .inr (.inl ⟨hJ, hw, hrun⟩)
  · by_cases hW : ∃ o j, m.dst = D.addr (.jettonWallet o j)
    · obtain ⟨o, j, hd⟩ := hW
      obtain ⟨x, x', hx, hrun, hins, hm⟩ := World.receive_wallet h hd
      by_cases ha : m.dst = walletOf D O
      · refine .inl ⟨ha, hm, x, x', hx, ?_, hrun⟩
        rw [hins, ha, AList.lookup_insert]
      · refine .inr (.inr ⟨ha, hJ, hm, ?_⟩)
        rw [hins, AList.lookup_insert_ne (Ne.symm ha)]
    · have hsame := World.receive_jetton_other h hJ fun o j hd => hW ⟨o, j, hd⟩
      refine .inr (.inr ⟨fun ha => hW ⟨_, _, ha⟩, hJ, ?_, ?_⟩) <;> rw [hsame]

theorem walletAt_cases {s : JettonState} {x : BurnJettonWallet} {m : Msg}
    (h : JettonState.walletAt D.wallets D.J s m = some x) :
    s.wallets.lookup m.dst = some x ∨ s.wallets.lookup m.dst = none ∧ ∃ o, x = .init o D.J := by
  unfold JettonState.walletAt at h
  split at h
  · rename_i y hy
    obtain rfl := Option.some.inj h
    exact .inl hy
  · rename_i hnone
    split at h
    · obtain ⟨o, -, rfl⟩ := Option.map_eq_some_iff.mp h
      exact .inr ⟨hnone, o, rfl⟩
    · cases h

theorem balanceAt_walletAt {w : World} {x : BurnJettonWallet} {m : Msg}
    (h : JettonState.walletAt D.wallets D.J w.jetton m = some x) :
    balanceAt w m.dst = x.balance := by
  unfold balanceAt
  rcases walletAt_cases h with hx | ⟨hx, o, rfl⟩ <;> rw [hx]
  rfl

/-- A message that asks the wallet for a transfer, from the owner or the master. -/
theorem underway_asks {m : Msg} {k : Key} (hb : m.bounced = false) (hd : m.dst = walletOf D O)
    (hasks : (D.opened m.body).asks = some k)
    (hsender : ∀ t, D.opened m.body = .jettonTransfer t → m.src = O)
    (hmaster : ∀ t, D.opened m.body = .commitJettonTransfer t → m.src = D.J) :
    underway D O m = {k} := by
  unfold underway
  generalize D.opened m.body = b at *
  cases b with
  | jettonTransfer t =>
      obtain rfl := Option.some.inj hasks
      simp [hb, hd, hsender t rfl]
  | commitJettonTransfer t =>
      obtain rfl := Option.some.inj hasks
      simp [hb, hd, hmaster t rfl]
  | _ => cases hasks

theorem underway_asks_none {m : Msg} (hd : m.dst = walletOf D O)
    (hasks : (D.opened m.body).asks = none) : underway D O m = 0 := by
  unfold underway
  generalize D.opened m.body = b at *
  cases b with
  | jettonTransfer t => cases hasks
  | commitJettonTransfer t => cases hasks
  | resolveJettonTransfer t => cases m.bounced <;> simp [hd]
  | _ => cases m.bounced <;> rfl

theorem underway_at_master {m : Msg} (hd : m.dst = D.J)
    (h : ∀ t, D.opened m.body ≠ .resolveJettonTransfer t) : underway D O m = 0 := by
  unfold underway
  generalize D.opened m.body = b at *
  cases b with
  | resolveJettonTransfer t => exact absurd rfl (h t)
  | jettonTransfer t | commitJettonTransfer t => cases m.bounced <;> simp [hd]
  | _ => cases m.bounced <;> rfl

theorem carriedOut_elsewhere {m : Msg} {w : World} {r : World × List Msg}
    (hd : m.dst ≠ walletOf D O) : carriedOut D O m w r = 0 := by
  unfold carriedOut
  split <;> simp [hd]

theorem carriedOut_none {m : Msg} {w : World} {r : World × List Msg}
    (hasks : (D.opened m.body).asks = none) : carriedOut D O m w r = 0 := by
  unfold carriedOut
  rw [hasks]
  cases m.bounced <;> rfl

theorem signalled_eq_zero {w : World} {r : World × List Msg} (h : load (signal D O) r.2 = 0) :
    signalled D O w r = 0 := by
  unfold signalled
  rw [h]
  split <;> rfl

theorem sentTokens_stamp (a : Address) (out : List Msg) :
    sentTokens (out.map (stamp a)) = sentTokens out := by
  induction out with
  | nil => rfl
  | cons r out ih =>
      simp only [sentTokens, List.map_cons, load_cons, stamp_body] at ih ⊢
      rw [ih]

/-- The return of a rejected message is the signal for the transfer it asked for. -/
theorem underway_rejected {w : World} {now : Nat} {g : Gas} {m : Msg}
    (h : unhindered D O w now g m = true)
    (hresolve : ∀ t, m.bounced = false → D.opened m.body = .resolveJettonTransfer t →
      ¬ (m.src = walletOf D O ∧ m.dst = D.J))
    (hcommit : ∀ t, m.bounced = false → D.opened m.body = .commitJettonTransfer t →
      ¬ (m.src = D.J ∧ m.dst = walletOf D O)) :
    underway D O m = load (signal D O) (bounceOf m) := by
  cases hb : m.bounced with
  | true =>
      rw [underway_bounced hb]
      simp [bounceOf, hb]
  | false =>
      have hreturn : load (signal D O) (bounceOf m) = if m.bounce = true then
          signal D O ⟨m.dst, m.src, m.value, false, true, false, m.body⟩ else 0 := by
        unfold bounceOf
        rw [hb]
        cases m.bounce <;> simp
      rw [hreturn]
      simp only [underway, signal, unhindered, hb] at h ⊢
      generalize D.opened m.body = b at *
      cases b with
      | jettonTransfer t =>
          by_cases ha : m.src = O ∧ m.dst = walletOf D O
          · simp only [ha, and_self, decide_true, Bool.not_true, Bool.false_or] at h
            simp [ha, h]
          · have ha' : ¬ (m.dst = walletOf D O ∧ m.src = O) := fun hc => ha ⟨hc.2, hc.1⟩
            simp [ha, ha']
      | resolveJettonTransfer t => simp [hresolve t hb rfl]
      | commitJettonTransfer t => simp [hcommit t hb rfl]
      | _ => simp

/-! ### The invariant -/

/-- A transfer that has passed the entry checks of a configured wallet. -/
def Entered (D : Deployment) (O : Address) (w : World) (amount : Nat) (payload : Cell) : Prop :=
  0 < amount ∧ checkEitherForwardPayload payload.beginParse = .ok ()
    ∧ ∃ x, w.jetton.wallets.lookup (walletOf D O) = some x ∧ x.Active

/-- What is known of an original message of the wallet or the master under way. -/
structure Proper (D : Deployment) (O : Address) (w : World) (m : Msg) : Prop where
  resolve : m.src = walletOf D O → ∀ t, D.opened m.body = .resolveJettonTransfer t →
    t.sender_owner = O ∧ Entered D O w t.amount t.forwardPayload
  commit : m.src = D.J → m.dst = walletOf D O → ∀ t, D.opened m.body = .commitJettonTransfer t →
    Entered D O w t.amount t.forwardPayload
  update : m.src = D.J → ∀ u, D.opened m.body = .jettonUpdateFeeConfig u →
    w.jetton.master.feeDestinationsActive = true

theorem Proper.of_other {w : World} {m : Msg} (hJ : m.src ≠ D.J) (hW : m.src ≠ walletOf D O) :
    Proper D O w m :=
  ⟨fun h => absurd h hW, fun h => absurd h hJ, fun h => absurd h hJ⟩

theorem Proper.of_quiet {w : World} {m : Msg} (h : m.body.proceeds = false)
    (hu : m.src = D.J → m.body.configures = true →
      w.jetton.master.feeDestinationsActive = true) : Proper D O w m := by
  refine ⟨fun _ t ht => ?_, fun _ _ t ht => ?_, fun hJ u hu' => hu hJ ?_⟩
  all_goals rw [opened_quiet h] at *
  · rw [ht] at h
    cases h
  · rw [ht] at h
    cases h
  · rw [hu']
    rfl

/-- What a step may not undo. -/
structure Onward (D : Deployment) (O : Address) (w w' : World) : Prop where
  master : w.jetton.master.feeDestinationsActive = true →
    w'.jetton.master.feeDestinationsActive = true
  wallet : ∀ x, w.jetton.wallets.lookup (walletOf D O) = some x → x.Active →
    ∃ x', w'.jetton.wallets.lookup (walletOf D O) = some x' ∧ x'.Active

theorem Entered.mono {w w' : World} {amount : Nat} {payload : Cell}
    (h : Entered D O w amount payload) (ho : Onward D O w w') : Entered D O w' amount payload := by
  obtain ⟨hpos, hpayload, x, hx, hactive⟩ := h
  exact ⟨hpos, hpayload, ho.wallet x hx hactive⟩

theorem Proper.mono {w w' : World} {m : Msg} (h : Proper D O w m) (ho : Onward D O w w') :
    Proper D O w' m :=
  ⟨fun hs t ht => ⟨(h.resolve hs t ht).1, (h.resolve hs t ht).2.mono ho⟩,
    fun hs hd t ht => (h.commit hs hd t ht).mono ho, fun hs u hu => ho.master (h.update hs u hu)⟩

/-- Every transfer the owner has sent is under way, executed or refused. -/
structure Follows (D : Deployment) (O : Address) (c : WorldConf) (l : Transfers) : Prop where
  keys : l.sent = load (underway D O) c.flight + l.executed + l.refused
  active : ∀ x, c.st.jetton.wallets.lookup (walletOf D O) = some x → x.Active →
    c.st.jetton.master.feeDestinationsActive = true
  proper : ∀ m ∈ c.flight, m.bounced = false → Proper D O c.st m

namespace Follows

variable {c : WorldConf} {l : Transfers} {m : Msg} {pre post out : List Msg} {w' : World}

/-- A delivery, in terms of what it does to the one message and the logs. -/
theorem deliver (h : Follows D O c l) (hf : c.flight = pre ++ m :: post)
    {sent executed refused : Multiset Key}
    (hkeys : underway D O m + sent = load (underway D O) out + executed + refused)
    (ho : Onward D O c.st w')
    (hactive : ∀ x, w'.jetton.wallets.lookup (walletOf D O) = some x → x.Active →
      w'.jetton.master.feeDestinationsActive = true)
    (hout : ∀ r ∈ out, r.bounced = false → Proper D O w' r) :
    Follows D O ⟨w', pre ++ post ++ out, c.now⟩
      ⟨l.sent + sent, l.executed + executed, l.refused + refused⟩ := by
  refine ⟨?_, hactive, fun r hr hb => ?_⟩
  · have hsent := h.keys
    rw [hf, load_append, load_cons] at hsent
    show l.sent + sent = load (underway D O) (pre ++ post ++ out) + (l.executed + executed)
      + (l.refused + refused)
    rw [load_append, load_append, hsent]
    calc load (underway D O) pre + (underway D O m + load (underway D O) post) + l.executed
          + l.refused + sent
        = load (underway D O) pre + load (underway D O) post + l.executed + l.refused
          + (underway D O m + sent) := by abel
      _ = _ := by
          rw [hkeys]
          abel
  · rcases List.mem_append.mp hr with hr | hr
    · exact (h.proper r (mem_rest hf hr) hb).mono ho
    · exact hout r hr hb

/-- A delivery that leaves the state alone; what is sent is returned. -/
theorem still (h : Follows D O c l) (hf : c.flight = pre ++ m :: post) (refused : Multiset Key)
    (hkeys : underway D O m = refused) (hout : ∀ r ∈ out, r.bounced = true) :
    Follows D O ⟨c.st, pre ++ post ++ out, c.now⟩ { l with refused := l.refused + refused } := by
  have hdeliver : Follows D O ⟨c.st, pre ++ post ++ out, c.now⟩
      ⟨l.sent + 0, l.executed + 0, l.refused + refused⟩ := by
    refine h.deliver hf ?_ ⟨id, fun x hx ha => ⟨x, hx, ha⟩⟩ h.active fun r hr hb => ?_
    · rw [load_eq_zero fun r hr => underway_bounced (hout r hr), hkeys]
      abel
    · rw [hout r hr] at hb
      cases hb
  simp only [add_zero] at hdeliver
  exact hdeliver

/-- A message that is no stage of a transfer leaves the flight. -/
theorem drop (h : Follows D O c l) (hf : c.flight = pre ++ m :: post) (hkeys : underway D O m = 0)
    (hout : ∀ r ∈ out, r.bounced = true) : Follows D O ⟨c.st, pre ++ post ++ out, c.now⟩ l := by
  have hstill := h.still hf 0 hkeys hout
  simp only [add_zero] at hstill
  exact hstill

/-- What a message does to the transfers, by what the wallet does with it. -/
theorem handled_keys (h : Follows D O c l) (hf : c.flight = pre ++ m :: post)
    (hd : m.dst = walletOf D O) (hb : m.bounced = false) {g : Gas} {x x' : BurnJettonWallet}
    (hx : JettonState.walletAt D.wallets D.J c.st.jetton m = some x)
    (hx' : w'.jetton.wallets.lookup (walletOf D O) = some x') (hmaster : x.master = D.J)
    (howner : x.owner = O)
    (hh : BurnJettonWallet.Handled (Ctx.of g c.now m) x (D.opened m.body) x' out) :
    underway D O m + load (issued D O) (out.map (stamp m.dst))
      = load (underway D O) (out.map (stamp m.dst))
        + carriedOut D O m c.st (w', out.map (stamp m.dst))
        + signalled D O c.st (w', out.map (stamp m.dst)) := by
  have hbefore : balanceAt c.st (walletOf D O) = x.balance := hd ▸ balanceAt_walletAt hx
  have hafter : balanceAt w' (walletOf D O) = x'.balance := by
    unfold balanceAt
    rw [hx']
  generalize hopen : D.opened m.body = b at hh
  cases hh with
  | executed b q a out hasks hsender hcommit hlegs hquiet =>
      have hm : underway D O m = {(q, a)} :=
        underway_asks hb hd (hopen ▸ hasks) (fun t ht => (hsender t (hopen ▸ ht)).trans howner)
          fun t ht => (hcommit t (hopen ▸ ht)).trans hmaster
      have hdone : carriedOut D O m c.st (w', out.map (stamp m.dst)) = {(q, a)} := by
        simp only [carriedOut, hb, hopen, hasks, hbefore, hafter, sentTokens_stamp, hlegs, hd,
          and_self, if_true]
      rw [hm, hdone, signalled_eq_zero (load_quiet signal_quiet hquiet m.dst),
        load_quiet issued_quiet hquiet, load_quiet underway_quiet hquiet]
      simp
  | resolved t hsender hpos hactive hpayload =>
      have hm : underway D O m = {(t.queryId, t.amount)} :=
        underway_asks hb hd (by rw [hopen]; rfl) (fun _ _ => hsender.trans howner) fun t' ht' => by
          rw [hopen] at ht'
          cases ht'
      have hdone : ∀ r, carriedOut D O m c.st (w', r) = 0 := by
        intro r
        have hchanged : ¬ x.balance = x.balance - (t.amount : Int) := by omega
        simp only [carriedOut, hb, hopen, Body.asks, hbefore, hafter, hchanged, false_and,
          and_false, if_false]
      rw [hm, hdone, signalled_eq_zero (by simp [signal, Ctx.message, Deployment.opened])]
      simp [underway, issued, Ctx.message, Deployment.opened, hd, hmaster]
  | reported t hsender =>
      have hsrc : m.src = D.J := hsender.trans hmaster
      have hm : underway D O m = {(t.queryId, t.amount)} :=
        underway_asks hb hd (by rw [hopen]; rfl)
          (fun t' ht' => by
            rw [hopen] at ht'
            cases ht')
          fun _ _ => hsrc
      have hpos : 0 < t.amount :=
        ((h.proper m (by rw [hf]; simp) hb).commit hsrc hd t hopen).1
      have hdone : ∀ r, carriedOut D O m c.st (w', r) = 0 := by
        intro r
        have hchanged : ¬ x.balance = x.balance - (t.amount : Int) := by omega
        simp only [carriedOut, hb, hopen, Body.asks, hbefore, hafter, hchanged, false_and,
          and_false, if_false]
      rw [hm, hdone]
      simp [signalled, hbefore, hafter, underway, issued, signal, BurnJettonWallet.reportCommitFailure,
        Ctx.message, Deployment.opened, hd, howner]
  | other b x' out hasks hquiet =>
      rw [← hopen] at hasks
      rw [underway_asks_none hd hasks, carriedOut_none hasks,
        signalled_eq_zero (load_quiet signal_quiet hquiet m.dst), load_quiet issued_quiet hquiet,
        load_quiet underway_quiet hquiet]
      simp

/-- What the wallet sends. -/
theorem handled_proper (hd : m.dst = walletOf D O) {ctx : Ctx} {x x' : BurnJettonWallet}
    {b : Body} (hx' : w'.jetton.wallets.lookup (walletOf D O) = some x') (howner : x.owner = O)
    (hh : BurnJettonWallet.Handled ctx x b x' out) :
    ∀ r ∈ out, Proper D O w' (stamp m.dst r) := by
  have hJ : walletOf D O ≠ D.J := by simp
  have hquiet : ∀ r : Msg, r.body.proceeds = false → Proper D O w' (stamp m.dst r) :=
    fun r hr => .of_quiet hr fun hs => absurd (hd.symm.trans hs) hJ
  intro r hr
  cases hh with
  | executed b q a out hasks hsender hcommit hlegs hout => exact hquiet r (hout r hr)
  | other b x' out hasks hout => exact hquiet r (hout r hr)
  | resolved t hsender hpos hactive hpayload =>
      obtain rfl := List.mem_singleton.mp hr
      refine ⟨fun _ t' ht' => ?_, fun hs => absurd (hd.symm.trans hs) hJ,
        fun hs => absurd (hd.symm.trans hs) hJ⟩
      obtain rfl := Body.resolveJettonTransfer.inj ht'
      exact ⟨howner, hpos, hpayload, x, hx', hactive⟩
  | reported t hsender =>
      obtain rfl := List.mem_singleton.mp hr
      refine ⟨fun _ t' ht' => ?_, fun hs => absurd (hd.symm.trans hs) hJ,
        fun hs => absurd (hd.symm.trans hs) hJ⟩
      cases ht'

/-- An execution of the wallet. -/
theorem wallet (h : Follows D O c l) (hok : WalletsOk D c.st) (hf : c.flight = pre ++ m :: post)
    (hd : m.dst = walletOf D O) {g : Gas} {x x' : BurnJettonWallet}
    (hm : w'.jetton.master = c.st.jetton.master)
    (hx : JettonState.walletAt D.wallets D.J c.st.jetton m = some x)
    (hx' : w'.jetton.wallets.lookup (walletOf D O) = some x')
    (hrun : World.run D (BurnJettonWallet.receive D.wallets) (fun _ s b => .ok (s.bounced b)) g
      c.now m x = .ok (x', out)) :
    Follows D O ⟨w', pre ++ post ++ out, c.now⟩
      ⟨l.sent + load (issued D O) out, l.executed + carriedOut D O m c.st (w', out),
        l.refused + signalled D O c.st (w', out)⟩ := by
  obtain ⟨hwallet, d, hdec⟩ : WalletOk D.wallets D.J m.dst x
      ∧ ∃ d, decodeFeeConfig x.feeConfig = .ok d := walletAt_has walletOk_init hok hx
  have howner : x.owner = O := by
    have haddr : D.addr (.jettonWallet x.owner D.J) = m.dst := hwallet.addr
    rw [hd] at haddr
    simpa using haddr
  -- an active wallet is deployed, so the master has been active
  have hlive : x.Active → c.st.jetton.wallets.lookup (walletOf D O) = some x := by
    intro ha
    rcases walletAt_cases hx with hx | ⟨-, o, rfl⟩
    · exact hd ▸ hx
    · exact absurd ha (not_active_init o D.J)
  have honward : (x.Active → x'.Active) → Onward D O c.st w' := by
    intro hactive
    refine ⟨fun hc => by rw [hm]; exact hc, fun y hy ha => ⟨x', hx', hactive ?_⟩⟩
    rcases walletAt_cases hx with hx | ⟨hnone, -⟩
    · rw [hd, hy] at hx
      exact Option.some.inj hx ▸ ha
    · rw [hd, hy] at hnone
      cases hnone
  rcases World.run_eq_ok hrun with ⟨hb, hs, rfl⟩ | ⟨hb, out', hs, rfl⟩
  · obtain rfl := Except.ok.inj hs
    refine h.deliver hf ?_ (honward (BurnJettonWallet.Active.bounced m.body).mpr) ?_
      fun r hr => absurd hr List.not_mem_nil
    · rw [underway_bounced hb, signalled_eq_zero rfl]
      simp [carriedOut, hb]
    · intro y hy ha
      rw [hx'] at hy
      obtain rfl := Option.some.inj hy
      have hxa := (BurnJettonWallet.Active.bounced m.body).mp ha
      rw [hm]
      exact h.active x (hlive hxa) hxa
  · have hh := BurnJettonWallet.receive_handled hwallet.config hs
    refine h.deliver hf (h.handled_keys hf hd hb hx hx' hwallet.master howner hh)
      (honward fun ha => ha.receive hs) ?_ ?_
    case refine_2 =>
      intro r hr _
      obtain ⟨r', hr', rfl⟩ := List.mem_map.mp hr
      exact handled_proper hd hx' howner hh r' hr'
    intro y hy ha
    rw [hx'] at hy
    obtain rfl := Option.some.inj hy
    rw [hm]
    rcases BurnJettonWallet.receive_feeConfig hs with hsame | ⟨msg, hbody, hu⟩
    · have hxa : x.Active := by
        unfold BurnJettonWallet.Active at ha ⊢
        rw [← hsame]
        exact ha
      exact h.active x (hlive hxa) hxa
    · simp only [BurnJettonWallet.receiveUpdateFeeConfig, bind_eq_ok, require_eq_ok] at hu
      obtain ⟨_, hsender, -⟩ := hu
      exact (h.proper m (by rw [hf]; simp) hb).update (hsender.trans hwallet.master) msg hbody

/-- An execution of the master. -/
theorem master (h : Follows D O c l) (hf : c.flight = pre ++ m :: post) (hd : m.dst = D.J)
    {g : Gas} (hw : w'.jetton.wallets = c.st.jetton.wallets)
    (hrun : World.run D (BurnJettonMaster.receive D.wallets) (fun _ s b => .ok (s.bounced b)) g
      c.now m c.st.jetton.master = .ok (w'.jetton.master, out)) :
    Follows D O ⟨w', pre ++ post ++ out, c.now⟩
      ⟨l.sent + load (issued D O) out, l.executed + carriedOut D O m c.st (w', out),
        l.refused + signalled D O c.st (w', out)⟩ := by
  have hne : m.dst ≠ walletOf D O := by rw [hd]; simp
  have hdeliver : (c.st.jetton.master.feeDestinationsActive = true →
      w'.jetton.master.feeDestinationsActive = true) →
      underway D O m + load (issued D O) out
        = load (underway D O) out + 0 + signalled D O c.st (w', out) →
      (∀ r ∈ out, r.bounced = false → Proper D O w' r) →
      Follows D O ⟨w', pre ++ post ++ out, c.now⟩
        ⟨l.sent + load (issued D O) out, l.executed + carriedOut D O m c.st (w', out),
          l.refused + signalled D O c.st (w', out)⟩ := by
    intro hactive hkeys hout
    rw [carriedOut_elsewhere hne]
    refine h.deliver hf hkeys ⟨hactive, fun x hx ha => ⟨x, hw ▸ hx, ha⟩⟩ ?_ hout
    exact fun x hx ha => hactive (h.active x (hw ▸ hx) ha)
  rcases World.run_eq_ok hrun with ⟨hb, hs, rfl⟩ | ⟨hb, out', hs, rfl⟩
  · refine hdeliver ?_ ?_ fun r hr => absurd hr List.not_mem_nil
    · rw [← Except.ok.inj hs, BurnJettonMaster.bounced_active]
      exact id
    · rw [underway_bounced hb, signalled_eq_zero rfl]
      simp
  · have hactive := (BurnJettonMaster.receive_configured hs).active
    rcases BurnJettonMaster.receive_sends hs with
      ⟨t, ex, hbody, hsame, hon, hsender, rfl⟩ | ⟨hbody, hout⟩
    · have hsrc : m.src = walletOf D O → t.sender_owner = O
          ∧ Entered D O c.st t.amount t.forwardPayload :=
        fun hs => (h.proper m (by rw [hf]; simp) hb).resolve hs t hbody
      refine hdeliver hactive ?_ ?_
      · have hm : underway D O m
            = if m.src = walletOf D O then {(t.queryId, t.amount)} else 0 := by
          simp only [underway, hb, hbody, hd, and_true]
        rw [hm, signalled_eq_zero (by
          simp [signal, BurnJettonMaster.resolution, Ctx.message, Deployment.opened])]
        simp [underway, issued, BurnJettonMaster.resolution, Ctx.message, Ctx.of,
          Deployment.opened, hd]
      · intro r hr _
        obtain ⟨r', hr', rfl⟩ := List.mem_map.mp hr
        simp only [BurnJettonMaster.resolution, List.mem_cons, List.not_mem_nil, or_false] at hr'
        have hJ : m.dst ≠ walletOf D O := hne
        rcases hr' with rfl | rfl
        · exact .of_quiet rfl fun _ _ => hactive hon
        · refine ⟨fun hs => absurd hs hJ, fun _ hdst t' ht' => ?_, fun _ u hu => by cases hu⟩
          obtain rfl := Body.commitJettonTransfer.inj ht'
          exact (hsrc hdst).2.mono ⟨hactive, fun x hx ha => ⟨x, hw ▸ hx, ha⟩⟩
    · have hquiet : ∀ r ∈ out', r.body.proceeds = false := fun r hr => (hout r hr).1
      refine hdeliver hactive ?_ ?_
      · rw [underway_at_master hd hbody, signalled_eq_zero (load_quiet signal_quiet hquiet m.dst),
          load_quiet issued_quiet hquiet, load_quiet underway_quiet hquiet]
        simp
      · intro r hr _
        obtain ⟨r', hr', rfl⟩ := List.mem_map.mp hr
        exact .of_quiet (hquiet r' hr') fun _ hc => hactive ((hout r' hr').2 hc)

/-- An execution of any other account. -/
theorem elsewhere (h : Follows D O c l) (hf : c.flight = pre ++ m :: post)
    (hW : m.dst ≠ walletOf D O) (hJ : m.dst ≠ D.J) (hm : w'.jetton.master = c.st.jetton.master)
    (hlook : w'.jetton.wallets.lookup (walletOf D O)
      = c.st.jetton.wallets.lookup (walletOf D O))
    (hout : ∀ r ∈ out, r.src = m.dst ∧ r.bounced = false) :
    Follows D O ⟨w', pre ++ post ++ out, c.now⟩
      ⟨l.sent + load (issued D O) out, l.executed + carriedOut D O m c.st (w', out),
        l.refused + signalled D O c.st (w', out)⟩ := by
  have hsame : load (underway D O) out = load (issued D O) out := by
    unfold load
    refine congrArg List.sum (List.map_congr_left fun r hr => ?_)
    obtain ⟨hs, -⟩ := hout r hr
    exact underway_of_other (hs ▸ hJ) (hs ▸ hW)
  have hsignal : load (signal D O) out = 0 :=
    load_eq_zero fun r hr => signal_of_other ((hout r hr).1 ▸ hW)
  refine h.deliver hf ?_ ?_ ?_ ?_
  · rw [underway_elsewhere hJ hW, carriedOut_elsewhere hW, signalled_eq_zero hsignal, hsame]
    simp
  · exact ⟨fun hc => hm ▸ hc, fun x hx ha => ⟨x, hlook ▸ hx, ha⟩⟩
  · exact fun x hx ha => hm ▸ h.active x (hlook ▸ hx) ha
  · exact fun r hr _ => .of_other ((hout r hr).1 ▸ hJ) ((hout r hr).1 ▸ hW)

end Follows

/-- A commit under way does not throw, and neither does a resolution. -/
theorem Follows.not_rejected {c : WorldConf} {l : Transfers} (h : Follows D O c l)
    (hok : WalletsOk D c.st) {list : List Address} (hlist : Listing c.st.jetton.master list)
    {m : Msg} (hm : m ∈ c.flight) {g : Gas} (hu : unhindered D O c.st c.now g m = true)
    (hb : m.bounced = false) {err : String}
    (hr : World.receive D g c.now m c.st = .error err) :
    (∀ t, D.opened m.body = .resolveJettonTransfer t → ¬ (m.src = walletOf D O ∧ m.dst = D.J))
      ∧ ∀ t, D.opened m.body = .commitJettonTransfer t →
        ¬ (m.src = D.J ∧ m.dst = walletOf D O) := by
  have hfails : ¬ ∃ r', World.receive D g c.now m c.st = .ok r' := by
    rintro ⟨r', hr'⟩
    rw [hr] at hr'
    cases hr'
  have hp := h.proper m hm hb
  refine ⟨fun t ht hat => ?_, fun t ht hat => ?_⟩
  · obtain ⟨howner, -, -, x, hx, hactive⟩ := hp.resolve hat.1 t ht
    have hton : BurnJettonMaster.cfgPushTon + milliTon 50 < m.value := by
      simpa [unhindered, hb, ht, hat] using hu
    have hsender : D.wallets.addr t.sender_owner (Ctx.of g c.now m).myAddress
        = (Ctx.of g c.now m).sender := by
      show D.addr (.jettonWallet t.sender_owner m.dst) = m.src
      rw [howner, hat.1, hat.2]
    obtain ⟨r, hresolve⟩ : ∃ r, BurnJettonMaster.receiveResolve D.wallets (Ctx.of g c.now m)
        c.st.jetton.master t = .ok r :=
      BurnJettonMaster.receiveResolve_ok hlist (h.active x hx hactive) hsender hton
    refine hfails (World.receive_master_of_ok (r := r) hat.2 hb ?_)
    rw [ht]
    exact hresolve
  · obtain ⟨-, hpayload, x, hx, hactive⟩ := hp.commit hat.1 hat.2 t ht
    have hsinks : x.sinksReachable (Ctx.of g c.now m) t = true := by
      simpa [unhindered, hb, ht, hat, hx] using hu
    have hx' : c.st.jetton.wallets.lookup m.dst = some x := hat.2 ▸ hx
    have hmaster : (Ctx.of g c.now m).sender = x.master :=
      hat.1.trans (hok _ x hx).1.master.symm
    obtain ⟨r, hcommit⟩ : ∃ r, BurnJettonWallet.receiveCommit D.wallets (Ctx.of g c.now m) x t
        = .ok r :=
      BurnJettonWallet.receiveCommit_ok (hok _ x hx).1.config hactive hmaster hpayload hsinks
    refine hfails (World.receive_wallet_of_ok (r := r) hat.2 hb hx' ?_)
    rw [ht]
    exact hcommit

theorem transfers_track (hJ : (network D modelled ordered).owns D.J = true)
    (hW : (network D modelled ordered).owns (walletOf D O) = true) :
    (network D modelled ordered).Tracks
      (fun c a => Meets (fun w now g m => unhindered D O w now g m = true) c a
        ∧ WalletsOk D c.st ∧ ∃ list, Listing c.st.jetton.master list)
      (transfersRecorder D O) (Follows D O) := by
  constructor
  case send =>
    intro c l m h _ hsrc _
    have hnJ := owns_of_modelled hJ hsrc
    have hnW := owns_of_modelled hW hsrc
    refine ⟨?_, h.active, fun r hr hb => ?_⟩
    · show l.sent + issued D O m = load (underway D O) (c.flight ++ [m]) + l.executed + l.refused
      rw [load_append, load_cons, load_nil, underway_of_other hnJ hnW, h.keys]
      abel
    · rcases List.mem_append.mp hr with hr | hr
      · exact h.proper r hr hb
      · obtain rfl := List.mem_singleton.mp hr
        exact .of_other hnJ hnW
  case ok =>
    intro c l i g accept m pre post w' out h hg _ hf _ _ hr
    rcases receive_seen (O := O) hr with ⟨hd, hm, x, x', hx, hx', hrun⟩ | ⟨hd, hw, hrun⟩ |
      ⟨hnW, hnJ, hm, hlook⟩
    · exact h.wallet hg.2.1 hf hd hm hx hx' hrun
    · exact h.master hf hd hw hrun
    · exact h.elsewhere hf hnW hnJ hm hlook (World.receive_framed hr).out
  case error =>
    intro c l i g accept m pre post err h hg hm hf _ _ hr
    obtain ⟨hmeets, hok, list, hlist⟩ := hg
    have hu : unhindered D O c.st c.now g m = true := hmeets.at hm
    have hmem : m ∈ c.flight := by
      rw [hf]
      simp
    have hkeys : underway D O m = load (signal D O) (bounceOf m) := by
      refine underway_rejected hu (fun t hb ht => ?_) fun t hb ht => ?_
      · exact (h.not_rejected hok hlist hmem hu hb hr).1 t ht
      · exact (h.not_rejected hok hlist hmem hu hb hr).2 t ht
    exact h.still hf _ hkeys fun r hr => (mem_bounceOf hr).2.2.2.2.1
  case outside =>
    intro c l m pre post h hf hd
    have hkeys := underway_elsewhere (owns_of_modelled hJ hd) (owns_of_modelled hW hd)
    rw [← List.append_nil (pre ++ post)]
    exact h.drop hf hkeys fun r hr => absurd hr List.not_mem_nil
  case returned =>
    intro c l m pre post h hf _ hd
    have hkeys := underway_elsewhere (owns_of_modelled hJ hd) (owns_of_modelled hW hd)
    exact h.drop hf hkeys fun r hr => (mem_bounceOf hr).2.2.2.2.1
  case wait => exact fun c l d h _ => ⟨h.keys, h.active, h.proper⟩

theorem walletsOk_of_empty {w : World} (h : w.jetton.wallets = ∅) : WalletsOk D w := by
  intro a x hx
  rw [h] at hx
  cases hx

theorem listing_of_empty {x : BurnJettonMaster} (hhead : x.excludedHead = emptyExcludedHead)
    (hcount : x.excludedCount = 0) : ∃ s : Finset Address, ∃ l, Listing x l ∧ l.toFinset = s :=
  ⟨_, [], ⟨hhead, hcount, (fun _ h => by cases h), List.nodup_nil, Nat.zero_le _⟩, rfl⟩

/-- In a run from a fresh jetton, the wallets are sound and the exclusion list is a
list at every step. -/
theorem logged_sound {L : Type} {R : Machine.Recorder Address Body Gas World L}
    {Q : World → Nat → Gas → Msg → Prop} {c₀ c : WorldConf} {l₀ l : L}
    (hwallets : c₀.st.jetton.wallets = ∅)
    (hhead : c₀.st.jetton.master.excludedHead = emptyExcludedHead)
    (hcount : c₀.st.jetton.master.excludedCount = 0)
    (h : (network D modelled ordered).Logged
      (Meets fun w now g m => Typed D w now g m ∧ Q w now g m) R c₀ l₀ c l) :
    (network D modelled ordered).Logged
      (fun c a => Meets Q c a ∧ WalletsOk D c.st ∧ ∃ list, Listing c.st.jetton.master list)
      R c₀ l₀ c l := by
  have hguarded := (h.guarded walletsOk_preserved (walletsOk_of_empty hwallets)).guarded
    (listing_tracks.preserves.weaken fun c a hg => hg.1.mono fun _ _ _ _ => And.left)
    (listing_of_empty hhead hcount)
  refine hguarded.mono fun c a hg => ?_
  obtain ⟨⟨hmeets, hok⟩, -, list, hlist, -⟩ := hg
  exact ⟨hmeets.mono fun _ _ _ _ => And.right, hok, list, hlist⟩

theorem follows_of_empty {c : WorldConf} (hflight : c.flight = [])
    (hwallets : c.st.jetton.wallets = ∅) : Follows D O c ⟨0, 0, 0⟩ := by
  refine ⟨?_, fun x hx => ?_, fun m hm => ?_⟩
  · rw [hflight]
    rfl
  · rw [hwallets] at hx
    cases hx
  · rw [hflight] at hm
    cases hm

/-- **Every transfer settles once.** In every run from a fresh jetton whose steps
do not hinder the transfers of `O`, the transfers that `O` has sent to its wallet
are, with multiplicity, those under way, those that were carried out (the wallet
paid the amount and sent legs of the same amount) and those whose failure the
wallet signalled to `O`, with their query id and amount and an unchanged balance.
Once nothing is under way, every transfer has exactly one of the two outcomes. -/
theorem transfers_settle {c₀ c : WorldConf} {l : Transfers}
    (hJ : (network D modelled ordered).owns D.J = true)
    (hW : (network D modelled ordered).owns (walletOf D O) = true)
    (hflight : c₀.flight = []) (hwallets : c₀.st.jetton.wallets = ∅)
    (hhead : c₀.st.jetton.master.excludedHead = emptyExcludedHead)
    (hcount : c₀.st.jetton.master.excludedCount = 0)
    (h : (network D modelled ordered).Logged
      (Meets fun w now g m => Typed D w now g m ∧ unhindered D O w now g m = true)
      (transfersRecorder D O) c₀ ⟨0, 0, 0⟩ c l) :
    l.sent = load (underway D O) c.flight + l.executed + l.refused
      ∧ (c.flight = [] → l.sent = l.executed + l.refused) := by
  have hkeys : l.sent = load (underway D O) c.flight + l.executed + l.refused := by
    exact ((logged_sound hwallets hhead hcount h).invariant (transfers_track hJ hW)
      (follows_of_empty hflight hwallets)).keys
  refine ⟨hkeys, fun hc => ?_⟩
  rw [hkeys, hc, load_nil, zero_add]

/-- Fee destinations are set, and an excluded owner gets jettons and the
configuration. -/
def excludedOwner (owner : Address) (amount : Nat) : List (Action Address Body Gas) :=
  [toMaster (.setFeeDestinations { queryId := 0, staking_pool := account 3, treasury := account 4 }),
   .deliver 0 (freeGas 0) true,
   toMaster (.addExcluded 0 owner), .deliver 0 (freeGas 0) true,
   .send (external (account 1) D₀.J (milliTon 1000) (.mint
     { queryId := 0, receiver := owner
       mintMessage := { queryId := 0, amount, sender := account 1
                        responseDestination := none, forwardTonAmount := 0
                        forwardPayload := noForwardPayload } })),
   .deliver 0 (freeGas 0) true, .deliver 0 (freeGas 0) true,
   toMaster (.syncFeeConfigToWallet 0 owner), .deliver 0 (freeGas 0) true,
   .deliver 0 (freeGas 0) true]

/-- Owner 5 asks its wallet for a transfer to account 6. -/
def transferOf (queryId amount : Nat) : Action Address Body Gas :=
  .send (external (account 5) (walletOf D₀ (account 5)) (milliTon 4000) (.jettonTransfer
    { queryId, amount, destination := account 6, responseDestination := none
      customPayload := none, forwardTonAmount := 0, forwardPayload := noForwardPayload }))

/-- Two transfers of more than the balance together, resolved side by side. -/
def racingTransfers : List (Action Address Body Gas) :=
  excludedOwner (account 5) 1000 ++
  [transferOf 7 600, transferOf 8 500, .deliver 0 (freeGas (milliTon 3900)) true,
   .deliver 0 (freeGas (milliTon 3900)) true, .deliver 0 (freeGas (milliTon 3800)) true,
   .deliver 0 (freeGas (milliTon 3800)) true, .deliver 0 (freeGas 0) true,
   .deliver 0 (freeGas 0) true, .deliver 0 (freeGas 0) true, .deliver 0 (freeGas 0) true]

theorem transfers_settle_race :
    ∃ c l, (network D₀ jettonParts fun _ _ => false).execWhile
        (fun c a => decide (Meets (fun w now g m => Typed D₀ w now g m
          ∧ unhindered D₀ (account 5) w now g m = true) c a)) (transfersRecorder D₀ (account 5))
        (bootstrapAt 1000) ⟨0, 0, 0⟩ racingTransfers = some (c, l)
      ∧ l = ⟨{(7, 600), (8, 500)}, {(7, 600)}, {(8, 500)}⟩
      ∧ l.sent = load (underway D₀ (account 5)) c.flight + l.executed + l.refused := by
  have hrun : ((network D₀ jettonParts fun _ _ => false).execWhile
      (fun c a => decide (Meets (fun w now g m => Typed D₀ w now g m
        ∧ unhindered D₀ (account 5) w now g m = true) c a)) (transfersRecorder D₀ (account 5))
      (bootstrapAt 1000) ⟨0, 0, 0⟩ racingTransfers).map (fun r => r.2)
      = some ⟨{(7, 600), (8, 500)}, {(7, 600)}, {(8, 500)}⟩ := by
    decide +kernel
  obtain ⟨⟨c, l⟩, hc, hl⟩ := Option.map_eq_some_iff.mp hrun
  exact ⟨c, l, hc, hl, (transfers_settle (by decide +kernel) (by decide +kernel) rfl rfl rfl rfl
    (Machine.logged_of_execWhile (fun _ _ h => of_decide_eq_true h) hc)).1⟩

/-- A transfer has entered; before it is resolved, the timelock moves the staking
pool to the masterchain. -/
def movedDestination : List (Action Address Body Gas) :=
  excludedOwner (account 5) 1000 ++
  [transferOf 7 100, .deliver 0 (freeGas (milliTon 3900)) true,
   toMaster (.setFeeDestinations
     { queryId := 0, staking_pool := ⟨.masterchain, 3⟩, treasury := account 4 }),
   .deliver 1 (freeGas 0) true, .deliver 0 (freeGas (milliTon 3800)) true,
   .deliver 0 (freeGas 0) true, .deliver 0 (freeGas 0) true, .deliver 0 (freeGas 0) true]

/-- The commit returns to the master: the transfer is neither carried out nor
reported, and nothing is under way any more. -/
theorem commit_unreported :
    ∃ c l, (network D₀ jettonParts fun _ _ => false).Logged (Meets (Typed D₀))
        (transfersRecorder D₀ (account 5)) (bootstrapAt 1000) ⟨0, 0, 0⟩ c l
      ∧ c.flight = [] ∧ l.sent = {(7, 100)} ∧ l.executed = 0 ∧ l.refused = 0 := by
  have hrun : ((network D₀ jettonParts fun _ _ => false).execWhile
      (fun c a => decide (Meets (Typed D₀) c a)) (transfersRecorder D₀ (account 5))
      (bootstrapAt 1000) ⟨0, 0, 0⟩ movedDestination).map (fun r => (r.1.flight.length, r.2))
      = some (0, ⟨{(7, 100)}, 0, 0⟩) := by
    decide +kernel
  obtain ⟨⟨c, l⟩, hc, hrun⟩ := Option.map_eq_some_iff.mp hrun
  obtain ⟨hflight, rfl⟩ : c.flight.length = 0 ∧ l = ⟨{(7, 100)}, 0, 0⟩ := Prod.mk.inj hrun
  exact ⟨c, _, Machine.logged_of_execWhile (fun _ _ h => of_decide_eq_true h) hc,
    List.eq_nil_of_length_eq_zero hflight, rfl, rfl, rfl⟩

end Runs

end BurnedChats

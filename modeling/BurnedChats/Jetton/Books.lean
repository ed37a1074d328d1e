import BurnedChats.Jetton.Master
import BurnedChats.Lib.Network
import Mathlib.Tactic.Linarith

/-!
# The books of one execution

What an accepted execution of a wallet or of the master does to the jettons:
what a balance or the supply gains or loses is exactly the difference between
what the message brought and what is sent on. `BurnJettonWallet.Books` and
`BurnJettonMaster.Books` say so for every handler at once, together with what
makes amounts from elsewhere irrelevant: an amount is only ever believed from a
wallet of the same master, or from the master.
-/

namespace BurnedChats

open Network

/-- The jettons a body carries. -/
def tokens : Body → Int
  | .jettonTransferInternal t => t.amount
  | .jettonBurnNotification b => b.amount
  | _ => 0

theorem tokens_nonneg (b : Body) : 0 ≤ tokens b := by
  cases b <;> simp [tokens]

/-- Only two kinds of message carry jettons. -/
theorem tokens_ne_zero {b : Body} (h : tokens b ≠ 0) :
    (∃ t, b = .jettonTransferInternal t) ∨ ∃ n, b = .jettonBurnNotification n := by
  unfold tokens at h
  split at h
  · exact .inl ⟨_, rfl⟩
  · exact .inr ⟨_, rfl⟩
  · exact absurd rfl h

/-! ## The fee split -/

/-- The rates of a stored configuration respect the fee cap. -/
def ConfigOk (c : Cell) : Prop :=
  ∀ d, decodeFeeConfig c = .ok d → d.burnBps + d.stakeBps + d.treasBps ≤ MAX_TOTAL_FEE_BPS

theorem configOk_empty : ConfigOk jettonWalletEmptyFeeConfig := by
  intro d h
  have h' : decodeFeeConfig jettonWalletEmptyFeeConfig = .ok _ := rfl
  rw [h'] at h
  obtain rfl := Except.ok.inj h
  simp [MAX_TOTAL_FEE_BPS]

theorem computeDynamicBurnBps_nonneg {cfg : DecodedFeeConfig} (amount : Nat)
    (h : cfg.burnBps + cfg.stakeBps + cfg.treasBps ≤ MAX_TOTAL_FEE_BPS) :
    0 ≤ computeDynamicBurnBps cfg amount := by
  unfold computeDynamicBurnBps
  split
  · exact Int.natCast_nonneg _
  · simp only [MAX_TOTAL_FEE_BPS] at h ⊢
    split <;> split <;> split <;> omega

/-- The legs of a fee transfer carry its whole amount. -/
theorem computeFeeParts_sum (amount stakeBps treasBps : Nat) {burnBps : Int}
    (hb : 0 ≤ burnBps) :
    let p := computeFeeParts amount burnBps stakeBps treasBps
    p.burn + p.staking + p.treasury + p.net = amount ∧ 0 ≤ p.burn ∧ 0 ≤ p.staking
      ∧ 0 ≤ p.treasury := by
  have nonneg : ∀ {x : Int}, 0 ≤ x → 0 ≤ (amount : Int) * x / 10000 := fun hx =>
    Int.ediv_nonneg (mul_nonneg (Int.natCast_nonneg _) hx) (by omega)
  refine ⟨?_, nonneg hb, nonneg (Int.natCast_nonneg _), nonneg (Int.natCast_nonneg _)⟩
  simp only [computeFeeParts]
  ring

theorem coins_eq_ok {x : Int} {n : Nat} : coins x = .ok n ↔ 0 ≤ x ∧ (n : Int) = x := by
  simp only [coins, bind_eq_ok, require_eq_ok, exists_const, Except.ok.injEq]
  constructor
  · rintro ⟨h, rfl⟩
    exact ⟨h, Int.toNat_of_nonneg h⟩
  · rintro ⟨h, rfl⟩
    exact ⟨h, Int.toNat_natCast n⟩

/-! ## The wallet -/

/-- The jettons in a list of messages. -/
abbrev sentTokens (out : List Msg) : Int := load (fun m => tokens m.body) out

/-- What a wallet may send: original messages in its own name, internal transfers
to wallets of the same master, burn notifications to the master. -/
def WalletSends (W : WalletBook) (me owner master : Address) (m : Msg) : Prop :=
  m.src = me ∧ m.bounced = false
    ∧ (∀ t, m.body = .jettonTransferInternal t →
        t.sender = owner ∧ m.bounce = true ∧ ∃ o, m.dst = W.addr o master)
    ∧ (∀ b, m.body = .jettonBurnNotification b →
        b.sender = owner ∧ m.bounce = true ∧ m.dst = master)

theorem walletSends_plain {W : WalletBook} {me owner master : Address} {m : Msg}
    (hs : m.src = me) (hb : m.bounced = false)
    (ht : ∀ t, m.body ≠ .jettonTransferInternal t)
    (hn : ∀ b, m.body ≠ .jettonBurnNotification b) : WalletSends W me owner master m :=
  ⟨hs, hb, fun t h => absurd h (ht t), fun b h => absurd h (hn b)⟩

namespace BurnJettonWallet

variable {W : WalletBook} {ctx : Ctx} {w w' : BurnJettonWallet} {out : List Msg}

theorem feeLeg_spec {queryId d f : Nat} {amount : Int} {sink : Address} {r : Option Address}
    {l : List Msg} (h : feeLeg W ctx w queryId amount sink r d f = .ok l) (ha : 0 ≤ amount) :
    sentTokens l = amount ∧ ∀ m ∈ l, WalletSends W ctx.myAddress w.owner w.master m := by
  unfold feeLeg at h
  split at h
  · simp only [bind_eq_ok, coins_eq_ok, Except.ok.injEq] at h
    obtain ⟨n, ⟨-, hn⟩, rfl⟩ := h
    refine ⟨by simpa [tokens, Ctx.message] using hn, fun m hm => ?_⟩
    obtain rfl := List.mem_singleton.mp hm
    refine ⟨rfl, rfl, fun t ht => ?_, (fun _ h => by cases h)⟩
    obtain rfl := Body.jettonTransferInternal.inj ht
    exact ⟨rfl, rfl, sink, rfl⟩
  · obtain rfl := Except.ok.inj h
    exact ⟨by simp only [load_nil]; omega, (fun _ h => by cases h)⟩

theorem burnLeg_spec {queryId v : Nat} {amount : Int} {r : Option Address} {l : List Msg}
    (h : burnLeg ctx w queryId amount r v = .ok l) (ha : 0 ≤ amount) :
    sentTokens l = amount ∧ ∀ m ∈ l, WalletSends W ctx.myAddress w.owner w.master m := by
  unfold burnLeg at h
  split at h
  · simp only [bind_eq_ok, coins_eq_ok, Except.ok.injEq] at h
    obtain ⟨n, ⟨-, hn⟩, rfl⟩ := h
    refine ⟨by simpa [tokens, Ctx.message] using hn, fun m hm => ?_⟩
    obtain rfl := List.mem_singleton.mp hm
    refine ⟨rfl, rfl, (fun _ h => by cases h), fun b hb => ?_⟩
    obtain rfl := Body.jettonBurnNotification.inj hb
    exact ⟨rfl, rfl, rfl⟩
  · obtain rfl := Except.ok.inj h
    exact ⟨by simp only [load_nil]; omega, (fun _ h => by cases h)⟩

/-- A transfer moves its amount from the balance into the legs it sends. -/
theorem executeJettonTransfer_spec {q a f : Nat} {dest : Address} {r : Option Address}
    {p : Slice} {ex : Bool} (hc : ConfigOk w.feeConfig)
    (h : executeJettonTransfer W ctx w q a dest r f p ex = .ok (w', out)) :
    w' = { w with balance := w.balance - a } ∧ 0 ≤ w.balance - a
      ∧ sentTokens out = a
      ∧ ∀ m ∈ out, WalletSends W ctx.myAddress w.owner w.master m := by
  have hsync : ∀ owner ton, WalletSends W ctx.myAddress w.owner w.master
      (requestRecipientFeeConfigSync ctx w.master q w.owner owner ton) := fun _ _ =>
    walletSends_plain rfl rfl (fun _ h => by cases h) (fun _ h => by cases h)
  have hsur : WalletSends W ctx.myAddress w.owner w.master
      (returnTransferSurplusToOwner ctx q r w.owner) :=
    walletSends_plain rfl rfl (fun _ h => by cases h) (fun _ h => by cases h)
  have hmain : ∀ {n v : Nat}, WalletSends W ctx.myAddress w.owner w.master
      (ctx.deploy (W.addr dest w.master) v true (.jettonTransferInternal
        { queryId := q, amount := n, sender := w.owner, responseDestination := r,
          forwardTonAmount := f, forwardPayload := p })) := by
    intro n v
    refine ⟨rfl, rfl, fun t ht => ?_, (fun _ h => by cases h)⟩
    obtain rfl := Body.jettonTransferInternal.inj ht
    exact ⟨rfl, rfl, dest, rfl⟩
  unfold executeJettonTransfer at h
  simp only [bind_eq_ok] at h
  obtain ⟨cfg, hcfg, _, -, _, -, _, -, h⟩ := h
  cases ex with
  | true =>
      simp only [if_true, bind_eq_ok, require_eq_ok, exists_const, Except.ok.injEq,
        Prod.mk.injEq] at h
      obtain ⟨hb, rfl, rfl⟩ := h
      refine ⟨rfl, hb, ?_, ?_⟩
      · simp [tokens, Ctx.deploy, Ctx.message, requestRecipientFeeConfigSync,
          returnTransferSurplusToOwner]
      · intro m hm
        simp only [List.mem_cons, List.not_mem_nil, or_false] at hm
        rcases hm with rfl | rfl | rfl
        · exact hmain
        · exact hsync _ _
        · exact hsur
  | false =>
      simp only [Bool.false_eq_true, if_false, bind_eq_ok, require_eq_ok, exists_const,
        Except.ok.injEq, Prod.mk.injEq] at h
      obtain ⟨-, -, hb, net, hnet, staking, hst, treasury, htr, burn, hbu, rfl, rfl⟩ := h
      -- the cap keeps the dynamic burn rate, hence every part, non-negative
      obtain ⟨hsum, hb0, hs0, ht0⟩ := computeFeeParts_sum a cfg.stakeBps cfg.treasBps
        (computeDynamicBurnBps_nonneg a (hc cfg hcfg))
      obtain ⟨hst, hst'⟩ := feeLeg_spec hst hs0
      obtain ⟨htr, htr'⟩ := feeLeg_spec htr ht0
      obtain ⟨-, hnet⟩ := coins_eq_ok.mp hnet
      obtain ⟨hbu, hbu'⟩ := burnLeg_spec (W := W) hbu hb0
      refine ⟨rfl, hb, ?_, ?_⟩
      · simp only [load_append, load_cons, load_nil, hst, htr, hbu]
        simp only [tokens, Ctx.deploy, Ctx.message, requestRecipientFeeConfigSync,
          returnTransferSurplusToOwner]
        linarith
      · intro m hm
        simp only [List.mem_append, List.mem_cons, List.not_mem_nil, or_false] at hm
        rcases hm with (((rfl | hm) | hm) | hm) | rfl | rfl | rfl | rfl
        · exact hmain
        · exact hst' m hm
        · exact htr' m hm
        · exact hbu' m hm
        · exact hsync _ _
        · exact hsync _ _
        · exact hsync _ _
        · exact hsur

/-- The books of an accepted execution: what the balance gained is what the
message brought less what is sent on, and an incoming internal transfer is
authentic. -/
structure Books (W : WalletBook) (ctx : Ctx) (w : BurnJettonWallet) (b : Body)
    (w' : BurnJettonWallet) (out : List Msg) : Prop where
  owner : w'.owner = w.owner
  master : w'.master = w.master
  config : ConfigOk w'.feeConfig
  nonneg : 0 ≤ w'.balance
  balance : w'.balance + sentTokens out = w.balance + tokens b
  sends : ∀ m ∈ out, WalletSends W ctx.myAddress w.owner w.master m
  authentic : ∀ t, b = .jettonTransferInternal t →
    ctx.sender = W.addr t.sender w.master ∨ ctx.sender = w.master
  noBurn : ∀ n, b ≠ .jettonBurnNotification n

/-- An execution that leaves the wallet alone and sends one message without an
amount. -/
theorem books_of_plain {b : Body} {m : Msg} (hc : ConfigOk w.feeConfig) (h0 : 0 ≤ w.balance)
    (hb : tokens b = 0) (hi : ∀ t, b ≠ .jettonTransferInternal t)
    (hn : ∀ n, b ≠ .jettonBurnNotification n) (hm : tokens m.body = 0)
    (hs : WalletSends W ctx.myAddress w.owner w.master m) : Books W ctx w b w [m] where
  owner := rfl
  master := rfl
  config := hc
  nonneg := h0
  balance := by simp only [load_cons, load_nil, hm, hb, add_zero]
  sends m' hm' := by obtain rfl := List.mem_singleton.mp hm'; exact hs
  authentic t ht := absurd ht (hi t)
  noBurn := hn

theorem books_of_execute {b : Body} {q a f : Nat} {dest : Address} {r : Option Address}
    {p : Slice} {ex : Bool} (hc : ConfigOk w.feeConfig) (hb : tokens b = 0)
    (hi : ∀ t, b ≠ .jettonTransferInternal t) (hn : ∀ n, b ≠ .jettonBurnNotification n)
    (h : executeJettonTransfer W ctx w q a dest r f p ex = .ok (w', out)) :
    Books W ctx w b w' out := by
  obtain ⟨rfl, h0, hs, hout⟩ := executeJettonTransfer_spec hc h
  exact ⟨rfl, rfl, hc, h0, by rw [hs, hb]; simp, hout, fun t ht => absurd ht (hi t), hn⟩

theorem receiveUpdateFeeConfig_books {msg : JettonUpdateFeeConfig} (h0 : 0 ≤ w.balance)
    (h : receiveUpdateFeeConfig ctx w msg = .ok (w', out)) :
    Books W ctx w (.jettonUpdateFeeConfig msg) w' out := by
  simp only [receiveUpdateFeeConfig, bind_eq_ok, require_eq_ok, exists_const, Except.ok.injEq,
    Prod.mk.injEq] at h
  obtain ⟨-, hsum, -, ext, hext, cfg, hcfg, rfl, rfl⟩ := h
  refine ⟨rfl, rfl, fun d hd => ?_, h0, by simp [tokens], by simp, by simp, by simp⟩
  obtain ⟨hdec, h1, h2, h3⟩ := decodeFeeConfig_pack hext hcfg
  rw [show decodeFeeConfig cfg = _ from hdec] at hd
  obtain rfl := Except.ok.inj hd
  simp only [MAX_TOTAL_FEE_BPS] at hsum ⊢
  omega

theorem receiveTransfer_books {msg : JettonTransfer} (hc : ConfigOk w.feeConfig)
    (h0 : 0 ≤ w.balance) (h : receiveTransfer W ctx w msg = .ok (w', out)) :
    Books W ctx w (.jettonTransfer msg) w' out := by
  simp only [receiveTransfer, bind_eq_ok] at h
  obtain ⟨_, -, _, -, _, -, cfg, -, _, -, _, -, _, -, _, -, se, -, de, -, _, -, h⟩ := h
  split at h
  · simp only [bind_eq_ok, require_eq_ok, exists_const, Except.ok.injEq, Prod.mk.injEq] at h
    obtain ⟨-, rfl, rfl⟩ := h
    exact books_of_plain hc h0 rfl (by simp) (by simp) rfl
      (walletSends_plain rfl rfl (by simp [Ctx.message]) (by simp [Ctx.message]))
  · exact books_of_execute hc rfl (by simp) (by simp) h

theorem receiveCommit_books {msg : CommitJettonTransfer} (hc : ConfigOk w.feeConfig)
    (h0 : 0 ≤ w.balance) (h : receiveCommit W ctx w msg = .ok (w', out)) :
    Books W ctx w (.commitJettonTransfer msg) w' out := by
  have hreport : Books W ctx w (.commitJettonTransfer msg) w
      [reportCommitFailure ctx w msg.queryId msg.amount] :=
    books_of_plain hc h0 rfl (by simp) (by simp) rfl
      (walletSends_plain rfl rfl (by simp [reportCommitFailure, Ctx.message])
        (by simp [reportCommitFailure, Ctx.message]))
  simp only [receiveCommit, bind_eq_ok] at h
  obtain ⟨_, -, _, -, h⟩ := h
  split at h
  · obtain ⟨rfl, rfl⟩ := Prod.mk.inj (Except.ok.inj h)
    exact hreport
  · simp only [bind_eq_ok] at h
    obtain ⟨cfg, -, h⟩ := h
    split at h
    · obtain ⟨rfl, rfl⟩ := Prod.mk.inj (Except.ok.inj h)
      exact hreport
    · exact books_of_execute hc rfl (by simp) (by simp) h

theorem receiveInternal_sends (msg : JettonTransferInternal) :
    ∀ m ∈ notifyOwner ctx w msg ++ returnExcesses ctx msg,
      tokens m.body = 0 ∧ WalletSends W ctx.myAddress w.owner w.master m := by
  intro m hm
  rcases List.mem_append.mp hm with hm | hm
  · unfold notifyOwner at hm
    split at hm
    · obtain rfl := List.mem_singleton.mp hm
      exact ⟨rfl, walletSends_plain rfl rfl (by simp [Ctx.message]) (by simp [Ctx.message])⟩
    · cases hm
  · unfold returnExcesses at hm
    cases hr : msg.responseDestination with
    | none => simp [hr] at hm
    | some r =>
        simp only [hr] at hm
        generalize (if 0 < msg.forwardTonAmount then _ else _ : Int) = msgValue at hm
        split at hm
        · obtain rfl := List.mem_singleton.mp hm
          exact ⟨rfl, walletSends_plain rfl rfl (by simp [Ctx.message]) (by simp [Ctx.message])⟩
        · cases hm

theorem sentTokens_eq_zero {l : List Msg} (h : ∀ m ∈ l, tokens m.body = 0) : sentTokens l = 0 :=
  load_eq_zero h

theorem receiveInternal_books {msg : JettonTransferInternal} (hc : ConfigOk w.feeConfig)
    (h0 : 0 ≤ w.balance) (h : receiveInternal W ctx w msg = .ok (w', out)) :
    Books W ctx w (.jettonTransferInternal msg) w' out := by
  simp only [receiveInternal, bind_eq_ok, require_eq_ok, exists_const, Except.ok.injEq,
    Prod.mk.injEq] at h
  obtain ⟨hauth, rfl, rfl⟩ := h
  have hs : ∀ m ∈ notifyOwner ctx w msg ++ returnExcesses ctx msg,
      tokens m.body = 0 ∧ WalletSends W ctx.myAddress w.owner w.master m :=
    receiveInternal_sends msg
  refine ⟨rfl, rfl, hc, by simp only; omega, ?_, fun m hm => (hs m hm).2, fun t ht => ?_, by simp⟩
  · rw [BurnJettonWallet.sentTokens_eq_zero fun m hm => (hs m hm).1]
    simp [tokens]
  · obtain rfl := Body.jettonTransferInternal.inj ht
    exact hauth.imp Eq.symm Eq.symm

theorem receiveBurn_books {msg : JettonBurn} (hc : ConfigOk w.feeConfig)
    (h : receiveBurn ctx w msg = .ok (w', out)) :
    Books W ctx w (.jettonBurn msg) w' out := by
  simp only [receiveBurn, bind_eq_ok, require_eq_ok, exists_const, Except.ok.injEq,
    Prod.mk.injEq] at h
  obtain ⟨-, hb, -, rfl, rfl⟩ := h
  refine ⟨rfl, rfl, hc, hb, by simp [tokens, Ctx.message], fun m hm => ?_,
    by simp, by simp⟩
  obtain rfl := List.mem_singleton.mp hm
  refine ⟨rfl, rfl, fun t ht => (by cases ht), fun b hb => ?_⟩
  obtain rfl := Body.jettonBurnNotification.inj hb
  exact ⟨rfl, rfl, rfl⟩

theorem receive_books {b : Body} (hc : ConfigOk w.feeConfig) (h0 : 0 ≤ w.balance)
    (h : w.receive W ctx b = .ok (w', out)) : Books W ctx w b w' out := by
  unfold receive at h
  split at h
  · exact receiveUpdateFeeConfig_books h0 h
  · exact receiveTransfer_books hc h0 h
  · exact receiveCommit_books hc h0 h
  · exact receiveInternal_books hc h0 h
  · exact receiveBurn_books hc h
  · cases h

/-- A returned message gives back exactly what it carried. -/
theorem bounced_eq (w : BurnJettonWallet) (b : Body) :
    w.bounced b = { w with balance := w.balance + tokens b } := by
  cases b <;> simp [bounced, tokens]

end BurnJettonWallet

/-! ## The master -/

namespace BurnJettonMaster

variable {W : WalletBook} {ctx : Ctx} {x x' : BurnJettonMaster} {out : List Msg}

/-- The books of an accepted execution of the master: the supply and the sent
amounts move together, a burn is authentic, and the cap and a closed mint stay. -/
structure Books (W : WalletBook) (ctx : Ctx) (x : BurnJettonMaster) (b : Body)
    (x' : BurnJettonMaster) (out : List Msg) : Prop where
  supply : x'.totalSupply + tokens b = x.totalSupply + sentTokens out
  sends : ∀ m ∈ out, m.src = ctx.myAddress ∧ m.bounced = false
    ∧ (∀ t, m.body = .jettonTransferInternal t →
        m.bounce = true ∧ ∃ o, m.dst = W.addr o ctx.myAddress)
    ∧ ∀ n, m.body ≠ .jettonBurnNotification n
  authentic : ∀ n, b = .jettonBurnNotification n → ctx.sender = W.addr n.sender ctx.myAddress
  noTransfer : ∀ t, b ≠ .jettonTransferInternal t
  cap : x.totalSupply ≤ BURN_MAX_SUPPLY_NANO → x'.totalSupply ≤ BURN_MAX_SUPPLY_NANO
  closed : x.mintable = false → x'.mintable = false ∧ x'.totalSupply ≤ x.totalSupply

/-- An execution that leaves supply and mint alone and sends no amounts. -/
theorem books_of_plain {b : Body} (hs : x'.totalSupply = x.totalSupply)
    (hm : x.mintable = false → x'.mintable = false)
    (hi : ∀ t, b ≠ .jettonTransferInternal t) (hn : ∀ n, b ≠ .jettonBurnNotification n)
    (ho : ∀ m ∈ out, m.src = ctx.myAddress ∧ m.bounced = false
      ∧ (∀ t, m.body ≠ .jettonTransferInternal t) ∧ ∀ n, m.body ≠ .jettonBurnNotification n) :
    Books W ctx x b x' out := by
  have htok : ∀ b : Body, (∀ t, b ≠ .jettonTransferInternal t) →
      (∀ n, b ≠ .jettonBurnNotification n) → tokens b = 0 := by
    intro b h1 h2
    by_contra ht
    rcases tokens_ne_zero ht with ⟨t, rfl⟩ | ⟨n, rfl⟩
    · exact h1 t rfl
    · exact h2 n rfl
  refine ⟨?_, fun m hm' => ?_, fun n h => absurd h (hn n), hi, fun h => hs ▸ h,
    fun h => ⟨hm h, hs.le⟩⟩
  · rw [hs, htok b hi hn, BurnJettonWallet.sentTokens_eq_zero fun m h =>
      htok _ (ho m h).2.2.1 (ho m h).2.2.2]
  · obtain ⟨h1, h2, h3, h4⟩ := ho m hm'
    exact ⟨h1, h2, fun t ht => absurd ht (h3 t), h4⟩

theorem receiveTimelock_frame {b : Body} (h : receiveTimelock ctx x b = .ok x') :
    x'.totalSupply = x.totalSupply ∧ x'.mintable = x.mintable := by
  unfold receiveTimelock at h
  split at h
  case h_3 | h_4 =>
    simp only [bind_eq_ok] at h
    obtain ⟨_, -, b, -, h⟩ := h
    cases b <;> simp only [Bool.false_eq_true, if_true, if_false, bind_eq_ok, Except.ok.injEq] at h
    all_goals first
      | (subst h; exact ⟨rfl, rfl⟩)
      | (obtain ⟨_, -, rfl⟩ := h; exact ⟨rfl, rfl⟩)
  case h_10 => cases h
  all_goals
    simp only [bind_eq_ok, Except.ok.injEq] at h
    first
      | (obtain ⟨_, -, rfl⟩ := h; exact ⟨rfl, rfl⟩)
      | (obtain ⟨_, -, _, -, rfl⟩ := h; exact ⟨rfl, rfl⟩)

theorem receiveTimelock_body {b : Body} (h : receiveTimelock ctx x b = .ok x') :
    (∀ t, b ≠ .jettonTransferInternal t) ∧ ∀ n, b ≠ .jettonBurnNotification n := by
  constructor <;> rintro t rfl <;> cases h

theorem receiveMint_books {msg : Mint} (h : receiveMint W ctx x msg = .ok (x', out)) :
    Books W ctx x (.mint msg) x' out := by
  simp only [receiveMint, bind_eq_ok, require_eq_ok, exists_const, Except.ok.injEq,
    Prod.mk.injEq] at h
  obtain ⟨-, hopen, hcap, _, -, -, rfl, rfl⟩ := h
  refine ⟨by simp [tokens, Ctx.deploy, Ctx.message], fun m hm => ?_, by simp, by simp,
    fun _ => hcap, fun h => ?_⟩
  · obtain rfl := List.mem_singleton.mp hm
    exact ⟨rfl, rfl, fun t _ => ⟨rfl, _, rfl⟩, by simp [Ctx.deploy, Ctx.message]⟩
  · rw [hopen] at h
    cases h

theorem receiveBurnNotification_books {msg : JettonBurnNotification}
    (h : receiveBurnNotification W ctx x msg = .ok (x', out)) :
    Books W ctx x (.jettonBurnNotification msg) x' out := by
  simp only [receiveBurnNotification, bind_eq_ok, require_eq_ok, exists_const, Except.ok.injEq,
    Prod.mk.injEq] at h
  obtain ⟨hauth, rfl, hout⟩ := h
  have hs : ∀ m ∈ out, tokens m.body = 0 ∧ m.src = ctx.myAddress ∧ m.bounced = false
      ∧ (∀ t, m.body ≠ .jettonTransferInternal t) ∧ ∀ n, m.body ≠ .jettonBurnNotification n := by
    intro m hm
    cases hr : msg.responseDestination with
    | none => simp [← hout, hr] at hm
    | some r =>
        simp only [← hout, hr, List.mem_singleton] at hm
        subst hm
        exact ⟨rfl, rfl, rfl, by simp [Ctx.message], by simp [Ctx.message]⟩
  refine ⟨?_, fun m hm => ?_, fun n hn => ?_, by simp, fun hc => ?_, fun hc => ⟨hc, ?_⟩⟩
  · rw [BurnJettonWallet.sentTokens_eq_zero fun m hm => (hs m hm).1]
    simp [tokens]
  · obtain ⟨-, h1, h2, h3, h4⟩ := hs m hm
    exact ⟨h1, h2, fun t ht => absurd ht (h3 t), h4⟩
  · obtain rfl := Body.jettonBurnNotification.inj hn
    exact hauth
  · simp only
    omega
  · simp only
    omega

theorem receive_books {b : Body} (h : x.receive W ctx b = .ok (x', out)) :
    Books W ctx x b x' out := by
  unfold receive at h
  split at h
  · obtain ⟨rfl, rfl⟩ := Prod.mk.inj (Except.ok.inj h)
    refine books_of_plain rfl id (by simp) (by simp) fun m hm => ?_
    split at hm
    · obtain rfl := List.mem_singleton.mp hm
      exact ⟨rfl, rfl, by simp [Ctx.cashback, Ctx.message], by simp [Ctx.cashback, Ctx.message]⟩
    · cases hm
  · simp only [receiveProvideWalletAddress, bind_eq_ok, Except.ok.injEq, Prod.mk.injEq] at h
    obtain ⟨_, -, rfl, rfl⟩ := h
    refine books_of_plain rfl id (by simp) (by simp) fun m hm => ?_
    obtain rfl := List.mem_singleton.mp hm
    exact ⟨rfl, rfl, by simp [Ctx.message], by simp [Ctx.message]⟩
  · exact receiveMint_books h
  · simp only [bind_eq_ok, Except.ok.injEq, Prod.mk.injEq] at h
    obtain ⟨_, -, rfl, rfl⟩ := h
    exact books_of_plain rfl (fun _ => rfl) (by simp) (by simp) (by simp)
  · exact receiveBurnNotification_books h
  · simp only [bind_eq_ok, Except.ok.injEq, Prod.mk.injEq] at h
    obtain ⟨_, -, rfl, rfl⟩ := h
    exact books_of_plain rfl id (by simp) (by simp) (by simp)
  · simp only [bind_eq_ok, Except.ok.injEq, Prod.mk.injEq] at h
    obtain ⟨_, -, rfl, rfl⟩ := h
    exact books_of_plain rfl id (by simp) (by simp) (by simp)
  · simp only [receiveSync, bind_eq_ok, Except.ok.injEq, Prod.mk.injEq] at h
    obtain ⟨_, -, _, -, _, -, rfl, rfl⟩ := h
    refine books_of_plain rfl id (by simp) (by simp) fun m hm => ?_
    obtain rfl := List.mem_singleton.mp hm
    exact ⟨rfl, rfl, by simp [pushFeeConfigToOwner, Ctx.deploy, Ctx.message],
      by simp [pushFeeConfigToOwner, Ctx.deploy, Ctx.message]⟩
  · simp only [receivePropagate, bind_eq_ok, Except.ok.injEq, Prod.mk.injEq] at h
    obtain ⟨_, -, _, -, rfl, rfl⟩ := h
    refine books_of_plain rfl id (by simp) (by simp) fun m hm => ?_
    obtain rfl := List.mem_singleton.mp hm
    exact ⟨rfl, rfl, by simp [pushFeeConfigToOwner, Ctx.deploy, Ctx.message],
      by simp [pushFeeConfigToOwner, Ctx.deploy, Ctx.message]⟩
  · simp only [receiveResolve, bind_eq_ok, Except.ok.injEq, Prod.mk.injEq] at h
    obtain ⟨_, -, _, -, _, -, _, -, _, -, rfl, rfl⟩ := h
    refine books_of_plain rfl id (by simp) (by simp) fun m hm => ?_
    simp only [List.mem_cons, List.not_mem_nil, or_false] at hm
    rcases hm with rfl | rfl <;>
      exact ⟨rfl, rfl, by simp [Ctx.message], by simp [Ctx.message]⟩
  · simp only [bind_eq_ok, Except.ok.injEq, Prod.mk.injEq] at h
    obtain ⟨_, h, rfl, rfl⟩ := h
    obtain ⟨h1, h2⟩ := receiveTimelock_frame h
    obtain ⟨h3, h4⟩ := receiveTimelock_body h
    exact books_of_plain h1 (fun hm => h2 ▸ hm) h3 h4 (by simp)

end BurnJettonMaster

end BurnedChats

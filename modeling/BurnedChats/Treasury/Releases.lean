import BurnedChats.Jetton.Settlement
import BurnedChats.Treasury.Schedule
import Mathlib.Algebra.BigOperators.Group.Multiset.Basic

/-!
# What left the vesting wallet

`released_amount` grows when the vesting contract asks its wallet for a transfer
and shrinks when that transfer is returned. The wallet has a second way to say
that a transfer failed, the report of a failed commit, which the contract does not
understand. As long as no commit fails, `released_amount` is what the wallet has
paid, up to the transfers and returns under way (`vesting_books`).
-/

namespace BurnedChats

open Network

/-- A commit that is carried out: it finds the balance, the TON and both fee
destinations on the base chain. -/
def BurnJettonWallet.executes (ctx : Ctx) (x : BurnJettonWallet) (t : CommitJettonTransfer) :
    Bool :=
  match decodeFeeConfig x.feeConfig with
  | .ok cfg => covers ctx x cfg t && (decide (cfg.poolOwner.workchain = .basechain)
      && decide (cfg.treasuryOwner.workchain = .basechain))
  | .error _ => false

namespace BurnJettonWallet

variable {W : WalletBook} {ctx : Ctx} {x x' : BurnJettonWallet} {t : CommitJettonTransfer}
  {out : List Msg}

theorem sinksReachable_of_executes (h : x.executes ctx t = true) :
    x.sinksReachable ctx t = true := by
  unfold executes at h
  unfold sinksReachable
  cases hcfg : decodeFeeConfig x.feeConfig with
  | ok cfg =>
      simp only [hcfg, Bool.and_eq_true] at h
      simp only [h.2.1, h.2.2, Bool.and_self, Bool.or_true]
  | error err => rfl

/-- Such a commit reports nothing. -/
theorem receiveCommit_quiet (h : x.executes ctx t = true)
    (hr : receiveCommit W ctx x t = .ok (x', out)) : ∀ m ∈ out, m.body.proceeds = false := by
  simp only [receiveCommit, bind_eq_ok] at hr
  obtain ⟨_, -, _, -, hr⟩ := hr
  unfold executes at h
  split at h
  · rename_i cfg hcfg
    simp only [covers, Bool.and_eq_true, decide_eq_true_eq] at h
    rw [if_neg (by omega), hcfg, ok_bind, if_neg (by omega)] at hr
    exact executeJettonTransfer_quiet hr
  · cases h

end BurnJettonWallet

/-- Resolutions of the transfers of `O` reach the master with the TON they need,
and their commits are carried out. -/
def committed (D : Deployment) (O : Address) (w : World) (now : Nat) (g : Gas) (m : Msg) : Bool :=
  match m.bounced, D.opened m.body with
  | false, .resolveJettonTransfer _ =>
      !decide (m.src = walletOf D O ∧ m.dst = D.J)
        || decide (BurnJettonMaster.cfgPushTon + milliTon 50 < m.value)
  | false, .commitJettonTransfer t =>
      !decide (m.src = D.J ∧ m.dst = walletOf D O) ||
        match w.jetton.wallets.lookup (walletOf D O) with
        | some x => x.executes (Ctx.of g now m) t
        | none => true
  | _, _ => true

/-- The sum of the amounts of some transfers. -/
def amounts (keys : Multiset Key) : Nat := (keys.map Prod.snd).sum

@[simp] theorem amounts_zero : amounts 0 = 0 := rfl

@[simp] theorem amounts_add (k k' : Multiset Key) : amounts (k + k') = amounts k + amounts k' := by
  simp [amounts]

@[simp] theorem amounts_singleton (k : Key) : amounts {k} = k.2 := by
  simp [amounts]

/-- A transfer on its way back to the vesting contract. -/
def givesBack (D : Deployment) (m : Msg) : Nat :=
  match m.bounced, m.body with
  | true, .jettonTransfer t => if m.dst = D.V then t.amount else 0
  | _, _ => 0

section Runs

variable {D : Deployment} {modelled : Part → Bool} {ordered : Address → Address → Bool}

theorem givesBack_elsewhere {m : Msg} (h : m.dst ≠ D.V) : givesBack D m = 0 := by
  unfold givesBack
  split <;> simp [h]

theorem givesBack_original {m : Msg} (h : m.bounced = false) : givesBack D m = 0 := by
  unfold givesBack
  rw [h]

/-! ### The vesting contract's own messages -/

/-- What the vesting contract sends: transfers of its own wallet, bounceable, and
refunds. -/
structure Vests (D : Deployment) (c : WorldConf) : Prop where
  minter : c.st.vesting.jetton_master = D.J
  sends : ∀ m ∈ c.flight, m.bounced = false → m.src = D.V → m.body = .empty
    ∨ m.dst = walletOf D D.V ∧ m.bounce = true ∧ ∃ t, m.body = .jettonTransfer t

theorem Vesting.bounced_minter {v v' : Vesting} {b : Body} (h : v.bounced b = .ok v') :
    v'.jetton_master = v.jetton_master := by
  cases b with
  | jettonTransfer t =>
      obtain ⟨_, -, hv⟩ := bind_eq_ok.mp h
      exact Except.ok.inj hv ▸ rfl
  | _ => exact Except.ok.inj h ▸ rfl

theorem Vesting.Did.minter {W : WalletBook} {ctx : Ctx} {v v' : Vesting} {b : Body}
    {out : List Msg} (h : Vesting.Did W ctx v b v' out) : v'.jetton_master = v.jetton_master := by
  cases h <;> rfl

theorem vests_preserved {G : WorldConf → Action Address Body Gas → Prop}
    (hV : (network D modelled ordered).owns D.V = true) :
    (network D modelled ordered).Preserves G (Vests D) := by
  have hback : ∀ {c : WorldConf} {m : Msg} {pre post : List Msg}, Vests D c →
      c.flight = pre ++ m :: post → Vests D ⟨c.st, pre ++ post ++ bounceOf m, c.now⟩ := by
    intro c m pre post h hf
    refine ⟨h.minter, fun r hr hb => ?_⟩
    rcases List.mem_append.mp hr with hr | hr
    · exact h.sends r (mem_rest hf hr) hb
    · rw [(mem_bounceOf hr).2.2.2.2.1] at hb
      cases hb
  constructor
  case send =>
    intro c m h _ hsrc _
    refine ⟨h.minter, fun r hr hb hs => ?_⟩
    rcases List.mem_append.mp hr with hr | hr
    · exact h.sends r hr hb hs
    · obtain rfl := List.mem_singleton.mp hr
      exact absurd hs (owns_of_modelled hV hsrc)
  case ok =>
    intro c i g accept m pre post w' out h _ _ hf _ _ hr
    have hframe := World.receive_framed hr
    by_cases hd : m.dst = D.V
    · rcases World.run_eq_ok (World.receive_vesting hr hd) with ⟨-, hs, rfl⟩ | ⟨-, out', hs, rfl⟩
      · refine ⟨(Vesting.bounced_minter hs).trans h.minter, fun r hr hb => ?_⟩
        rw [List.append_nil] at hr
        exact h.sends r (mem_rest hf hr) hb
      · have hdid := Vesting.receive_did hs
        refine ⟨hdid.minter.trans h.minter, fun r hr hb hsrc => ?_⟩
        rcases List.mem_append.mp hr with hr | hr
        · exact h.sends r (mem_rest hf hr) hb hsrc
        · obtain ⟨r', hr', rfl⟩ := List.mem_map.mp hr
          have hminter := h.minter
          have hwallet : Vesting.jetton_wallet_addr D.wallets (Ctx.of g c.now m) c.st.vesting
              = walletOf D D.V := by
            show D.addr (.jettonWallet m.dst c.st.vesting.jetton_master) = _
            rw [hd, hminter]
          generalize w'.vesting = v' at hdid
          generalize D.opened m.body = b at hdid
          cases hdid with
          | release =>
              obtain rfl := List.mem_singleton.mp hr'
              exact .inr ⟨hwallet, rfl, _, rfl⟩
          | revoke =>
              obtain rfl := List.mem_singleton.mp hr'
              exact .inr ⟨hwallet, rfl, _, rfl⟩
          | idle _ hout => exact .inl (hout r' hr')
    · refine ⟨by rw [hframe.vesting hd]; exact h.minter, fun r hr hb hsrc => ?_⟩
      rcases List.mem_append.mp hr with hr | hr
      · exact h.sends r (mem_rest hf hr) hb hsrc
      · exact absurd ((hframe.out r hr).1.symm.trans hsrc) hd
  case error => exact fun c i g accept m pre post err h _ _ hf _ _ _ => hback h hf
  case outside =>
    exact fun c m pre post h hf _ => ⟨h.minter, fun r hr hb => h.sends r (mem_rest hf hr) hb⟩
  case returned => exact fun c m pre post h hf _ _ => hback h hf
  case wait => exact fun c d h _ => ⟨h.minter, h.sends⟩

/-- What `D.V` has asked for is released or refused, up to the returns under way. -/
def Booked (D : Deployment) (c : WorldConf) (l : Transfers) : Prop :=
  amounts l.sent + load (givesBack D) c.flight
    = c.st.vesting.released_amount + amounts l.refused

/-- The released amount is what the wallet has paid, and what is under way. -/
theorem Booked.released {c : WorldConf} {l : Transfers} (hb : Booked D c l)
    (hf : Follows D D.V c l) :
    c.st.vesting.released_amount = amounts (load (underway D D.V) c.flight) + amounts l.executed
      + load (givesBack D) c.flight := by
  have hkeys := congrArg amounts hf.keys
  simp only [amounts_add] at hkeys
  unfold Booked at hb
  omega

namespace Booked

variable {c : WorldConf} {l : Transfers} {m : Msg} {pre post out : List Msg} {w' : World}

/-- A delivery, in terms of the released amount, the logs and the returns. -/
theorem deliver (h : Booked D c l) (hf : c.flight = pre ++ m :: post)
    {sent executed refused : Multiset Key}
    (heq : c.st.vesting.released_amount + amounts sent + load (givesBack D) out
      = w'.vesting.released_amount + amounts refused + givesBack D m) :
    Booked D ⟨w', pre ++ post ++ out, c.now⟩
      ⟨l.sent + sent, l.executed + executed, l.refused + refused⟩ := by
  unfold Booked at h ⊢
  rw [load_take (givesBack D) hf] at h
  show amounts (l.sent + sent) + load (givesBack D) (pre ++ post ++ out)
    = w'.vesting.released_amount + amounts (l.refused + refused)
  simp only [amounts_add, load_append] at h ⊢
  omega

/-- The vesting contract takes a return, or sends. -/
theorem vesting (h : Booked D c l) (hv : Vests D c) (hf : c.flight = pre ++ m :: post)
    (hd : m.dst = D.V) {g : Gas} (executed : Multiset Key)
    (hr : World.receive D g c.now m c.st = .ok (w', out)) :
    Booked D ⟨w', pre ++ post ++ out, c.now⟩
      ⟨l.sent + load (issued D D.V) out, l.executed + executed,
        l.refused + signalled D D.V c.st (w', out)⟩ := by
  have hframe := World.receive_framed hr
  have hne : m.dst ≠ walletOf D D.V := by rw [hd]; simp
  have hsignal : signalled D D.V c.st (w', out) = 0 :=
    signalled_eq_zero (load_eq_zero fun r hr => signal_of_other ((hframe.out r hr).1 ▸ hne))
  have hreturn : load (givesBack D) out = 0 :=
    load_eq_zero fun r hr => givesBack_original (hframe.out r hr).2
  refine h.deliver hf ?_
  rw [hsignal, hreturn, amounts_zero]
  rcases World.run_eq_ok (World.receive_vesting hr hd) with ⟨hb, hs, rfl⟩ | ⟨hb, out', hs, rfl⟩
  · cases hm : m.body with
    | jettonTransfer t =>
        rw [hm] at hs
        simp only [Vesting.bounced, bind_eq_ok, require_eq_ok, exists_const, Except.ok.injEq] at hs
        obtain ⟨hle, hs⟩ := hs
        simp only [givesBack, hb, hm, hd, if_true, ← hs, load_nil, amounts_zero]
        omega
    | _ =>
        rw [hm] at hs
        rw [← Except.ok.inj hs]
        simp [givesBack, hb, hm]
  · rw [givesBack_original hb]
    have hdid := Vesting.receive_did hs
    have hminter := hv.minter
    have hwallet : Vesting.jetton_wallet_addr D.wallets (Ctx.of g c.now m) c.st.vesting
        = walletOf D D.V := by
      show D.addr (.jettonWallet m.dst c.st.vesting.jetton_master) = _
      rw [hd, hminter]
    have hissued : ∀ q a dest f, amounts (load (issued D D.V) ([Vesting.transfer D.wallets
        (Ctx.of g c.now m) c.st.vesting q a dest f].map (stamp m.dst))) = a := by
      intro q a dest f
      simp [issued, Vesting.transfer, Ctx.message, Deployment.opened, hd, hwallet]
    generalize w'.vesting = v' at hdid ⊢
    generalize D.opened m.body = b at hdid
    cases hdid with
    | release queryId vested hsender hvested hmore =>
        rw [hissued]
        show _ = vested + 0 + 0
        omega
    | revoke cell queryId hsender hmore =>
        rw [hissued]
        show _ = c.st.vesting.total_amount + 0 + 0
        omega
    | idle _ hout =>
        have hnone : load (issued D D.V) (out'.map (stamp m.dst)) = 0 :=
          load_quiet issued_quiet (fun r hr => by rw [hout r hr]; rfl) m.dst
        rw [hnone]
        rfl

/-- A delivery that leaves the state alone. -/
theorem still (h : Booked D c l) (hf : c.flight = pre ++ m :: post) (refused : Multiset Key)
    (heq : load (givesBack D) out = amounts refused + givesBack D m) :
    Booked D ⟨c.st, pre ++ post ++ out, c.now⟩ { l with refused := l.refused + refused } := by
  have hdeliver : Booked D ⟨c.st, pre ++ post ++ out, c.now⟩
      ⟨l.sent + 0, l.executed + 0, l.refused + refused⟩ := by
    refine h.deliver hf ?_
    rw [amounts_zero]
    omega
  simp only [add_zero] at hdeliver
  exact hdeliver

theorem drop (h : Booked D c l) (hf : c.flight = pre ++ m :: post)
    (heq : load (givesBack D) out = givesBack D m) :
    Booked D ⟨c.st, pre ++ post ++ out, c.now⟩ l := by
  have hstill : Booked D ⟨c.st, pre ++ post ++ out, c.now⟩ { l with refused := l.refused + 0 } :=
    h.still hf 0 (by rw [heq, amounts_zero, Nat.zero_add])
  simp only [add_zero] at hstill
  exact hstill

end Booked

/-- A wallet whose commits are carried out signals no failure by an accepted
message. -/
theorem signalled_of_committed {c : WorldConf} {l : Transfers} {O : Address} {m : Msg} {g : Gas}
    {w' : World} {out : List Msg} (h : Follows D O c l) (hok : WalletsOk D c.st)
    (hm : m ∈ c.flight) (hc : committed D O c.st c.now g m = true)
    (hr : World.receive D g c.now m c.st = .ok (w', out)) :
    signalled D O c.st (w', out) = 0 := by
  refine signalled_eq_zero ?_
  show load (signal D O) out = 0
  by_cases hd : m.dst = walletOf D O
  · rcases receive_seen (O := O) hr with ⟨-, -, x, x', hx, -, hrun⟩ | ⟨hJ, -⟩ | ⟨hW, -⟩
    · rcases World.run_eq_ok hrun with ⟨-, -, rfl⟩ | ⟨hb, out', hs, rfl⟩
      · rfl
      · have hwallet := (walletAt_has walletOk_init hok hx).1
        have hh := BurnJettonWallet.receive_handled hwallet.config hs
        generalize hopen : D.opened m.body = b at hh hs
        cases hh with
        | executed _ _ _ _ _ _ _ _ hquiet => exact load_quiet signal_quiet hquiet m.dst
        | other _ _ _ _ hquiet => exact load_quiet signal_quiet hquiet m.dst
        | resolved => simp [signal, Ctx.message, Deployment.opened]
        | reported t hsender =>
            -- the wallet is deployed, and its commit would have been carried out
            have hsrc : m.src = D.J := hsender.trans hwallet.master
            obtain ⟨-, -, y, hy, -⟩ := (h.proper m hm hb).commit hsrc hd t hopen
            have hlook : c.st.jetton.wallets.lookup (walletOf D O) = some x := by
              rcases walletAt_cases hx with hx | ⟨hnone, -⟩
              · exact hd ▸ hx
              · rw [hd, hy] at hnone
                cases hnone
            have hexec : x.executes (Ctx.of g c.now m) t = true := by
              simpa [committed, hb, hopen, hsrc, hd, hlook] using hc
            exact absurd (BurnJettonWallet.receiveCommit_quiet hexec hs _ (List.mem_singleton.mpr rfl))
              Bool.true_eq_false.mp
    · exact absurd (hd.symm.trans hJ) (by simp)
    · exact absurd hd hW
  · exact load_eq_zero fun r hr' =>
      signal_of_other (((World.receive_framed hr).out r hr').1 ▸ hd)

/-- The return of a rejected transfer of the vesting contract is its signal. -/
theorem rejected_amounts {c : WorldConf} {m : Msg} (hv : Vests D c) (hm : m ∈ c.flight) :
    load (givesBack D) (bounceOf m) = amounts (load (signal D D.V) (bounceOf m)) := by
  unfold bounceOf
  split
  · rename_i hb
    simp only [Bool.and_eq_true, Bool.not_eq_true'] at hb
    by_cases hs : m.src = D.V
    · rcases hv.sends m hm hb.2 hs with hbody | ⟨hdst, -, t, hbody⟩
      · simp [givesBack, signal, hbody, Deployment.opened]
      · simp [givesBack, signal, hbody, Deployment.opened, hs, hdst]
    · have hsignal : signal D D.V ⟨m.dst, m.src, m.value, false, true, false, m.body⟩ = 0 := by
        unfold signal
        split <;> simp [hs]
      rw [load_cons, load_cons, hsignal, givesBack_elsewhere hs]
      rfl
  · rfl

theorem unhindered_of_committed {c : WorldConf} {m : Msg} {g : Gas} (hv : Vests D c)
    (hm : m ∈ c.flight) (h : committed D D.V c.st c.now g m = true) :
    unhindered D D.V c.st c.now g m = true := by
  unfold committed at h
  unfold unhindered
  cases hb : m.bounced with
  | true => rfl
  | false =>
      rw [hb] at h
      cases hopen : D.opened m.body with
      | jettonTransfer t =>
          by_cases hat : m.src = D.V ∧ m.dst = walletOf D D.V
          · rcases hv.sends m hm hb hat.1 with hbody | ⟨-, hbounce, -⟩
            · rw [hbody] at hopen
              cases hopen
            · simp [hbounce]
          · simp [hat]
      | resolveJettonTransfer t => simpa [hopen] using h
      | commitJettonTransfer t =>
          simp only [hopen, Bool.or_eq_true] at h ⊢
          refine h.imp_right fun h => ?_
          cases hx : c.st.jetton.wallets.lookup (walletOf D D.V) with
          | some x =>
              rw [hx] at h
              exact BurnJettonWallet.sinksReachable_of_executes h
          | none => rfl
      | _ => rfl

/-- A return to the vesting contract is never refused. -/
theorem givesBack_accepted {c : WorldConf} {l : Transfers} {m : Msg} {g : Gas} {err : String}
    (hb : Booked D c l) (hf : Follows D D.V c l) (hm : m ∈ c.flight) (hd : m.dst = D.V)
    (hr : World.receive D g c.now m c.st = .error err) : givesBack D m = 0 := by
  unfold givesBack
  split
  · rename_i t hbounced hbody
    have hle : t.amount ≤ c.st.vesting.released_amount := by
      have hload := le_load (givesBack D) hm
      have hgivesBack : givesBack D m = t.amount := by simp [givesBack, hbounced, hbody, hd]
      rw [hb.released hf]
      omega
    unfold World.receive at hr
    simp only [hd, D.partAt_addr, World.run, hbounced, if_true, hbody, Vesting.bounced,
      require_pos hle, ok_bind] at hr
    cases hr
  · rfl

theorem vesting_track (hV : (network D modelled ordered).owns D.V = true)
    (hJ : (network D modelled ordered).owns D.J = true)
    (hW : (network D modelled ordered).owns (walletOf D D.V) = true) :
    (network D modelled ordered).Tracks
      (fun c a => Meets (fun w now g m => committed D D.V w now g m = true) c a
        ∧ WalletsOk D c.st ∧ ∃ list, Listing c.st.jetton.master list)
      (transfersRecorder D D.V) (fun c l => Follows D D.V c l ∧ Booked D c l ∧ Vests D c) := by
  have hfollows : (network D modelled ordered).Tracks _ (transfersRecorder D D.V) (Follows D D.V) :=
    transfers_track hJ hW
  have hvests : (network D modelled ordered).Preserves (fun _ _ => True) (Vests D) :=
    vests_preserved hV
  have hguard : ∀ {c : WorldConf} {i : Nat} {g : Gas} {accept : Bool} {m : Msg}, Vests D c →
      c.flight[i]? = some m →
      Meets (fun w now g m => committed D D.V w now g m = true) c (.deliver i g accept) →
      Meets (fun w now g m => unhindered D D.V w now g m = true) c (.deliver i g accept) := by
    intro c i g accept m hv hm hmeets
    simp only [Meets, hm] at hmeets ⊢
    exact unhindered_of_committed hv (List.mem_of_getElem? hm) hmeets
  constructor
  case send =>
    rintro c l m ⟨h, hb, hv⟩ hg hsrc hbounced
    refine ⟨hfollows.send c l m h ⟨trivial, hg.2⟩ hsrc hbounced, ?_,
      hvests.send c m hv trivial hsrc hbounced⟩
    have hissued : issued D D.V m = 0 := by
      unfold issued
      split <;> simp [owns_of_modelled hV hsrc]
    show Booked D _ { l with sent := l.sent + issued D D.V m }
    unfold Booked at hb ⊢
    simp only [hissued, add_zero, load_append, load_cons, load_nil, givesBack_original hbounced]
    exact hb
  case ok =>
    rintro c l i g accept m pre post w' out ⟨h, hb, hv⟩ ⟨hmeets, hok, hlist⟩ hm hf hbl ho hr
    refine ⟨hfollows.ok c l i g accept m pre post w' out h ⟨hguard hv hm hmeets, hok, hlist⟩ hm hf
      hbl ho hr, ?_, hvests.ok c i g accept m pre post w' out hv trivial hm hf hbl ho hr⟩
    by_cases hd : m.dst = D.V
    · exact hb.vesting hv hf hd _ hr
    · have hframe := World.receive_framed hr
      have hissued : load (issued D D.V) out = 0 := by
        refine load_eq_zero fun r hr' => ?_
        have hsrc : r.src ≠ D.V := (hframe.out r hr').1 ▸ hd
        unfold issued
        split <;> simp [hsrc]
      have hsignal := signalled_of_committed h hok (List.mem_of_getElem? hm) (hmeets.at hm) hr
      have hreturn : load (givesBack D) out = 0 :=
        load_eq_zero fun r hr => givesBack_original (hframe.out r hr).2
      refine hb.deliver hf ?_
      rw [hframe.vesting hd, hissued, hsignal, hreturn, givesBack_elsewhere hd]
  case error =>
    rintro c l i g accept m pre post err ⟨h, hb, hv⟩ ⟨hmeets, hok, hlist⟩ hm hf hbl ho hr
    refine ⟨hfollows.error c l i g accept m pre post err h ⟨hguard hv hm hmeets, hok, hlist⟩ hm hf
      hbl ho hr, ?_, hvests.error c i g accept m pre post err hv trivial hm hf hbl ho hr⟩
    have hmem : m ∈ c.flight := List.mem_of_getElem? hm
    have hzero : givesBack D m = 0 := by
      by_cases hd : m.dst = D.V
      · exact givesBack_accepted hb h hmem hd hr
      · exact givesBack_elsewhere hd
    exact hb.still hf _ (by rw [hzero, rejected_amounts hv hmem, Nat.add_zero])
  case outside =>
    rintro c l m pre post ⟨h, hb, hv⟩ hf hd
    refine ⟨hfollows.outside c l m pre post h hf hd, ?_, hvests.outside c m pre post hv hf hd⟩
    rw [← List.append_nil (pre ++ post)]
    exact hb.drop hf (givesBack_elsewhere (owns_of_modelled hV hd)).symm
  case returned =>
    rintro c l m pre post ⟨h, hb, hv⟩ hf hbl hd
    refine ⟨hfollows.returned c l m pre post h hf hbl hd, hb.drop hf ?_,
      hvests.returned c m pre post hv hf hbl hd⟩
    have hmem : m ∈ c.flight := by
      rw [hf]
      simp
    have hsignal : load (signal D D.V) (bounceOf m) = 0 :=
      load_eq_zero fun r hr => signal_of_other ((mem_bounceOf hr).2.2.1 ▸ owns_of_modelled hW hd)
    rw [rejected_amounts hv hmem, hsignal, givesBack_elsewhere (owns_of_modelled hV hd),
      amounts_zero]
  case wait =>
    rintro c l d ⟨h, hb, hv⟩ hg
    exact ⟨hfollows.wait c l d h ⟨trivial, hg.2⟩, hb, hvests.wait c d hv trivial⟩

/-- **The vesting books match the wallet.** In every run from a fresh vesting
contract and a fresh jetton in which the commits of the vesting wallet's transfers
are carried out, `released_amount` is the amount that left the vesting wallet by
its transfers, together with what is under way or on its way back; so it is
exactly that amount when nothing is in flight. -/
theorem vesting_books {c₀ c : WorldConf} {l : Transfers}
    (hV : (network D modelled ordered).owns D.V = true)
    (hJ : (network D modelled ordered).owns D.J = true)
    (hW : (network D modelled ordered).owns (walletOf D D.V) = true)
    (hflight : c₀.flight = []) (hwallets : c₀.st.jetton.wallets = ∅)
    (hhead : c₀.st.jetton.master.excludedHead = emptyExcludedHead)
    (hcount : c₀.st.jetton.master.excludedCount = 0)
    (hminter : c₀.st.vesting.jetton_master = D.J)
    (hzero : c₀.st.vesting.released_amount = 0)
    (h : (network D modelled ordered).Logged
      (Meets fun w now g m => Typed D w now g m ∧ committed D D.V w now g m = true)
      (transfersRecorder D D.V) c₀ ⟨0, 0, 0⟩ c l) :
    c.st.vesting.released_amount = amounts (load (underway D D.V) c.flight) + amounts l.executed
        + load (givesBack D) c.flight
      ∧ (c.flight = [] → c.st.vesting.released_amount = amounts l.executed) := by
  have hreleased : c.st.vesting.released_amount = amounts (load (underway D D.V) c.flight)
      + amounts l.executed + load (givesBack D) c.flight := by
    have hstart : Follows D D.V c₀ ⟨0, 0, 0⟩ ∧ Booked D c₀ ⟨0, 0, 0⟩ ∧ Vests D c₀ := by
      refine ⟨follows_of_empty hflight hwallets, ?_, hminter, fun m hm => ?_⟩
      · simp [Booked, hflight, hzero]
      · rw [hflight] at hm
        cases hm
    obtain ⟨hf, hb, -⟩ := (logged_sound hwallets hhead hcount h).invariant
      (vesting_track hV hJ hW) hstart
    exact hb.released hf
  refine ⟨hreleased, fun hc => ?_⟩
  rw [hreleased, hc]
  simp

/-- The vesting contract and the jetton are modelled. -/
def vestingParts : Part → Bool
  | .jettonMaster | .jettonWallet _ _ | .vesting => true
  | _ => false

/-- Delivers the oldest message, `n` times. -/
def deliverNext (n : Nat) : List (Action Address Body Gas) :=
  List.replicate n (.deliver 0 (freeGas (milliTon 3400)) true)

/-- The beneficiary releases what has vested. -/
def releaseNow : List (Action Address Body Gas) :=
  [.send (external (account 5) D₀.V (milliTon 4000) (.vestRelease 1)), .deliver 0 (freeGas 0) true]

/-- A release of 30 out of 100, through the master and back. -/
theorem vesting_books_release :
    ∃ c l, (network D₀ vestingParts fun _ _ => false).execWhile
        (fun c a => decide (Meets (fun w now g m => Typed D₀ w now g m
          ∧ committed D₀ D₀.V w now g m = true) c a)) (transfersRecorder D₀ D₀.V)
        (bootstrapAt 30) ⟨0, 0, 0⟩ (excludedOwner D₀.V 100 ++ releaseNow ++ deliverNext 9)
        = some (c, l)
      ∧ c.flight = [] ∧ l.executed = {(1, 30)}
      ∧ c.st.vesting.released_amount = amounts l.executed := by
  have hrun : ((network D₀ vestingParts fun _ _ => false).execWhile
      (fun c a => decide (Meets (fun w now g m => Typed D₀ w now g m
        ∧ committed D₀ D₀.V w now g m = true) c a)) (transfersRecorder D₀ D₀.V)
      (bootstrapAt 30) ⟨0, 0, 0⟩ (excludedOwner D₀.V 100 ++ releaseNow ++ deliverNext 9)).map
        (fun r => (r.1.flight.length, r.2.executed)) = some (0, {(1, 30)}) := by
    decide +kernel
  obtain ⟨⟨c, l⟩, hc, hrun⟩ := Option.map_eq_some_iff.mp hrun
  obtain ⟨hlength, hl⟩ : c.flight.length = 0 ∧ l.executed = {(1, 30)} := Prod.mk.inj hrun
  have hflight : c.flight = [] := List.eq_nil_of_length_eq_zero hlength
  exact ⟨c, l, hc, hflight, hl, (vesting_books (by decide +kernel) (by decide +kernel)
    (by decide +kernel) rfl rfl rfl rfl rfl rfl
    (Machine.logged_of_execWhile (fun _ _ h => of_decide_eq_true h) hc)).2 hflight⟩

/-- A release of 30 and the revocation of the other 70, from a wallet that holds 80. -/
def releaseAndRevoke : List (Action Address Body Gas) :=
  excludedOwner D₀.V 80 ++ releaseNow ++
  [.send (external D₀.T D₀.V (milliTon 4000) (.raw revokeCell)), .deliver 1 (freeGas 0) true]
  ++ deliverNext 14

/-- Both transfers enter, and the commit of the second fails: the contract counts
100 as released, and 30 have left the wallet. -/
theorem revocation_lost :
    ∃ c l, (network D₀ vestingParts fun _ _ => false).Logged (Meets (Typed D₀))
        (transfersRecorder D₀ D₀.V) (bootstrapAt 30) ⟨0, 0, 0⟩ c l
      ∧ c.flight = [] ∧ amounts l.executed = 30 ∧ c.st.vesting.released_amount = 100
      ∧ c.st.vesting.total_amount = 100 := by
  have hrun : ((network D₀ vestingParts fun _ _ => false).execWhile
      (fun c a => decide (Meets (Typed D₀) c a)) (transfersRecorder D₀ D₀.V) (bootstrapAt 30)
      ⟨0, 0, 0⟩ releaseAndRevoke).map (fun r => (r.1.flight.length, amounts r.2.executed,
        r.1.st.vesting.released_amount, r.1.st.vesting.total_amount)) = some (0, 30, 100, 100) := by
    decide +kernel
  obtain ⟨⟨c, l⟩, hc, hrun⟩ := Option.map_eq_some_iff.mp hrun
  simp only [Prod.mk.injEq] at hrun
  obtain ⟨hlength, hexecuted, hreleased, htotal⟩ := hrun
  exact ⟨c, l, Machine.logged_of_execWhile (fun _ _ h => of_decide_eq_true h) hc,
    List.eq_nil_of_length_eq_zero hlength, hexecuted, hreleased, htotal⟩

end Runs

end BurnedChats

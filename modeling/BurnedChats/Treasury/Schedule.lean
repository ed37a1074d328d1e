import BurnedChats.Bootstrap

/-!
# The vesting schedule

`vested_amount` grows from nothing at the cliff to the whole allocation at the
end, linearly in between. The vesting contract counts what it has sent in one
number, releases to the beneficiary and revocations alike, and takes returned
transfers out of it. Separated again (`Shares`), the beneficiary's share never
exceeds what has vested.
-/

namespace BurnedChats

open Network

namespace Vesting

variable {W : WalletBook} {ctx : Ctx} {v v' : Vesting} {b : Body} {out : List Msg}

/-! ## Vested amounts -/

/-- The vested amount of a well-formed schedule. -/
def vestedAt (v : Vesting) (t : Nat) : Nat :=
  if t < v.start_time + v.cliff_duration then 0
  else if v.start_time + v.vesting_duration ≤ t then v.total_amount
  else v.total_amount * (t - v.start_time - v.cliff_duration)
    / (v.vesting_duration - v.cliff_duration)

theorem vested_amount_eq (h : v.cliff_duration ≤ v.vesting_duration) (t : Nat) :
    v.vested_amount t = .ok (v.vestedAt t) := by
  simp only [vested_amount, vestedAt, require_pos h, ok_bind]
  split
  · rfl
  · split
    · rfl
    · -- between cliff and end the window is not empty
      rw [require_pos (by omega), ok_bind]

theorem vestedAt_before {t : Nat} (h : t < v.start_time + v.cliff_duration) : v.vestedAt t = 0 :=
  if_pos h

theorem vestedAt_after (hc : v.cliff_duration ≤ v.vesting_duration) {t : Nat}
    (h : v.start_time + v.vesting_duration ≤ t) : v.vestedAt t = v.total_amount := by
  rw [vestedAt, if_neg (by omega), if_pos h]

theorem vestedAt_le_total (t : Nat) : v.vestedAt t ≤ v.total_amount := by
  unfold vestedAt
  split
  · exact Nat.zero_le _
  · split
    · exact Nat.le_refl _
    · refine Nat.div_le_of_le_mul ?_
      rw [Nat.mul_comm]
      exact Nat.mul_le_mul_right _ (by omega)

theorem vestedAt_mono {t t' : Nat} (h : t ≤ t') : v.vestedAt t ≤ v.vestedAt t' := by
  by_cases hend : v.start_time + v.cliff_duration ≤ t' ∧ v.start_time + v.vesting_duration ≤ t'
  · have hafter : v.vestedAt t' = v.total_amount := by
      rw [vestedAt, if_neg (by omega), if_pos hend.2]
    rw [hafter]
    exact vestedAt_le_total t
  · by_cases hcliff : t < v.start_time + v.cliff_duration
    · rw [vestedAt_before hcliff]
      exact Nat.zero_le _
    · rw [vestedAt, vestedAt, if_neg hcliff, if_neg (by omega), if_neg (by omega),
        if_neg (by omega)]
      exact Nat.div_le_div_right (Nat.mul_le_mul_left _ (by omega))

/-! ## One execution -/

/-- What an accepted message does: a release, a revocation, or nothing. -/
inductive Did (W : WalletBook) (ctx : Ctx) (v : Vesting) : Body → Vesting → List Msg → Prop where
  | release (queryId vested : Nat) (hsender : ctx.sender = v.beneficiary)
      (hvested : v.vested_amount ctx.now = .ok vested) (hmore : v.released_amount < vested) :
      Did W ctx v (.vestRelease queryId) { v with released_amount := vested }
        [transfer W ctx v queryId (vested - v.released_amount) v.beneficiary 0]
  | revoke (c : Cell) (queryId : Nat) (hsender : ctx.sender = v.timelock)
      (hmore : v.released_amount < v.total_amount) :
      Did W ctx v (.raw c) { v with released_amount := v.total_amount }
        [transfer W ctx v queryId (v.total_amount - v.released_amount) v.treasury
          gasTreasuryForwardMin]
  | idle (out : List Msg) (hout : ∀ m ∈ out, m.body = .empty) : Did W ctx v .empty v out

theorem receive_did (h : v.receive W ctx b = .ok (v', out)) : Did W ctx v b v' out := by
  cases b with
  | empty =>
      obtain ⟨rfl, rfl⟩ := Prod.mk.inj (Except.ok.inj h)
      refine .idle _ fun m hm => ?_
      split at hm
      · obtain rfl := List.mem_singleton.mp hm
        rfl
      · cases hm
  | vestRelease queryId =>
      simp only [receive, receiveRelease, releasable_amount, bind_eq_ok, require_eq_ok,
        exists_const, Except.ok.injEq, Prod.mk.injEq] at h
      obtain ⟨hsender, amount, ⟨vested, hvested, rfl⟩, hpos, rfl, rfl⟩ := h
      have hmore : v.released_amount < vested := by
        split at hpos
        · omega
        · exact absurd hpos (Nat.lt_irrefl 0)
      have hamount : (if (0 : Int) < vested - v.released_amount
          then ((vested : Int) - v.released_amount).toNat else 0) = vested - v.released_amount := by
        rw [if_pos (by omega)]
        omega
      have hsum : v.released_amount + (vested - v.released_amount) = vested := by omega
      rw [hamount, hsum]
      exact .release queryId vested hsender hvested hmore
  | raw c =>
      simp only [receive, bind_eq_ok, Prod.exists] at h
      obtain ⟨op, s, -, h⟩ := h
      split at h
      · simp only [receiveEmergencyRevoke, bind_eq_ok, require_eq_ok, exists_const, Prod.exists,
          Except.ok.injEq, Prod.mk.injEq] at h
        obtain ⟨queryId, _, -, hsender, -, hpos, rfl, rfl⟩ := h
        have hamount : ((v.total_amount : Int) - v.released_amount).toNat
            = v.total_amount - v.released_amount := by omega
        rw [hamount]
        exact .revoke c queryId hsender (by omega)
      · cases h
  | _ => cases h

end Vesting

/-! ## Shares -/

/-- What was sent and not returned, by purpose. -/
structure Shares where
  released : Nat
  revoked : Nat

/-- A release forwards no TON; a revocation notifies the treasury. -/
def JettonTransfer.isRelease (t : JettonTransfer) : Bool := t.forwardTonAmount == 0

namespace Shares

def sent (l : Shares) (t : JettonTransfer) : Shares :=
  if t.isRelease then { l with released := l.released + t.amount }
  else { l with revoked := l.revoked + t.amount }

def returned (l : Shares) (t : JettonTransfer) : Shares :=
  if t.isRelease then { l with released := l.released - t.amount }
  else { l with revoked := l.revoked - t.amount }

/-- The log after an execution that sent `out`. -/
def after (l : Shares) (out : List Msg) : Shares :=
  out.foldl (fun l m => match m.body with | .jettonTransfer t => l.sent t | _ => l) l

theorem after_transfer (l : Shares) {a : Address} {m : Msg} {t : JettonTransfer}
    (h : m.body = .jettonTransfer t) : l.after ([m].map (stamp a)) = l.sent t := by
  simp [after, h]

theorem after_empty (l : Shares) {a : Address} {out : List Msg} (h : ∀ m ∈ out, m.body = .empty) :
    l.after (out.map (stamp a)) = l := by
  induction out with
  | nil => rfl
  | cons m out ih =>
      obtain ⟨hm, ho⟩ := List.forall_mem_cons.mp h
      simp only [after, List.map_cons, List.foldl_cons, stamp_body, hm]
      exact ih ho

end Shares

/-- Logs the transfers of the vesting contract and their returns. -/
def sharesRecorder (D : Deployment) : Machine.Recorder Address Body Gas World Shares where
  accepted _ _ m _ r l :=
    if m.dst = D.V then
      if m.bounced then
        match m.body with
        | .jettonTransfer t => l.returned t
        | _ => l
      else l.after r.2
    else l

/-- What a message under way may still give back to one of the shares. -/
def returnable (D : Deployment) (release : Bool) (m : Msg) : Nat :=
  match m.body with
  | .jettonTransfer t =>
      if t.isRelease = release ∧ (m.bounced = false ∧ m.src = D.V ∨ m.bounced = true ∧ m.dst = D.V)
      then t.amount else 0
  | _ => 0

section Runs

variable {D : Deployment} {modelled : Part → Bool} {ordered : Address → Address → Bool}

theorem returnable_other {release : Bool} {m : Msg} (hs : m.src ≠ D.V) (hb : m.bounced = false) :
    returnable D release m = 0 := by
  unfold returnable
  split
  · rw [if_neg (by simp [hs, hb])]
  · rfl

theorem returnable_bounceOf (release : Bool) (m : Msg) :
    load (returnable D release) (bounceOf m) ≤ returnable D release m := by
  unfold bounceOf
  split
  · rename_i hb
    simp only [Bool.and_eq_true, Bool.not_eq_true'] at hb
    simp only [load_cons, load_nil, returnable, hb.2]
    cases m.body with
    | jettonTransfer t => simp
    | _ => exact Nat.le_refl _
  · exact Nat.zero_le _

/-- The schedule `v` in a configuration: nothing but `released_amount` has changed,
it is the sum of the shares, what may come back is part of them, and the
beneficiary's share has vested. -/
structure OnSchedule (D : Deployment) (v : Vesting) (c : WorldConf) (l : Shares) : Prop where
  same : c.st.vesting = { v with released_amount := l.released + l.revoked }
  total : l.released + l.revoked ≤ v.total_amount
  vested : l.released ≤ v.vestedAt c.now
  released : load (returnable D true) c.flight ≤ l.released
  revoked : load (returnable D false) c.flight ≤ l.revoked

namespace OnSchedule

variable {v : Vesting} {c : WorldConf} {l : Shares} {m : Msg} {pre post out : List Msg} {w' : World}

theorem carry (h : OnSchedule D v c l) {c' : WorldConf} (hv : c'.st.vesting = c.st.vesting)
    (hnow : c.now ≤ c'.now)
    (hload : ∀ k, load (returnable D k) c'.flight ≤ load (returnable D k) c.flight) :
    OnSchedule D v c' l :=
  ⟨hv.trans h.same, h.total, h.vested.trans (Vesting.vestedAt_mono hnow),
    (hload true).trans h.released, (hload false).trans h.revoked⟩

/-- A message is taken out of the flight, and its return may come back. -/
theorem drop (h : OnSchedule D v c l) (hf : c.flight = pre ++ m :: post) (s : World)
    (hv : s.vesting = c.st.vesting) (hout : ∀ k, load (returnable D k) out ≤ returnable D k m) :
    OnSchedule D v ⟨s, pre ++ post ++ out, c.now⟩ l := by
  refine h.carry hv (Nat.le_refl _) fun k => ?_
  rw [load_append, load_take (returnable D k) hf, Nat.add_comm]
  exact Nat.add_le_add_right (hout k) _

theorem elsewhere (h : OnSchedule D v c l) (hf : c.flight = pre ++ m :: post)
    (hd : m.dst ≠ D.V) {g : Gas} (hr : World.receive D g c.now m c.st = .ok (w', out)) :
    OnSchedule D v ⟨w', pre ++ post ++ out, c.now⟩ l := by
  have hframe := World.receive_framed hr
  refine h.drop hf w' (hframe.vesting hd) fun k => ?_
  rw [load_eq_zero fun r hr => returnable_other ((hframe.out r hr).1 ▸ hd) (hframe.out r hr).2]
  exact Nat.zero_le _

/-- A transfer comes back. -/
theorem returned (h : OnSchedule D v c l) (hf : c.flight = pre ++ m :: post)
    (hd : m.dst = D.V) (hb : m.bounced = true) {t : JettonTransfer}
    (hbody : m.body = .jettonTransfer t)
    (hr : c.st.vesting.bounced (.jettonTransfer t) = .ok w'.vesting) :
    OnSchedule D v ⟨w', pre ++ post ++ [], c.now⟩ (l.returned t) := by
  simp only [Vesting.bounced, bind_eq_ok, require_eq_ok, exists_const, Except.ok.injEq] at hr
  obtain ⟨-, hw⟩ := hr
  have htotal := h.total
  have hvested := h.vested
  have hrel := h.released
  have hrev := h.revoked
  rw [load_take (returnable D _) hf] at hrel hrev
  have hm : ∀ k, returnable D k m = if t.isRelease = k then t.amount else 0 := by
    intro k
    simp [returnable, hbody, hb, hd]
  rw [hm] at hrel hrev
  rw [List.append_nil]
  cases hk : t.isRelease with
  | true =>
      simp only [hk, if_true] at hrel
      have hlog : l.returned t = { l with released := l.released - t.amount } := by
        simp [Shares.returned, hk]
      rw [hlog]
      refine ⟨?_, ?_, ?_, ?_, ?_⟩
      · rw [← hw, h.same]
        simp only [Vesting.mk.injEq, true_and, and_true]
        omega
      all_goals simp only [hk] at *; omega
  | false =>
      simp only [hk, if_true] at hrev
      have hlog : l.returned t = { l with revoked := l.revoked - t.amount } := by
        simp [Shares.returned, hk]
      rw [hlog]
      refine ⟨?_, ?_, ?_, ?_, ?_⟩
      · rw [← hw, h.same]
        simp only [Vesting.mk.injEq, true_and, and_true]
        omega
      all_goals simp only [hk] at *; omega

/-- A transfer is sent, and the share it belongs to grows by its amount. -/
theorem sent (h : OnSchedule D v c l) (hf : c.flight = pre ++ m :: post) (hd : m.dst = D.V)
    {t : JettonTransfer} {r : Msg} (hbody : r.body = .jettonTransfer t)
    (hw : w'.vesting = { v with released_amount := l.released + l.revoked + t.amount })
    (htotal : l.released + l.revoked + t.amount ≤ v.total_amount)
    (hvested : t.isRelease = true → l.released + t.amount ≤ v.vestedAt c.now) :
    OnSchedule D v ⟨w', pre ++ post ++ [r].map (stamp m.dst), c.now⟩ (l.sent t) := by
  have hv := h.vested
  have hrel := h.released
  have hrev := h.revoked
  rw [load_take (returnable D _) hf] at hrel hrev
  have hr : ∀ k, load (returnable D k) ([r].map (stamp m.dst))
      = if t.isRelease = k then t.amount else 0 := by
    intro k
    simp [returnable, hbody, hd]
  have hload : ∀ k, load (returnable D k) (pre ++ post ++ [r].map (stamp m.dst))
      = load (returnable D k) (pre ++ post) + if t.isRelease = k then t.amount else 0 := by
    intro k
    rw [load_append, hr]
  cases hk : t.isRelease with
  | true =>
      have hlog : l.sent t = { l with released := l.released + t.amount } := by
        simp [Shares.sent, hk]
      rw [hlog]
      refine ⟨?_, ?_, hvested hk, ?_, ?_⟩
      · rw [hw]
        simp only [Vesting.mk.injEq, true_and, and_true]
        omega
      · show l.released + t.amount + l.revoked ≤ _
        omega
      · rw [hload true, if_pos hk]
        show _ ≤ l.released + t.amount
        omega
      · rw [hload false, if_neg (by simp [hk])]
        show _ ≤ l.revoked
        omega
  | false =>
      have hlog : l.sent t = { l with revoked := l.revoked + t.amount } := by
        simp [Shares.sent, hk]
      rw [hlog]
      refine ⟨?_, ?_, hv, ?_, ?_⟩
      · rw [hw]
        simp only [Vesting.mk.injEq, true_and, and_true]
        omega
      · show l.released + (l.revoked + t.amount) ≤ _
        omega
      · rw [hload true, if_neg (by simp [hk])]
        show _ ≤ l.released
        omega
      · rw [hload false, if_pos hk]
        show _ ≤ l.revoked + t.amount
        omega

theorem did (h : OnSchedule D v c l) (hc : v.cliff_duration ≤ v.vesting_duration)
    (hf : c.flight = pre ++ m :: post) (hd : m.dst = D.V) {g : Gas} {b : Body}
    (hdid : Vesting.Did D.wallets (Ctx.of g c.now m) c.st.vesting b w'.vesting out) :
    OnSchedule D v ⟨w', pre ++ post ++ out.map (stamp m.dst), c.now⟩
      (l.after (out.map (stamp m.dst))) := by
  have hsame := h.same
  have htotal := h.total
  generalize hs' : w'.vesting = s' at hdid
  cases hdid with
  | release queryId vested hsender hv hmore =>
      rw [hsame] at hv hmore hs' ⊢
      have hat : v.vestedAt c.now = vested := by
        have heq : Vesting.vested_amount { v with released_amount := l.released + l.revoked } c.now
          = .ok (v.vestedAt c.now) := Vesting.vested_amount_eq hc c.now
        rw [show (Ctx.of g c.now m).now = c.now from rfl, heq] at hv
        exact Except.ok.inj hv
      have hle := v.vestedAt_le_total c.now
      replace hmore : l.released + l.revoked < vested := hmore
      rw [Shares.after_transfer l rfl]
      refine h.sent hf hd rfl ?_ ?_ ?_
      · rw [hs']
        simp only [Vesting.mk.injEq, true_and, and_true]
        omega
      · show l.released + l.revoked + (vested - (l.released + l.revoked)) ≤ _
        omega
      · intro _
        show l.released + (vested - (l.released + l.revoked)) ≤ _
        omega
  | revoke cell queryId hsender hmore =>
      rw [hsame] at hmore hs' ⊢
      replace hmore : l.released + l.revoked < v.total_amount := hmore
      rw [Shares.after_transfer l rfl]
      refine h.sent hf hd rfl ?_ ?_ ?_
      · rw [hs']
        simp only [Vesting.mk.injEq, true_and, and_true]
        omega
      · show l.released + l.revoked + (v.total_amount - (l.released + l.revoked)) ≤ _
        omega
      · intro hk
        have hforward : (Vesting.gasTreasuryForwardMin == 0) = false := by decide
        exact absurd (hforward.symm.trans hk) Bool.false_ne_true
  | idle _ hout =>
      rw [Shares.after_empty l hout]
      refine h.drop hf w' hs' fun k => ?_
      rw [load_eq_zero fun r hr => ?_]
      · exact Nat.zero_le _
      · obtain ⟨r', hr', rfl⟩ := List.mem_map.mp hr
        simp [returnable, hout r' hr']

end OnSchedule

theorem schedule_tracks {v : Vesting} (hown : (network D modelled ordered).owns D.V = true)
    (hc : v.cliff_duration ≤ v.vesting_duration) :
    (network D modelled ordered).Tracks (fun _ _ => True) (sharesRecorder D) (OnSchedule D v) := by
  constructor
  case send =>
    intro c l m h _ hsrc hb
    refine h.carry rfl (Nat.le_refl _) fun k => ?_
    rw [load_append, load_cons, returnable_other (owns_of_modelled hown hsrc) hb]
    exact Nat.le_refl _
  case ok =>
    intro c l i g accept m pre post w' out h _ _ hf _ _ hr
    show OnSchedule D v _ (if m.dst = D.V then _ else l)
    by_cases hd : m.dst = D.V
    · rw [if_pos hd]
      rcases World.run_eq_ok (World.receive_vesting hr hd) with ⟨hb, hs, rfl⟩ | ⟨hb, out', hs, rfl⟩
      · rw [if_pos hb]
        split
        · rename_i t hbody
          rw [hbody] at hs
          exact h.returned hf hd hb hbody hs
        · rename_i hbody
          refine h.drop hf w' ?_ fun k => Nat.zero_le _
          cases hm : m.body with
          | jettonTransfer t => exact absurd hm (hbody t)
          | _ =>
              rw [hm] at hs
              exact (Except.ok.inj hs).symm
      · rw [if_neg (by simp [hb])]
        exact h.did hc hf hd (Vesting.receive_did hs)
    · rw [if_neg hd]
      exact h.elsewhere hf hd hr
  case error =>
    intro c l i g accept m pre post err h _ _ hf _ _ _
    exact h.drop hf c.st rfl fun k => returnable_bounceOf k m
  case outside =>
    intro c l m pre post h hf _
    rw [← List.append_nil (pre ++ post)]
    exact h.drop hf c.st rfl fun k => Nat.zero_le _
  case returned =>
    intro c l m pre post h hf _ _
    exact h.drop hf c.st rfl fun k => returnable_bounceOf k m
  case wait =>
    intro c l d h _
    exact h.carry rfl (Nat.le_add_right _ _) fun k => Nat.le_refl _

/-- **The schedule is never overrun.** The vested amount of a schedule whose cliff
lies within it is defined at every time, does not decrease, is zero before the
cliff and the whole allocation from the end on. In every run from a fresh
contract, `released_amount` stays within the allocation, and what was released to
the beneficiary and did not come back has vested. -/
theorem schedule_respected {v : Vesting} (hc : v.cliff_duration ≤ v.vesting_duration) :
    (∃ vested : Nat → Nat, (∀ t, v.vested_amount t = .ok (vested t))
        ∧ (∀ t t', t ≤ t' → vested t ≤ vested t')
        ∧ (∀ t, t < v.start_time + v.cliff_duration → vested t = 0)
        ∧ (∀ t, v.start_time + v.vesting_duration ≤ t → vested t = v.total_amount))
      ∧ ∀ (D : Deployment) (modelled : Part → Bool) (ordered : Address → Address → Bool)
          (c₀ c : WorldConf) (l : Shares), (network D modelled ordered).owns D.V = true →
          c₀.st.vesting = v → v.released_amount = 0 → c₀.flight = [] →
          (network D modelled ordered).Logged (fun _ _ => True) (sharesRecorder D) c₀ ⟨0, 0⟩ c l →
          c.st.vesting.released_amount ≤ c.st.vesting.total_amount
            ∧ c.st.vesting.released_amount = l.released + l.revoked
            ∧ ∃ vested, c.st.vesting.vested_amount c.now = .ok vested ∧ l.released ≤ vested := by
  refine ⟨⟨v.vestedAt, Vesting.vested_amount_eq hc, fun _ _ => Vesting.vestedAt_mono,
    fun _ => Vesting.vestedAt_before, fun _ => Vesting.vestedAt_after hc⟩, ?_⟩
  intro D modelled ordered c₀ c l hown hv₀ hzero hf₀ h
  have hstart : OnSchedule D v c₀ ⟨0, 0⟩ := by
    refine ⟨?_, Nat.zero_le _, Nat.zero_le _, ?_, ?_⟩
    · rw [hv₀]
      cases v
      simp_all
    all_goals simp [hf₀]
  have hs := h.invariant (schedule_tracks hown hc) hstart
  refine ⟨?_, ?_, v.vestedAt c.now, ?_, hs.vested⟩
  · rw [hs.same]
    exact hs.total
  · rw [hs.same]
  · rw [hs.same]
    exact Vesting.vested_amount_eq hc c.now

/-- Only the vesting contract is modelled. -/
def vestingOnly : Part → Bool
  | .vesting => true
  | _ => false

def revokeCell : Cell := .mk (natToBits 32 VestEmergencyRevoke.opcode ++ natToBits 64 0) []

/-- A release of 30 and a revocation of the rest; the release comes back, and 50
seconds later there is another one. -/
def lateReturn : List (Action Address Body Gas) :=
  [.send (external (account 5) D₀.V (milliTon 4000) (.vestRelease 0)), .deliver 0 (freeGas 0) true,
   .send (external D₀.T D₀.V (milliTon 4000) (.raw revokeCell)), .deliver 1 (freeGas 0) true,
   .deliver 0 (freeGas 0) false, .deliver 1 (freeGas 0) true, .wait 50,
   .send (external (account 5) D₀.V (milliTon 4000) (.vestRelease 1)), .deliver 1 (freeGas 0) true]

theorem schedule_respected_late :
    ∃ c l, (network D₀ vestingOnly fun _ _ => false).execLogged (sharesRecorder D₀)
        (bootstrapAt 30) ⟨0, 0⟩ lateReturn = some (c, l)
      ∧ l.released = 10 ∧ l.revoked = 70
      ∧ ∃ vested, c.st.vesting.vested_amount c.now = .ok vested ∧ l.released ≤ vested := by
  have hrun : ((network D₀ vestingOnly fun _ _ => false).execLogged (sharesRecorder D₀)
      (bootstrapAt 30) ⟨0, 0⟩ lateReturn).map (fun r => (r.2.released, r.2.revoked))
      = some (10, 70) := by
    decide +kernel
  obtain ⟨⟨c, l⟩, hc, hrun⟩ := Option.map_eq_some_iff.mp hrun
  obtain ⟨hreleased, hrevoked⟩ : l.released = 10 ∧ l.revoked = 70 := Prod.mk.inj hrun
  have hschedule : bootstrap.vesting.cliff_duration ≤ bootstrap.vesting.vesting_duration := by
    decide
  have h := (schedule_respected hschedule).2 D₀ vestingOnly _ _ c l (by decide +kernel) rfl rfl rfl
    (Machine.logged_of_exec hc)
  exact ⟨c, l, hc, hreleased, hrevoked, h.2.2⟩

end Runs

end BurnedChats

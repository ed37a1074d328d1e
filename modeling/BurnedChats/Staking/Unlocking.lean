import BurnedChats.Staking.Runs
import BurnedChats.Staking.Tiers

/-!
# How long a position stays locked

Four things happen to a position: nothing, a stake that joins or opens it, an
unstake, or a claim (`StakingMaster.Did.position`). Only a stake sets the unlock
time, to the current term of the tier counted from now, whatever the position had
before. So a lock is shortened exactly when a stake joins a position that was
locked for longer (`relocks`); in runs without such a stake no unlock time ever goes
back, and nothing is released before the largest unlock time it had
(`locks_kept`).
-/

namespace BurnedChats

open Network StakingMaster

variable {D : Deployment} {modelled : Part → Bool} {ordered : Address → Address → Bool}

/-! ## What happens to one position -/

namespace StakingMaster

variable {ctx : Ctx} {s s' : StakingMaster} {b : Body} {out : List Msg}

/-- What an accepted execution does to the position of `who` in tier `t`. -/
inductive Fate (ctx : Ctx) (s s' : StakingMaster) (t : Nat) (who : Address) : Body → Prop where
  | same (b : Body) (h : s'.stakesMapGet t who = s.stakesMapGet t who) : Fate ctx s s' t who b
  | staked (msg : JettonNotification) (cfg : TierConfig) (info : StakeInfoView)
      (hsender : ctx.sender = s.stakingJettonWallet)
      (hverdict : stakeVerdict ctx s msg = .ok (.accept t)) (hwho : who = msg.sender)
      (hcfg : s.tierConfigs.lookup t = some cfg) (hafter : s'.stakesMapGet t who = some info)
      (hamount : info.amount = s.held t who + msg.amount)
      (hunlock : info.unlockTime = ctx.now + cfg.durationSeconds) :
      Fate ctx s s' t who (.jettonNotification msg)
  | unstaked (msg : UnstakeJetton) (cur : StakeInfoView) (hbefore : s.stakesMapGet t who = some cur)
      (hunlock : cur.unlockTime ≤ ctx.now)
      (hafter : s'.stakesMapGet t who = none
        ∨ ∃ n, s'.stakesMapGet t who = some { cur with amount := n }) :
      Fate ctx s s' t who (.unstakeJetton msg)
  | claimed (msg : ClaimRewards) (cur : StakeInfoView) (hbefore : s.stakesMapGet t who = some cur)
      (hafter : s'.stakesMapGet t who = some { cur with lastClaimTime := ctx.now }) :
      Fate ctx s s' t who (.claimRewards msg)

theorem Did.position (h : Did ctx s b s' out) (t : Nat) (who : Address) :
    Fate ctx s s' t who b := by
  have hsame : s'.stakes = s.stakes → Fate ctx s s' t who b := by
    intro hst
    refine .same b ?_
    rw [stakesMapGet, stakesMapGet, hst]
  cases h with
  | @stake msg tier s₁ _ cfg info hsender hverdict _ _ htick hcfg hamount _ hunlock =>
      have hget : (s₁.rebased tier msg.sender info
          (s.tierTotalStake tier + msg.amount)).stakesMapGet t who
          = if (t, who) = (tier, msg.sender) then some info else s.stakesMapGet t who := by
        rw [stakesMapGet, rebased, Table.lookup_insert_of, (tickEmission_frame htick).2.1]
        rfl
      by_cases hk : (t, who) = (tier, msg.sender)
      · obtain ⟨rfl, rfl⟩ := Prod.mk.inj hk
        rw [if_pos rfl] at hget
        exact .staked msg cfg info hsender hverdict rfl hcfg hget hamount hunlock
      · rw [if_neg hk] at hget
        exact .same _ hget
  | @unstake msg s₁ _ cur htick _ _ hcur _ hunlock _ =>
      have hst := (tickEmission_frame htick).2.1
      have hget : (s₁.remainder msg.tier ctx.sender cur msg.amount).stakesMapGet t who
          = if (t, who) = (msg.tier, ctx.sender) then
              if cur.amount - msg.amount = 0 then none
              else some { cur with amount := cur.amount - msg.amount }
            else s.stakesMapGet t who := by
        unfold remainder
        split
        · rw [stakesMapGet, closed, Table.lookup_erase_of, hst]
          rfl
        · rw [stakesMapGet, rebased, Table.lookup_insert_of, hst]
          rfl
      by_cases hk : (t, who) = (msg.tier, ctx.sender)
      · obtain ⟨rfl, rfl⟩ := Prod.mk.inj hk
        rw [if_pos rfl] at hget
        refine .unstaked msg cur hcur hunlock ?_
        rw [hget]
        split
        · exact .inl rfl
        · exact .inr ⟨_, rfl⟩
      · rw [if_neg hk] at hget
        exact .same _ hget
  | @claim msg s₁ _ cur htick _ hcur _ =>
      have hst := (tickEmission_frame htick).2.1
      by_cases hk : (t, who) = (msg.tier, ctx.sender)
      · obtain ⟨rfl, rfl⟩ := Prod.mk.inj hk
        refine .claimed msg cur hcur ?_
        rw [stakesMapGet, Table.lookup_insert_of, if_pos rfl]
      · refine .same _ ?_
        rw [stakesMapGet, Table.lookup_insert_of, if_neg hk, hst]
        rfl
  | accrue _ happ =>
      obtain ⟨-, r, rfl, -, -⟩ := applyStakeFeeSlices_spec happ
      exact hsame rfl
  | sync | fund | relay | snapshot | quiet => exact hsame rfl

/-- A stake that joins a position does not unlock it earlier than it was. -/
def relocks (ctx : Ctx) (s : StakingMaster) : Body → Bool
  | .jettonNotification msg =>
      decide (ctx.sender ≠ s.stakingJettonWallet)
        || match stakeVerdict ctx s msg with
          | .ok (.accept tier) =>
              match s.stakesMapGet tier msg.sender, s.tierConfigs.lookup tier with
              | some old, some cfg => decide (old.unlockTime ≤ ctx.now + cfg.durationSeconds)
              | _, _ => true
          | _ => true
  | _ => true

theorem relocks_staked {msg : JettonNotification} {t : Nat} {cfg : TierConfig} {old : StakeInfoView}
    (h : relocks ctx s (.jettonNotification msg) = true)
    (hsender : ctx.sender = s.stakingJettonWallet)
    (hverdict : stakeVerdict ctx s msg = .ok (.accept t))
    (hcfg : s.tierConfigs.lookup t = some cfg) (hold : s.stakesMapGet t msg.sender = some old) :
    old.unlockTime ≤ ctx.now + cfg.durationSeconds := by
  simpa [relocks, hsender, hverdict, hold, hcfg] using h

/-- A position keeps its lock, or its lock was over. -/
theorem Fate.lock {t : Nat} {who : Address} {p : StakeInfoView} (h : Fate ctx s s' t who b)
    (hrelocks : relocks ctx s b = true) (hp : s.stakesMapGet t who = some p) :
    p.unlockTime ≤ ctx.now
      ∨ ∃ p', s'.stakesMapGet t who = some p' ∧ p.unlockTime ≤ p'.unlockTime := by
  cases h with
  | same b h => exact .inr ⟨p, h.trans hp, Nat.le_refl _⟩
  | staked msg cfg info hsender hverdict hwho hcfg hafter _ hunlock =>
      subst hwho
      have hle := relocks_staked hrelocks hsender hverdict hcfg hp
      exact .inr ⟨info, hafter, hunlock ▸ hle⟩
  | unstaked msg cur hbefore hunlock _ =>
      obtain rfl := Option.some.inj (hbefore.symm.trans hp)
      exact .inl hunlock
  | claimed msg cur hbefore hafter =>
      obtain rfl := Option.some.inj (hbefore.symm.trans hp)
      exact .inr ⟨_, hafter, Nat.le_refl _⟩

end StakingMaster

/-! ## Histories -/

/-- An accepted execution: when, and the master before and after it. -/
structure Moment where
  now : Nat
  before : StakingMaster
  after : StakingMaster

namespace Moment

/-- The position is removed or reduced. -/
def Releases (e : Moment) (t : Nat) (who : Address) : Prop :=
  ∃ p, e.before.stakesMapGet t who = some p
    ∧ ∀ p', e.after.stakesMapGet t who = some p' → p'.amount < p.amount

/-- The position has the unlock time `u` before or after. -/
def Had (e : Moment) (t : Nat) (who : Address) (u : Nat) : Prop :=
  ∃ p, (e.before.stakesMapGet t who = some p ∨ e.after.stakesMapGet t who = some p)
    ∧ p.unlockTime = u

end Moment

/-- A position that is there before and after an execution is locked afterwards for
at least as long. -/
def NeverShortened (history : List Moment) : Prop :=
  ∀ e ∈ history, ∀ t who p p', e.before.stakesMapGet t who = some p →
    e.after.stakesMapGet t who = some p' → p.unlockTime ≤ p'.unlockTime

/-- A position is removed or reduced only after every unlock time it had so far; the
latest execution comes first. -/
def ReleasedInTime : List Moment → Prop
  | [] => True
  | e :: earlier =>
      (∀ t who, e.Releases t who → ∀ e' ∈ e :: earlier, ∀ u, e'.Had t who u → u ≤ e.now)
        ∧ ReleasedInTime earlier

def momentEntry (ctx : Ctx) (s : StakingMaster) (_ : Body) (s' : StakingMaster) (_ : List Body)
    (history : List Moment) : List Moment :=
  ⟨ctx.now, s, s'⟩ :: history

/-- Every unlock time of the history is over, or still holds. -/
def Locked (now : Nat) (s : StakingMaster) (history : List Moment) : Prop :=
  ∀ e ∈ history, ∀ t who u, e.Had t who u →
    u ≤ now ∨ ∃ p, s.stakesMapGet t who = some p ∧ u ≤ p.unlockTime

section Step

variable {ctx : Ctx} {s s' : StakingMaster} {b : Body} {out : List Msg} {history : List Moment}

theorem Locked.step (h : Locked ctx.now s history) (hdid : Did ctx s b s' out)
    (hrelocks : relocks ctx s b = true) :
    Locked ctx.now s' (⟨ctx.now, s, s'⟩ :: history) := by
  intro e he t who u hu
  have hfate := hdid.position t who
  have hcarry : ∀ p, s.stakesMapGet t who = some p → u ≤ p.unlockTime →
      u ≤ ctx.now ∨ ∃ p', s'.stakesMapGet t who = some p' ∧ u ≤ p'.unlockTime := by
    intro p hp hle
    rcases hfate.lock hrelocks hp with hover | ⟨p', hp', hle'⟩
    · exact .inl (hle.trans hover)
    · exact .inr ⟨p', hp', hle.trans hle'⟩
  rcases List.mem_cons.mp he with rfl | he
  · obtain ⟨p, hp | hp, rfl⟩ := hu
    · exact hcarry p hp (Nat.le_refl _)
    · exact .inr ⟨p, hp, Nat.le_refl _⟩
  · rcases h e he t who u hu with hover | ⟨p, hp, hle⟩
    · exact .inl hover
    · exact hcarry p hp hle

/-- What is released was unlocked, and stays so. -/
theorem released_unlocked {t : Nat} {who : Address} (hdid : Did ctx s b s' out)
    (h : (⟨ctx.now, s, s'⟩ : Moment).Releases t who) :
    ∃ p, s.stakesMapGet t who = some p ∧ p.unlockTime ≤ ctx.now
      ∧ ∀ p', s'.stakesMapGet t who = some p' → p'.unlockTime = p.unlockTime := by
  obtain ⟨p, hp, hless⟩ := h
  cases hdid.position t who with
  | same b hsame => exact absurd (hless p (hsame.trans hp)) (Nat.lt_irrefl _)
  | staked msg cfg info _ _ _ _ hafter hamount _ =>
      have := hless info hafter
      simp only [held, hp, Option.map_some, Option.getD_some] at hamount
      omega
  | unstaked msg cur hbefore hunlock hafter =>
      obtain rfl := Option.some.inj (hbefore.symm.trans hp)
      refine ⟨cur, hbefore, hunlock, fun p' hp' => ?_⟩
      rcases hafter with hnone | ⟨n, hsome⟩
      · rw [hnone] at hp'
        cases hp'
      · rw [hsome] at hp'
        exact Option.some.inj hp' ▸ rfl
  | claimed msg cur hbefore hafter =>
      obtain rfl := Option.some.inj (hbefore.symm.trans hp)
      exact absurd (hless _ hafter) (Nat.lt_irrefl _)

theorem ReleasedInTime.step (h : ReleasedInTime history) (hlocked : Locked ctx.now s history)
    (hdid : Did ctx s b s' out) : ReleasedInTime (⟨ctx.now, s, s'⟩ :: history) := by
  refine ⟨fun t who hrel e' he' u hu => ?_, h⟩
  obtain ⟨p, hp, hover, hafter⟩ := released_unlocked hdid hrel
  show u ≤ ctx.now
  rcases List.mem_cons.mp he' with rfl | he'
  · obtain ⟨q, hq | hq, rfl⟩ := hu
    · exact Option.some.inj (hp.symm.trans hq) ▸ hover
    · exact (hafter q hq).trans_le hover
  · rcases hlocked e' he' t who u hu with hdone | ⟨q, hq, hle⟩
    · exact hdone
    · obtain rfl := Option.some.inj (hp.symm.trans hq)
      exact hle.trans hover

theorem NeverShortened.step (h : NeverShortened history) (hdid : Did ctx s b s' out)
    (hrelocks : relocks ctx s b = true) : NeverShortened (⟨ctx.now, s, s'⟩ :: history) := by
  intro e he t who p p' hp hp'
  rcases List.mem_cons.mp he with rfl | he
  · cases hdid.position t who with
    | same b hsame => exact (Option.some.inj ((hsame.trans hp).symm.trans hp')) ▸ Nat.le_refl _
    | staked msg cfg info hsender hverdict hwho hcfg hafter _ hunlock =>
        subst hwho
        obtain rfl := Option.some.inj (hafter.symm.trans hp')
        exact hunlock ▸ relocks_staked hrelocks hsender hverdict hcfg hp
    | unstaked msg cur hbefore _ hafter =>
        obtain rfl := Option.some.inj (hbefore.symm.trans hp)
        rcases hafter with hnone | ⟨n, hsome⟩
        · exact absurd (hnone.symm.trans hp') nofun
        · exact Option.some.inj (hsome.symm.trans hp') ▸ Nat.le_refl _
    | claimed msg cur hbefore hafter =>
        obtain rfl := Option.some.inj (hbefore.symm.trans hp)
        exact Option.some.inj (hafter.symm.trans hp') ▸ Nat.le_refl _
  · exact h e he t who p p' hp hp'

end Step

/-! ## Whole runs -/

/-- No stake that joins a position unlocks it earlier than it was. -/
def Relocked (D : Deployment) (w : World) (now : Nat) (g : Gas) (m : Msg) : Prop :=
  m.dst = D.S → m.bounced = false → relocks (Ctx.of g now m) w.sm (D.opened m.body) = true

instance (w : World) (now : Nat) (g : Gas) (m : Msg) : Decidable (Relocked D w now g m) :=
  inferInstanceAs (Decidable (_ → _ → _))

/-- What holds of the master and its history in such a run. -/
structure LocksHold (now : Nat) (s : StakingMaster) (history : List Moment) : Prop where
  shortened : NeverShortened history
  released : ReleasedInTime history
  locked : Locked now s history

theorem LocksHold.wait {now : Nat} {s : StakingMaster} {history : List Moment}
    (h : LocksHold now s history) (d : Nat) : LocksHold (now + d) s history :=
  { h with
    locked := fun e he t who u hu =>
      (h.locked e he t who u hu).imp_left fun hle => Nat.le_add_right_of_le hle }

theorem LocksHold.step {ctx : Ctx} {s s' : StakingMaster} {b : Body} {out : List Msg}
    {history : List Moment} (h : LocksHold ctx.now s history) (hdid : Did ctx s b s' out)
    (hrelocks : relocks ctx s b = true) (bodies : List Body) :
    LocksHold ctx.now s' (momentEntry ctx s b s' bodies history) :=
  ⟨h.shortened.step hdid hrelocks, h.released.step h.locked hdid, h.locked.step hdid hrelocks⟩

abbrev momentRecorder (D : Deployment) : Machine.Recorder Address Body Gas World (List Moment) :=
  masterRecorder D momentEntry

theorem locksHold_tracks :
    (network D modelled ordered).Tracks (Meets (Relocked D)) (momentRecorder D)
      fun c history => LocksHold c.now c.st.sm history :=
  master_tracks (I := LocksHold) (fun _ _ h => h) (fun _ d _ _ h => h.wait d) <| by
    intro g now m w s' out history hrelocked hd hb hdid h
    have hctx : LocksHold (Ctx.of g now m).now w.sm history := h
    exact hctx.step hdid (hrelocked hd hb) _

/-- **Locks are kept.** In every run in which no stake joins a position that is locked
for longer than the current term of its tier, no unlock time goes back, and nothing
is removed or reduced before the largest unlock time it ever had. -/
theorem locks_kept {c₀ c : WorldConf} {history : List Moment}
    (h : (network D modelled ordered).Logged (Meets (Relocked D)) (momentRecorder D)
      c₀ [] c history) : NeverShortened history ∧ ReleasedInTime history := by
  have hstart : LocksHold c₀.now c₀.st.sm [] := 
    ⟨fun e he => absurd he List.not_mem_nil, trivial, fun e he => absurd he List.not_mem_nil⟩
  have hkept := h.invariant locksHold_tracks hstart
  exact ⟨hkept.shortened, hkept.released⟩

/-! ## Two runs -/

/-- Account 3 stakes in `tier`, the timelock sets the term of the tier, account 3
stakes a little more, waits for the new term and unstakes everything. -/
def restaked (tier duration : Nat) : List (Action Address Body Gas) :=
  [.send (stakeNotice tier 100000000000 (account 3) (milliTon 5000)),
   .deliver 0 (freeGas 0) true,
   .send (external D₀.T D₀.L (milliTon 1000) (.setLockDuration { queryId := 0, tier, duration })),
   .deliver 4 (freeGas 0) true,
   .deliver 4 (freeGas 0) true,
   .send (stakeNotice tier 10000000 (account 3) (milliTon 5000)),
   .deliver 5 (freeGas 0) true,
   .wait duration,
   .send (external (account 3) D₀.S (milliTon 5000)
     (.unstakeJetton { queryId := 0, tier, amount := 100010000000 })),
   .deliver 9 (freeGas 0) true]

/-- When it happened, and the unlock time of the position before and after. -/
def lockView (t : Nat) (e : Moment) : Nat × Option Nat × Option Nat :=
  (e.now, (e.before.stakesMapGet t (account 3)).map (·.unlockTime),
    (e.after.stakesMapGet t (account 3)).map (·.unlockTime))

/-- A longer term: the second stake extends the lock, and the unstake waits for it. -/
theorem locks_kept_extended :
    ∃ c history, (network D₀ tiersOnly fun _ _ => false).execWhile
        (fun c a => decide (Meets (Relocked D₀) c a)) (momentRecorder D₀) (bootstrapAt 1000) []
        (restaked 0 1000) = some (c, history)
      ∧ history.map (lockView 0) = [(2000, some 2000, none), (1000, some 1000, some 2000),
          (1000, some 1000, some 1000), (1000, none, some 1000)]
      ∧ NeverShortened history ∧ ReleasedInTime history := by
  have hrun : ((network D₀ tiersOnly fun _ _ => false).execWhile
      (fun c a => decide (Meets (Relocked D₀) c a)) (momentRecorder D₀) (bootstrapAt 1000) []
      (restaked 0 1000)).map (fun r => r.2.map (lockView 0))
      = some [(2000, some 2000, none), (1000, some 1000, some 2000),
          (1000, some 1000, some 1000), (1000, none, some 1000)] := by
    decide +kernel
  obtain ⟨⟨c, history⟩, hc, hview⟩ := Option.map_eq_some_iff.mp hrun
  exact ⟨c, history, hc, hview, locks_kept
    (Machine.logged_of_execWhile (G := Meets (Relocked D₀)) (fun _ _ h => of_decide_eq_true h) hc)⟩

/-- A term of zero: the second stake unlocks the first, which is released at once,
three years early. -/
theorem lock_shortened :
    ∃ c history, (network D₀ tiersOnly fun _ _ => false).Logged (fun _ _ => True)
        (momentRecorder D₀) (bootstrapAt 1000) [] c history
      ∧ ¬ NeverShortened history ∧ ¬ ReleasedInTime history := by
  have hrun : ((network D₀ tiersOnly fun _ _ => false).execLogged (momentRecorder D₀)
      (bootstrapAt 1000) [] (restaked 3 0)).map (fun r => r.2.map (lockView 3))
      = some [(1000, some 1000, none), (1000, some 94609000, some 1000),
          (1000, some 94609000, some 94609000), (1000, none, some 94609000)] := by
    decide +kernel
  obtain ⟨⟨c, history⟩, hc, hview⟩ := Option.map_eq_some_iff.mp hrun
  obtain ⟨e, l, rfl, he, hl⟩ := List.map_eq_cons_iff.mp hview
  obtain ⟨e', l', rfl, he', -⟩ := List.map_eq_cons_iff.mp hl
  simp only [lockView, Prod.mk.injEq, Option.map_eq_some_iff, Option.map_eq_none_iff] at he he'
  obtain ⟨hnow, ⟨p, hp, -⟩, hgone⟩ := he
  obtain ⟨-, ⟨q, hq, hlong⟩, q', hq', hshort⟩ := he'
  refine ⟨c, _, Machine.logged_of_exec hc, fun h => ?_, fun h => ?_⟩
  · have := h e' (by simp) 3 (account 3) q q' hq hq'
    omega
  · have hrel : e.Releases 3 (account 3) := ⟨p, hp, fun p' hp' => by rw [hgone] at hp'; cases hp'⟩
    have := h.1 3 (account 3) hrel e' (by simp) q.unlockTime ⟨q, .inl hq, rfl⟩
    omega

end BurnedChats

import BurnedChats.Bootstrap

/-!
# The treasury's ledger

The treasury logs its spends in a table with the keys `0 .. spending_count - 1`
and takes a failed spend out again by moving the last entry into its place. What
the log means is simpler: the bag of the spends that were accepted and not
rolled back (`Outstanding`). The table is dense, holds exactly that bag, and
`total_spent` is its sum; every outstanding spend can be rolled back, whatever
happened in between.
-/

namespace BurnedChats

open Network

namespace Treasury

variable {W : WalletBook} {ctx : Ctx} {t t' : Treasury} {b : Body} {out : List Msg}

/-! ## Searching the log -/

theorem findSpend_some {log : Table Nat SpendRecord} {queryId : Nat} :
    ∀ {n i : Nat}, findSpend log queryId n = some i →
      ∃ r, log.lookup i = some r ∧ r.queryId = queryId := by
  intro n
  induction n with
  | zero =>
      intro i h
      cases h
  | succ n ih =>
      intro i h
      simp only [findSpend] at h
      split at h
      · rename_i r hr
        split at h
        · rename_i hq
          obtain rfl := Option.some.inj h
          exact ⟨r, hr, hq⟩
        · exact ih h
      · exact ih h

theorem findSpend_none {log : Table Nat SpendRecord} {queryId : Nat} :
    ∀ {n : Nat}, findSpend log queryId n = none →
      ∀ i < n, ∀ r, log.lookup i = some r → r.queryId ≠ queryId := by
  intro n
  induction n with
  | zero => exact fun _ i hi => absurd hi (Nat.not_lt_zero i)
  | succ n ih =>
      intro h i hi r hr
      simp only [findSpend] at h
      rcases Nat.lt_succ_iff_lt_or_eq.mp hi with hlt | rfl
      · refine ih ?_ i hlt r hr
        split at h
        · split at h
          · cases h
          · exact h
        · exact h
      · rw [hr] at h
        simp only at h
        split at h
        · cases h
        · assumption

/-! ## The ledger -/

abbrev records (t : Treasury) : List SpendRecord := Table.values t.spending_log

structure Ledger (t : Treasury) : Prop where
  dense : Table.Dense t.spending_log t.spending_count
  distinct : (t.records.map (·.queryId)).Nodup
  spent : t.total_spent = (t.records.map (·.amount)).sum
  bounded : t.total_spent ≤ t.total_received

namespace Ledger

theorem eq_of_queryId (h : Ledger t) {r r' : SpendRecord} (hr : r ∈ t.records)
    (hr' : r' ∈ t.records) (hq : r.queryId = r'.queryId) : r = r' :=
  List.inj_on_of_nodup_map h.distinct hr hr' hq

theorem amount_le (h : Ledger t) {r : SpendRecord} (hr : r ∈ t.records) :
    r.amount ≤ t.total_spent := by
  rw [h.spent]
  exact List.le_sum_of_mem (List.mem_map_of_mem hr)

/-- The records of a ledger without `r`. -/
theorem of_perm (h : Ledger t) {r : SpendRecord} (hr : r ∈ t.records)
    (hp : t.records.Perm (r :: t'.records))
    (hd : Table.Dense t'.spending_log t'.spending_count)
    (hs : t'.total_spent = t.total_spent - r.amount)
    (hrec : t'.total_received = t.total_received) : Ledger t' := by
  have hle := h.amount_le hr
  refine ⟨hd, ?_, ?_, ?_⟩
  · exact (List.nodup_cons.mp ((hp.map _).nodup_iff.mp h.distinct)).2
  · have hsum := (hp.map (·.amount)).sum_eq
    rw [List.map_cons, List.sum_cons, ← h.spent] at hsum
    omega
  · have := h.bounded
    omega

/-- A record of the log can be rolled back, and only it leaves the log. -/
theorem rollbackSpend (h : Ledger t) {r : SpendRecord} (hr : r ∈ t.records) :
    ∃ t', t.rollbackSpend r.queryId r.amount = .ok t' ∧ t.records.Perm (r :: t'.records)
      ∧ Ledger t' ∧ t'.total_spent + r.amount = t.total_spent := by
  obtain ⟨k, hk⟩ := Table.mem_values.mp hr
  have hlt : k < t.spending_count := (h.dense k).mp (by rw [hk]; rfl)
  obtain ⟨n, hn⟩ : ∃ n, t.spending_count = n + 1 := ⟨t.spending_count - 1, by omega⟩
  -- the search finds some entry with this id, and ids are distinct
  obtain ⟨i, hi⟩ : ∃ i, findSpend t.spending_log r.queryId t.spending_count = some i := by
    cases hf : findSpend t.spending_log r.queryId t.spending_count with
    | some i => exact ⟨i, rfl⟩
    | none => exact absurd rfl (findSpend_none hf k hlt r hk)
  obtain ⟨r', hlook, hq⟩ := findSpend_some hi
  obtain rfl : r' = r := h.eq_of_queryId (Table.mem_values.mpr ⟨i, hlook⟩) hr hq
  have hle := h.amount_le hr
  have hdense : Table.Dense t.spending_log (n + 1) := hn ▸ h.dense
  have hin : i < n + 1 := (hdense i).mp (by rw [hlook]; rfl)
  obtain ⟨last, hlast⟩ : ∃ last, t.spending_log.lookup n = some last :=
    Option.isSome_iff_exists.mp ((hdense n).mpr (Nat.lt_succ_self n))
  rw [hn] at hi
  by_cases hne : i = n
  · subst hne
    have hp := Table.values_perm hlook
    refine ⟨{ t with
      spending_log := t.spending_log.erase i
      spending_count := i
      total_spent := t.total_spent - r'.amount }, ?_, hp, ?_, Nat.sub_add_cancel hle⟩
    · simp [Treasury.rollbackSpend, hn, hi, hlook, require]
    · exact h.of_perm hr hp hdense.pop rfl rfl
  · have hp := Table.values_swapRemove hlook hlast hne
    have hlast' : t.spending_log.lookup (t.spending_count - 1) = some last := by
      rw [hn]
      exact hlast
    refine ⟨{ t with
      spending_log := (t.spending_log.insert i last).erase n
      spending_count := n
      total_spent := t.total_spent - r'.amount }, ?_, hp, ?_, Nat.sub_add_cancel hle⟩
    · simp [Treasury.rollbackSpend, hn, hi, hlook, require, hne, hlast']
    · exact h.of_perm hr hp (hdense.overwrite hin last).pop rfl rfl

/-- Whatever is rolled back was a record of the log. -/
theorem of_rollbackSpend (h : Ledger t) {queryId amount : Nat}
    (ht : t.rollbackSpend queryId amount = .ok t') :
    ∃ r ∈ t.records, r.queryId = queryId ∧ t.records.Perm (r :: t'.records) ∧ Ledger t' := by
  obtain ⟨r, hr, hq, ha⟩ : ∃ r ∈ t.records, r.queryId = queryId ∧ r.amount = amount := by
    simp only [Treasury.rollbackSpend, bind_eq_ok, require_eq_ok, exists_const] at ht
    obtain ⟨-, ht⟩ := ht
    split at ht
    · cases ht
    · rename_i i hi
      obtain ⟨r, hlook, hq⟩ := findSpend_some hi
      simp only [hlook, bind_eq_ok, require_eq_ok, exists_const] at ht
      exact ⟨r, Table.mem_values.mpr ⟨i, hlook⟩, hq, ht.1⟩
  subst hq ha
  obtain ⟨t₁, ht₁, hp, hl, -⟩ := h.rollbackSpend hr
  rw [ht₁] at ht
  obtain rfl := Except.ok.inj ht
  exact ⟨r, hr, rfl, hp, hl⟩

/-- A new record. -/
theorem push (h : Ledger t) (r : SpendRecord)
    (hnew : findSpend t.spending_log r.queryId t.spending_count = none)
    (ha : (r.amount : Int) ≤ t.total_received - t.total_spent)
    (hlog : t'.spending_log = t.spending_log.insert t.spending_count r)
    (hcount : t'.spending_count = t.spending_count + 1)
    (hs : t'.total_spent = t.total_spent + r.amount)
    (hrec : t'.total_received = t.total_received) :
    Ledger t' ∧ t'.records = r :: t.records := by
  have hvalues : t'.records = r :: t.records := by
    rw [records, hlog, h.dense.values_push]
  refine ⟨⟨?_, ?_, ?_, ?_⟩, hvalues⟩
  · rw [hlog, hcount]
    exact h.dense.push r
  · rw [hvalues, List.map_cons, List.nodup_cons]
    refine ⟨fun hmem => ?_, h.distinct⟩
    obtain ⟨r', hr', hq⟩ := List.mem_map.mp hmem
    obtain ⟨k, hk⟩ := Table.mem_values.mp hr'
    exact findSpend_none hnew k ((h.dense k).mp (by rw [hk]; rfl)) r' hk hq
  · rw [hvalues, hs, h.spent, List.map_cons, List.sum_cons]
    omega
  · have := h.bounded
    omega

end Ledger

/-! ## One execution -/

/-- What an accepted message does to the ledger. -/
inductive Did (now : Nat) (t : Treasury) : Bool → Body → Treasury → Prop where
  | received (msg : JettonNotification) :
      Did now t false (.jettonNotification msg)
        { t with total_received := t.total_received + msg.amount }
  | spent (c : Cell) (s : Slice) (msg : TreasurySpend)
      (hop : c.beginParse.loadUint 32 = .ok (TreasurySpend.opcode, s))
      (hload : TreasurySpend.load s = .ok msg)
      (havail : (msg.amount : Int) ≤ t.total_received - t.total_spent)
      (hnew : findSpend t.spending_log msg.queryId t.spending_count = none) :
      Did now t false (.raw c)
        { t with
          spending_log := t.spending_log.insert t.spending_count
            { recipient := msg.recipient, amount := msg.amount, reason := msg.reason
              timestamp := now, proposalId := msg.proposalId, queryId := msg.queryId }
          spending_count := t.spending_count + 1
          total_spent := t.total_spent + msg.amount }
  | failed (queryId amount : Nat) (t' : Treasury)
      (h : t.rollbackSpend queryId amount = .ok t') :
      Did now t false (.jettonTransferCommitFailed queryId amount) t'
  | returned (msg : JettonTransfer) (t' : Treasury)
      (h : t.rollbackSpend msg.queryId msg.amount = .ok t') :
      Did now t true (.jettonTransfer msg) t'
  | idle (bounced : Bool) (b : Body) (hraw : ∀ c, b = .raw c → bounced = true)
      (hfailed : ∀ q a, b = .jettonTransferCommitFailed q a → bounced = true)
      (hreturned : ∀ msg, b = .jettonTransfer msg → bounced = false) : Did now t bounced b t

theorem receive_did (h : t.receive W ctx b = .ok (t', out)) : Did ctx.now t false b t' := by
  cases b with
  | empty => exact (Prod.mk.inj (Except.ok.inj h)).1 ▸ .idle _ _ nofun nofun nofun
  | jettonNotification msg =>
      obtain ⟨_, -, hx⟩ := bind_eq_ok.mp h
      exact (Prod.mk.inj (Except.ok.inj hx)).1 ▸ .received msg
  | jettonTransferCommitFailed queryId amount =>
      simp only [receive, receiveJettonTransferCommitFailed, bind_eq_ok, Except.ok.injEq,
        Prod.mk.injEq] at h
      obtain ⟨_, -, _, h, rfl, -⟩ := h
      exact .failed queryId amount _ h
  | raw c =>
      simp only [receive, bind_eq_ok, Prod.exists] at h
      obtain ⟨op, s, hop, h⟩ := h
      split at h
      · rename_i heq
        simp only [receiveSpend, bind_eq_ok, require_eq_ok, exists_const, Except.ok.injEq,
          Prod.mk.injEq] at h
        obtain ⟨msg, hload, -, -, havail, -, hnew, rfl, -⟩ := h
        exact .spent c s msg (heq ▸ hop) hload havail hnew
      · cases h
  | _ => cases h

theorem bounced_did {now : Nat} (h : t.bounced b = .ok t') : Did now t true b t' := by
  cases b with
  | jettonTransfer msg => exact .returned msg t' h
  | _ => exact Except.ok.inj h ▸ .idle _ _ (fun _ _ => rfl) (fun _ _ _ => rfl) nofun

end Treasury

/-! ## Whole runs -/

/-- The spend a relayed cell asks for. -/
def spendOf (now : Nat) (c : Cell) : Tx SpendRecord := do
  let (_, s) ← c.beginParse.loadUint 32
  let msg ← TreasurySpend.load s
  .ok { recipient := msg.recipient, amount := msg.amount, reason := msg.reason, timestamp := now
        proposalId := msg.proposalId, queryId := msg.queryId }

/-- The accepted spends that were not rolled back, after one more message. -/
def outstandingEntry (now : Nat) (bounced : Bool) (b : Body) (l : List SpendRecord) :
    List SpendRecord :=
  match bounced, b with
  | false, .raw c =>
      match spendOf now c with
      | .ok r => r :: l
      | .error _ => l
  | false, .jettonTransferCommitFailed queryId _ => l.filter fun r => r.queryId ≠ queryId
  | true, .jettonTransfer msg => l.filter fun r => r.queryId ≠ msg.queryId
  | _, _ => l

def outstandingRecorder (D : Deployment) :
    Machine.Recorder Address Body Gas World (List SpendRecord) where
  accepted _ now m _ _ l :=
    if m.dst = D.R then
      outstandingEntry now m.bounced (if m.bounced then m.body else D.opened m.body) l
    else l

namespace Treasury

/-- The ledger holds the outstanding spends. -/
def Holds (t : Treasury) (l : List SpendRecord) : Prop := Ledger t ∧ t.records.Perm l

theorem Holds.rollback {t t' : Treasury} {l : List SpendRecord} {queryId amount : Nat}
    (h : t.Holds l) (ht : t.rollbackSpend queryId amount = .ok t') :
    t'.Holds (l.filter fun r => r.queryId ≠ queryId) := by
  obtain ⟨r, -, rfl, hp, hl⟩ := h.1.of_rollbackSpend ht
  have hdistinct := (hp.map (·.queryId)).nodup_iff.mp h.1.distinct
  rw [List.map_cons, List.nodup_cons] at hdistinct
  have hrest : (r :: t'.records).filter (fun r' => r'.queryId ≠ r.queryId) = t'.records := by
    rw [List.filter_cons_of_neg (by simp), List.filter_eq_self]
    intro r' hr'
    refine decide_eq_true fun hq => hdistinct.1 ?_
    exact hq ▸ List.mem_map_of_mem hr'
  refine ⟨hl, ?_⟩
  rw [← hrest]
  exact (hp.symm.trans h.2).filter _

theorem Did.holds {now : Nat} {bounced : Bool} {b : Body} {t t' : Treasury}
    {l : List SpendRecord} (hd : Did now t bounced b t') (h : t.Holds l) :
    t'.Holds (outstandingEntry now bounced b l) := by
  cases hd with
  | received msg =>
      obtain ⟨hdense, hdistinct, hspent, hbounded⟩ := h.1
      exact ⟨⟨hdense, hdistinct, hspent, Nat.le_trans hbounded (Nat.le_add_right _ _)⟩, h.2⟩
  | spent c s msg hop hload havail hnew =>
      let r : SpendRecord :=
        { recipient := msg.recipient, amount := msg.amount, reason := msg.reason
          timestamp := now, proposalId := msg.proposalId, queryId := msg.queryId }
      have hspend : spendOf now c = .ok r := by simp [spendOf, hop, hload, r]
      let t₁ : Treasury :=
        { t with
          spending_log := t.spending_log.insert t.spending_count r
          spending_count := t.spending_count + 1
          total_spent := t.total_spent + msg.amount }
      obtain ⟨hl, hr⟩ : Ledger t₁ ∧ t₁.records = r :: t.records :=
        h.1.push r hnew havail rfl rfl rfl rfl
      simp only [outstandingEntry, hspend]
      exact ⟨hl, hr ▸ h.2.cons r⟩
  | failed queryId amount _ ht => exact h.rollback ht
  | returned msg _ ht => exact h.rollback ht
  | idle bounced b hraw hfailed hreturned =>
      have hsame : outstandingEntry now bounced b l = l := by
        unfold outstandingEntry
        split
        · exact absurd (hraw _ rfl) Bool.false_ne_true
        · exact absurd (hfailed _ _ rfl) Bool.false_ne_true
        · exact absurd (hreturned _ rfl).symm Bool.false_ne_true
        · rfl
      rw [hsame]
      exact h

end Treasury

section Runs

variable {D : Deployment} {modelled : Part → Bool} {ordered : Address → Address → Bool}

theorem ledger_tracks : (network D modelled ordered).Tracks (fun _ _ => True)
    (outstandingRecorder D) fun c l => c.st.treasury.Holds l := by
  constructor
  case send => exact fun _ _ _ h _ _ _ => h
  case ok =>
    intro c l i g accept m pre post w' out h _ _ _ _ _ hr
    show w'.treasury.Holds (if m.dst = D.R then _ else l)
    by_cases hd : m.dst = D.R
    · rw [if_pos hd]
      rcases World.run_eq_ok (World.receive_treasury hr hd) with ⟨hb, hs, -⟩ | ⟨hb, out', hs, -⟩
      · simp only [hb, if_true]
        exact (Treasury.bounced_did hs).holds h
      · simp only [hb, Bool.false_eq_true, if_false]
        exact (Treasury.receive_did hs).holds h
    · rw [if_neg hd, (World.receive_framed hr).treasury hd]
      exact h
  case error => exact fun _ _ _ _ _ _ _ _ _ h _ _ _ _ _ _ => h
  case outside => exact fun _ _ _ _ _ h _ _ => h
  case returned => exact fun _ _ _ _ _ h _ _ _ => h
  case wait => exact fun _ _ _ h _ => h

/-- **The treasury's ledger.** In every run from a fresh treasury, the log has the
keys `0 .. spending_count - 1`, its query ids are distinct, `total_spent` is the
sum of its amounts and at most `total_received`, and its records are the
outstanding spends. A failure signal for an outstanding spend, of either kind, is
accepted and removes its record and no other. -/
theorem treasury_ledger {c₀ c : WorldConf} {outstanding : List SpendRecord}
    {timelock jetton_master : Address}
    (h₀ : c₀.st.treasury = .prepareInit timelock jetton_master)
    (h : (network D modelled ordered).Logged (fun _ _ => True) (outstandingRecorder D) c₀ [] c
      outstanding) :
    let t := c.st.treasury
    (∀ i, (t.spending_log.lookup i).isSome = true ↔ i < t.spending_count)
      ∧ ((Table.values t.spending_log).map (·.queryId)).Nodup
      ∧ t.total_spent = ((Table.values t.spending_log).map (·.amount)).sum
      ∧ t.total_spent ≤ t.total_received
      ∧ (Table.values t.spending_log).Perm outstanding
      ∧ ∀ r ∈ outstanding, ∃ t' : Treasury,
          (∀ msg : JettonTransfer, msg.queryId = r.queryId → msg.amount = r.amount →
            t.bounced (.jettonTransfer msg) = .ok t')
          ∧ (∀ ctx, ctx.sender = t.treasury_jetton_wallet D.wallets ctx →
            t.receive D.wallets ctx (.jettonTransferCommitFailed r.queryId r.amount) = .ok (t', []))
          ∧ (Table.values t.spending_log).Perm (r :: Table.values t'.spending_log)
          ∧ t'.total_spent + r.amount = t.total_spent := by
  have hstart : c₀.st.treasury.Holds [] := by
    rw [h₀]
    exact ⟨⟨Table.dense_empty, List.nodup_nil, rfl, Nat.le_refl 0⟩, List.Perm.refl []⟩
  obtain ⟨hl, hp⟩ := h.invariant ledger_tracks hstart
  refine ⟨hl.dense, hl.distinct, hl.spent, hl.bounded, hp, fun r hr => ?_⟩
  obtain ⟨t', ht', hperm, -, hspent⟩ := hl.rollbackSpend (hp.mem_iff.mpr hr)
  refine ⟨t', fun msg hq ha => ?_, fun ctx hs => ?_, hperm, hspent⟩
  · simp only [Treasury.bounced, hq, ha, ht']
  · simp only [Treasury.receive, Treasury.receiveJettonTransferCommitFailed, require_pos hs, ok_bind,
      ht']

/-- Only the treasury is modelled. -/
def treasuryOnly : Part → Bool
  | .treasury => true
  | _ => false

/-- A spend for account 6. -/
def spendCell (queryId amount : Nat) : Cell :=
  match TreasurySpend.toCell
    { queryId, recipient := account 6, amount, reason := .mk [true] [], proposalId := 4 } with
  | .ok c => c
  | .error _ => .empty

/-- Fees of 1000 arrive; of two spends, the first one's transfer comes back. -/
def spendReturned : List (Action Address Body Gas) :=
  [.send (external (D₀.addr (.jettonWallet D₀.R D₀.J)) D₀.R (milliTon 100)
     (.jettonNotification { queryId := 0, amount := 1000, sender := account 7
                            forwardPayload := noForwardPayload })),
   .deliver 0 (freeGas 0) true,
   .send (external D₀.T D₀.R (milliTon 3000) (.raw (spendCell 1 300))), .deliver 0 (freeGas 0) true,
   .send (external D₀.T D₀.R (milliTon 3000) (.raw (spendCell 2 200))), .deliver 1 (freeGas 0) true,
   .deliver 0 (freeGas 0) false, .deliver 1 (freeGas 0) true]

/-- Of the two spends, the second one is outstanding. -/
theorem treasury_ledger_returned :
    ∃ c outstanding, (network D₀ treasuryOnly fun _ _ => false).execLogged (outstandingRecorder D₀)
        (bootstrapAt 1000) [] spendReturned = some (c, outstanding)
      ∧ outstanding.map (fun r => (r.queryId, r.amount)) = [(2, 200)]
      ∧ c.st.treasury.total_spent = 200 ∧ c.st.treasury.spending_count = 1
      ∧ (Table.values c.st.treasury.spending_log).Perm outstanding := by
  have hrun : ((network D₀ treasuryOnly fun _ _ => false).execLogged (outstandingRecorder D₀)
      (bootstrapAt 1000) [] spendReturned).map (fun r => (r.2.map (fun r => (r.queryId, r.amount)),
        r.1.st.treasury.total_spent, r.1.st.treasury.spending_count))
      = some ([(2, 200)], 200, 1) := by
    decide +kernel
  obtain ⟨⟨c, outstanding⟩, hc, hrun⟩ := Option.map_eq_some_iff.mp hrun
  simp only [Prod.mk.injEq] at hrun
  obtain ⟨hout, hspent, hcount⟩ := hrun
  have h := treasury_ledger rfl (Machine.logged_of_exec hc)
  exact ⟨c, outstanding, hc, hout, hspent, hcount, h.2.2.2.2.1⟩

end Runs

end BurnedChats

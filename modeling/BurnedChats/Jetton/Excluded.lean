import BurnedChats.Jetton.Runs
import Mathlib.Data.Finset.Basic

/-!
# The exclusion list is a set

The master keeps the excluded owners as a chain of cells and a counter. Both are
one list without repetitions (`Listing`), which `AddExcluded` extends and
`RemoveExcluded` shrinks; its elements are the set of the owners that were added
and not removed since. Wallets that test membership on a snapshot of the chain
get the master's answers.
-/

namespace BurnedChats

open Network

/-! ## Chains as lists -/

/-- The chain of a list of addresses. -/
def chainOf : List Address → Cell
  | [] => emptyExcludedHead
  | a :: l => excludedChainPrepend (chainOf l) a

theorem excludedChainPrepend_eq (head : Cell) (a : Address) :
    excludedChainPrepend head a = .mk (Slice.addressBits a) [head] := rfl

theorem isExcludedChainEmpty_chainOf (l : List Address) :
    isExcludedChainEmpty (chainOf l) = l.isEmpty := by
  cases l with
  | nil => rfl
  | cons a l => simp [chainOf, excludedChainPrepend_eq, isExcludedChainEmpty, Cell.refs]

theorem isInExcludedChain_chainOf (addr : Address) {l : List Address}
    (h : ∀ a ∈ l, a.Standard) :
    isInExcludedChain addr (chainOf l) = .ok (decide (addr ∈ l)) := by
  induction l with
  | nil => rfl
  | cons a l ih =>
      obtain ⟨ha, hl⟩ := List.forall_mem_cons.mp h
      simp only [chainOf, excludedChainPrepend_eq, isInExcludedChain, Slice.loadAddress_self,
        Address.wrap_of_standard ha, ok_bind]
      by_cases he : a = addr
      · simp [he]
      · simp [he, ih hl, Ne.symm he]

theorem isExcludedMember_chainOf (addr : Address) {l : List Address}
    (h : ∀ a ∈ l, a.Standard) :
    isExcludedMember addr (chainOf l) l.length = .ok (decide (addr ∈ l)) := by
  cases l with
  | nil => rfl
  | cons a l =>
      simp only [isExcludedMember, isExcludedChainEmpty_chainOf, List.length_cons,
        isInExcludedChain_chainOf addr h]
      simp

theorem excludedChainRemove_chainOf (addr : Address) {l : List Address}
    (h : ∀ a ∈ l, a.Standard) :
    excludedChainRemove addr (chainOf l) = .ok (chainOf (l.erase addr)) := by
  induction l with
  | nil => rfl
  | cons a l ih =>
      obtain ⟨ha, hl⟩ := List.forall_mem_cons.mp h
      simp only [chainOf, excludedChainPrepend_eq, excludedChainRemove, Slice.loadAddress_self,
        Address.wrap_of_standard ha, ok_bind]
      by_cases he : a = addr
      · simp [he]
      · simp [he, ih hl, List.erase_cons_tail, chainOf, excludedChainPrepend_eq]

/-! ## The list of the master -/

/-- The master's chain and counter are the list `l`. -/
structure Listing (x : BurnJettonMaster) (l : List Address) : Prop where
  head : x.excludedHead = chainOf l
  count : x.excludedCount = l.length
  standard : ∀ a ∈ l, a.Standard
  nodup : l.Nodup
  bound : l.length ≤ MAX_EXCLUDED_ADDRESSES

namespace Listing

variable {x x' : BurnJettonMaster} {l : List Address}

theorem get_is_excluded (h : Listing x l) (a : Address) :
    x.get_is_excluded a = .ok (decide (a ∈ l)) := by
  rw [BurnJettonMaster.get_is_excluded, h.head, isInExcludedChain_chainOf a h.standard]

theorem mem_iff (h : Listing x l) {a : Address} {found : Bool}
    (hf : isInExcludedChain a x.excludedHead = .ok found) : found = true ↔ a ∈ l := by
  rw [h.head, isInExcludedChain_chainOf a h.standard] at hf
  obtain rfl := Except.ok.inj hf
  exact decide_eq_true_iff

theorem of_eq (h : Listing x l) (hh : x'.excludedHead = x.excludedHead)
    (hc : x'.excludedCount = x.excludedCount) : Listing x' l :=
  ⟨hh ▸ h.head, hc ▸ h.count, h.standard, h.nodup, h.bound⟩

theorem prepend (h : Listing x l) {a : Address} (ha : a.Standard) (hmem : a ∉ l)
    (hlt : x.excludedCount < MAX_EXCLUDED_ADDRESSES)
    (hh : x'.excludedHead = excludedChainPrepend x.excludedHead a)
    (hc : x'.excludedCount = x.excludedCount + 1) : Listing x' (a :: l) := by
  rw [h.count] at hlt
  refine ⟨?_, ?_, List.forall_mem_cons.mpr ⟨ha, h.standard⟩, List.nodup_cons.mpr ⟨hmem, h.nodup⟩,
    ?_⟩
  · rw [hh, h.head, chainOf]
  · rw [hc, h.count, List.length_cons]
    rfl
  · rw [List.length_cons]
    omega

theorem remove (h : Listing x l) {a : Address} (hmem : a ∈ l)
    (hh : excludedChainRemove a x.excludedHead = .ok x'.excludedHead)
    (hc : x'.excludedCount = x.excludedCount - 1) : Listing x' (l.erase a) := by
  have hlen := List.length_erase_add_one hmem
  refine ⟨?_, ?_, fun b hb => h.standard b (List.mem_of_mem_erase hb), h.nodup.erase a, ?_⟩
  · rw [h.head, excludedChainRemove_chainOf a h.standard] at hh
    exact (Except.ok.inj hh).symm
  · rw [hc, h.count]
    omega
  · exact Nat.le_trans (by omega) h.bound

end Listing

/-- The owners that were added and not removed since. -/
def excludedEntry : Body → Finset Address → Finset Address
  | .addExcluded _ address, excluded => insert address excluded
  | .removeExcluded _ address, excluded => excluded.erase address
  | _, excluded => excluded

theorem Listing.configured {ctx : Ctx} {x x' : BurnJettonMaster} {l : List Address} {b : Body}
    (h : Listing x l) (hb : b.inRange = true) (hr : BurnJettonMaster.Configured ctx x b x') :
    ∃ l', Listing x' l' ∧ l'.toFinset = excludedEntry b l.toFinset := by
  cases hr with
  | present q a hf =>
      have hmem : a ∈ l := (h.mem_iff hf).mp rfl
      exact ⟨l, h, by simp [excludedEntry, hmem]⟩
  | added q a hf hlt =>
      have hmem : a ∉ l := fun hc => Bool.false_ne_true ((h.mem_iff hf).mpr hc)
      exact ⟨a :: l, h.prepend (of_decide_eq_true hb) hmem hlt rfl rfl, by simp [excludedEntry]⟩
  | absent q a hf =>
      have hmem : a ∉ l := fun hc => Bool.false_ne_true ((h.mem_iff hf).mpr hc)
      exact ⟨l, h, by simp [excludedEntry, hmem]⟩
  | removed q a head hf hhead =>
      have hmem : a ∈ l := (h.mem_iff hf).mp rfl
      refine ⟨l.erase a, h.remove hmem hhead rfl, ?_⟩
      ext a'
      simp [excludedEntry, h.nodup.mem_erase_iff]
  | other b supply admin mintable content hadd hremove =>
      refine ⟨l, h.of_eq rfl rfl, ?_⟩
      cases b with
      | addExcluded q a => exact absurd rfl (hadd q a)
      | removeExcluded q a => exact absurd rfl (hremove q a)
      | _ => rfl
  | _ => exact ⟨l, h.of_eq rfl rfl, rfl⟩

/-! ## Whole runs -/

section Runs

variable {D : Deployment} {modelled : Part → Bool} {ordered : Address → Address → Bool}

theorem listing_tracks :
    (network D modelled ordered).Tracks (Meets (Typed D)) (jettonMasterRecorder D excludedEntry)
      fun c excluded => ∃ l, Listing c.st.jetton.master l ∧ l.toFinset = excluded := by
  refine jettonMaster_tracks (I := fun x s => ∃ l, Listing x l ∧ l.toFinset = s) ?_ ?_
  · rintro x b s ⟨l, hl, hs⟩
    refine ⟨l, hl.of_eq ?_ ?_, hs⟩ <;> cases b <;> rfl
  · rintro w now g m x' out s hb - hr ⟨l, hl, rfl⟩
    exact hl.configured hb (BurnJettonMaster.receive_configured hr)

/-- **The exclusion list is a set.** In every run from an empty list, the chain
holds each address at most once and as many as the counter says, at most 64; the
master answers membership in the set of the accepted additions and removals, and
so does a wallet on the snapshot the master pushes to it. -/
theorem excluded_is_set {c₀ c : WorldConf} {excluded : Finset Address}
    (h₀ : c₀.st.jetton.master.excludedHead = emptyExcludedHead)
    (hn₀ : c₀.st.jetton.master.excludedCount = 0)
    (h : (network D modelled ordered).Logged (Meets (Typed D))
      (jettonMasterRecorder D excludedEntry) c₀ ∅ c excluded) :
    (∃ l : List Address, c.st.jetton.master.excludedHead = chainOf l ∧ l.Nodup
        ∧ c.st.jetton.master.excludedCount = l.length ∧ l.length ≤ 64
        ∧ l.toFinset = excluded)
      ∧ (∀ a, c.st.jetton.master.get_is_excluded a = .ok (decide (a ∈ excluded)))
      ∧ (∀ q a, isExcludedMember a (c.st.jetton.master.feeConfigMessage q).excluded_head
          (c.st.jetton.master.feeConfigMessage q).excluded_count.toNat
          = .ok (decide (a ∈ excluded)))
      ∧ ∀ q ctx x x' out d a,
          BurnJettonWallet.receiveUpdateFeeConfig ctx x (c.st.jetton.master.feeConfigMessage q)
            = .ok (x', out) →
          decodeFeeConfig x'.feeConfig = .ok d →
          isExcludedMember a d.excludedHead d.excludedCount = .ok (decide (a ∈ excluded)) := by
  have hstart : ∃ l, Listing c₀.st.jetton.master l ∧ l.toFinset = ∅ :=
    ⟨[], ⟨h₀, hn₀, (fun _ h => by cases h), List.nodup_nil, Nat.zero_le _⟩, rfl⟩
  obtain ⟨l, hl, rfl⟩ := h.invariant listing_tracks hstart
  have hmember : ∀ a, isExcludedMember a c.st.jetton.master.excludedHead
      c.st.jetton.master.excludedCount.toNat = .ok (decide (a ∈ l.toFinset)) := by
    intro a
    rw [hl.head, hl.count, Int.toNat_natCast, isExcludedMember_chainOf a hl.standard]
    simp
  refine ⟨⟨l, hl.head, hl.nodup, hl.count, hl.bound, rfl⟩, fun a => ?_, fun q => hmember, ?_⟩
  · rw [hl.get_is_excluded a]
    simp
  · intro q ctx x x' out d a hu hd
    simp only [BurnJettonWallet.receiveUpdateFeeConfig, bind_eq_ok, Except.ok.injEq,
      Prod.mk.injEq] at hu
    obtain ⟨_, -, _, -, _, -, ext, hext, cfg, hcfg, rfl, -⟩ := hu
    rw [(decodeFeeConfig_pack hext hcfg).1] at hd
    obtain rfl := Except.ok.inj hd
    exact hmember a

/-- A message of the timelock to the jetton master. -/
def toMaster (b : Body) : Action Address Body Gas := .send (external D₀.T D₀.J (milliTon 100) b)

/-- Accounts 3 and 4 are added, 3 once more, and 4 is removed. -/
def exclusions : List (Action Address Body Gas) :=
  [toMaster (.addExcluded 0 (account 3)), .deliver 0 (freeGas 0) true,
   toMaster (.addExcluded 0 (account 4)), .deliver 0 (freeGas 0) true,
   toMaster (.addExcluded 0 (account 3)), .deliver 0 (freeGas 0) true,
   toMaster (.removeExcluded 0 (account 4)), .deliver 0 (freeGas 0) true]

theorem excluded_is_set_one :
    ∃ c, (network D₀ jettonMasterOnly fun _ _ => false).execWhile
        (fun c a => decide (Meets (Typed D₀) c a)) (jettonMasterRecorder D₀ excludedEntry)
        (bootstrapAt 1000) ∅ exclusions = some (c, {account 3})
      ∧ c.st.jetton.master.excludedCount = 1
      ∧ c.st.jetton.master.get_is_excluded (account 3) = .ok true
      ∧ c.st.jetton.master.get_is_excluded (account 4) = .ok false := by
  have hrun : ((network D₀ jettonMasterOnly fun _ _ => false).execWhile
      (fun c a => decide (Meets (Typed D₀) c a)) (jettonMasterRecorder D₀ excludedEntry)
      (bootstrapAt 1000) ∅ exclusions).map
        (fun r => (r.2, r.1.st.jetton.master.excludedCount)) = some ({account 3}, 1) := by
    decide +kernel
  obtain ⟨⟨c, s⟩, hc, hrun⟩ := Option.map_eq_some_iff.mp hrun
  obtain ⟨rfl, hn⟩ : s = {account 3} ∧ c.st.jetton.master.excludedCount = 1 := Prod.mk.inj hrun
  have h := excluded_is_set rfl rfl
    (Machine.logged_of_execWhile (G := Meets (Typed D₀)) (fun _ _ h => of_decide_eq_true h) hc)
  exact ⟨c, hc, hn, h.2.1 (account 3), h.2.1 (account 4)⟩

end Runs

end BurnedChats

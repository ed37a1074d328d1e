import BurnedChats.Messages
import Mathlib.Tactic.Linarith

/-!
# Fee configuration of a jetton wallet

The snapshot of the master's fee rates, destinations, exclusion list and gas
parameters that a wallet keeps as one cell (`burn-jetton-wallet.tact`), with the
functions the wallet computes from it: gas validation, fee split and fan-out
plan.

`decodeFeeConfig_pack` is the round trip of the cell layout; every use of a
stored configuration goes through it.
-/

namespace BurnedChats

/-! ## Constants -/

def minTonsForStorage : Nat := milliTon 10
def perInternalDeployTon : Nat := milliTon 550
def minTonFeePath : Nat := milliTon 1000
def minForwardForLiveExcludedCheck : Nat := milliTon 1000
def gasPoolToMasterAccrual : Nat := milliTon 60
def gasPoolForwardMin : Nat := milliTon 70
def gasTreasuryForwardMin : Nat := milliTon 10
def gasPoolForwardEpsilon : Nat := milliTon 5
def gasBurnNotifyTon : Nat := milliTon 60
def gasPropagateTon : Nat := milliTon 50
def gasDeliverPadTon : Nat := milliTon 20
def GAS_MIN_TON_FEE_PATH_FLOOR : Nat := milliTon 950
def GAS_MIN_TON_FEE_PATH_CEIL : Nat := milliTon 5000
def GAS_DELIVER_CEIL : Nat := milliTon 1000
def GAS_INVARIANT_FWD_CEIL : Nat := milliTon 10
def MAX_EXCLUDED_ADDRESSES : Nat := 64
def MAX_TOTAL_FEE_BPS : Nat := 500

/-! ## Gas parameters -/

structure GasParamsView where
  minTonFeePath : Nat
  perInternalDeployTon : Nat
  poolForwardMin : Nat
  treasuryForwardMin : Nat
  burnNotifyTon : Nat
  propagateTon : Nat
  deriving DecidableEq, Repr

def defaultGasParams : GasParamsView where
  minTonFeePath := minTonFeePath
  perInternalDeployTon := perInternalDeployTon
  poolForwardMin := gasPoolForwardMin
  treasuryForwardMin := gasTreasuryForwardMin
  burnNotifyTon := gasBurnNotifyTon
  propagateTon := gasPropagateTon

/-- The fan-out of a fee transfer at the worst admitted forward fee. -/
def worstFanout (g : GasParamsView) : Nat :=
  let worstPoolFwd := max g.poolForwardMin
    (gasPoolToMasterAccrual + GAS_INVARIANT_FWD_CEIL + minTonsForStorage + gasPoolForwardEpsilon)
  let worstPoolDeliver :=
    worstPoolFwd + GAS_INVARIANT_FWD_CEIL + minTonsForStorage + gasDeliverPadTon
  let worstTreasDeliver :=
    g.treasuryForwardMin + GAS_INVARIANT_FWD_CEIL + minTonsForStorage + gasDeliverPadTon
  g.perInternalDeployTon + worstPoolDeliver + worstTreasDeliver + g.burnNotifyTon
    + 3 * g.propagateTon

def isValidGasParams (g : GasParamsView) : Bool :=
  if g.minTonFeePath < GAS_MIN_TON_FEE_PATH_FLOOR
      || GAS_MIN_TON_FEE_PATH_CEIL < g.minTonFeePath then false
  else if g.perInternalDeployTon < perInternalDeployTon
      || GAS_DELIVER_CEIL < g.perInternalDeployTon then false
  else if g.poolForwardMin < gasPoolForwardMin || GAS_DELIVER_CEIL < g.poolForwardMin then false
  else if g.treasuryForwardMin < gasTreasuryForwardMin
      || GAS_DELIVER_CEIL < g.treasuryForwardMin then false
  else if g.burnNotifyTon < gasBurnNotifyTon || GAS_DELIVER_CEIL < g.burnNotifyTon then false
  else if g.propagateTon < gasPropagateTon || GAS_DELIVER_CEIL < g.propagateTon then false
  else decide (worstFanout g ≤ g.minTonFeePath)

def packGasParamsCell (g : GasParamsView) : Tx Cell := do
  let b ← Slice.empty.storeCoins g.minTonFeePath
  let b ← b.storeCoins g.perInternalDeployTon
  let b ← b.storeCoins g.poolForwardMin
  let b ← b.storeCoins g.treasuryForwardMin
  let b ← b.storeCoins g.burnNotifyTon
  let b ← b.storeCoins g.propagateTon
  .ok b.endCell

def parseGasParamsCell (c : Cell) : Tx GasParamsView := do
  let (mtf, s) ← c.beginParse.loadCoins
  let (pid, s) ← s.loadCoins
  let (pfm, s) ← s.loadCoins
  let (tfm, s) ← s.loadCoins
  let (bnt, s) ← s.loadCoins
  let (prt, _) ← s.loadCoins
  .ok ⟨mtf, pid, pfm, tfm, bnt, prt⟩

/-! ## The exclusion list

A chain of cells, each holding an address and a reference to the rest; the empty
cell ends it. -/

def emptyExcludedHead : Cell := .empty

def isExcludedChainEmpty (head : Cell) : Bool := head.bits.isEmpty && head.refs.isEmpty

def isInExcludedChain (addr : Address) : Cell → Tx Bool
  | .mk bits [] =>
      if bits.isEmpty then .ok false
      else do
        let (a, _) ← (Slice.mk bits []).loadAddress
        .ok (decide (a = addr))
  | .mk bits (tail :: r) => do
      let (a, _) ← (Slice.mk bits (tail :: r)).loadAddress
      if a = addr then .ok true else isInExcludedChain addr tail

def isExcludedMember (addr : Address) (head : Cell) (count : Nat) : Tx Bool :=
  if count = 0 || isExcludedChainEmpty head then .ok false
  else isInExcludedChain addr head

def excludedChainPrepend (head : Cell) (addr : Address) : Cell :=
  ((Slice.empty.storeAddress addr).storeRef head).endCell

def excludedChainRemove (addr : Address) : Cell → Tx Cell
  | .mk bits [] =>
      if bits.isEmpty then .ok (.mk bits [])
      else do
        let (_, s) ← (Slice.mk bits []).loadAddress
        let (tail, _) ← s.loadRef
        .ok tail
  | .mk bits (tail :: r) => do
      let (a, _) ← (Slice.mk bits (tail :: r)).loadAddress
      if a = addr then .ok tail
      else do
        let newTail ← excludedChainRemove addr tail
        .ok (excludedChainPrepend newTail a)

/-! ## The configuration cell -/

structure DecodedFeeConfig where
  active : Bool
  burnBps : Nat
  stakeBps : Nat
  treasBps : Nat
  poolOwner : Address
  treasuryOwner : Address
  dynamicBurnEnabled : Bool
  largeTxThreshold : Nat
  activityThreshold : Nat
  maxBurnRateBps : Nat
  txCountSnapshot : Nat
  activityHourBucket : Nat
  lowSupplyMode : Bool
  excludedCount : Nat
  excludedHead : Cell
  gas : GasParamsView

/-- The configuration every wallet is deployed with. -/
def jettonWalletEmptyFeeConfig : Cell := .empty

def decodeFeeConfig (cfg : Cell) : Tx DecodedFeeConfig := do
  let s := cfg.beginParse
  if s.bits.length = 0 then
    return { active := false, burnBps := 0, stakeBps := 0, treasBps := 0,
             poolOwner := ⟨.basechain, 0⟩, treasuryOwner := ⟨.basechain, 0⟩,
             dynamicBurnEnabled := false, largeTxThreshold := 0, activityThreshold := 100,
             maxBurnRateBps := 100, txCountSnapshot := 0, activityHourBucket := 0,
             lowSupplyMode := false, excludedCount := 0, excludedHead := emptyExcludedHead,
             gas := defaultGasParams }
  let (active, s) ← s.loadUint 1
  let (b, s) ← s.loadUint 16
  let (st, s) ← s.loadUint 16
  let (tr, s) ← s.loadUint 16
  let (p, s) ← s.loadAddress
  let (t, s) ← s.loadAddress
  if s.refs.length = 0 then
    return { active := active == 1, burnBps := b, stakeBps := st, treasBps := tr, poolOwner := p,
             treasuryOwner := t, dynamicBurnEnabled := false, largeTxThreshold := 10 * 10 ^ 9,
             activityThreshold := 100, maxBurnRateBps := 100, txCountSnapshot := 0,
             activityHourBucket := 0, lowSupplyMode := false, excludedCount := 0,
             excludedHead := emptyExcludedHead, gas := defaultGasParams }
  let (extCell, _) ← s.loadRef
  let (dynamicBurnEnabled, ext) ← extCell.beginParse.loadBit
  let (largeTxThreshold, ext) ← ext.loadCoins
  let (activityThreshold, ext) ← ext.loadUint 32
  let (maxBurnRateBps, ext) ← ext.loadUint 16
  let (txCountSnapshot, ext) ← ext.loadUint 32
  let (activityHourBucket, ext) ← ext.loadUint 32
  let (lowSupplyMode, ext) ← ext.loadBit
  let (excludedCount, ext) ← ext.loadUint 16
  let (excludedHead, ext) ← ext.loadRef
  -- a snapshot without the gas section keeps the default gas parameters
  let gas ← match ext.refs with
    | [] => .ok defaultGasParams
    | g :: _ => parseGasParamsCell g
  return { active := active == 1, burnBps := b, stakeBps := st, treasBps := tr, poolOwner := p,
           treasuryOwner := t, dynamicBurnEnabled, largeTxThreshold, activityThreshold,
           maxBurnRateBps, txCountSnapshot, activityHourBucket, lowSupplyMode, excludedCount,
           excludedHead, gas }

def packFeeConfigExtension (dynamicBurnEnabled : Bool) (largeTxThreshold : Nat)
    (activityThreshold maxBurnRateBps txCountSnapshot activityHourBucket : Int)
    (lowSupplyMode : Bool) (excludedCount : Int) (excludedHead : Cell) (gas : GasParamsView) :
    Tx Cell := do
  let b ← (Slice.empty.storeBit dynamicBurnEnabled).storeCoins largeTxThreshold
  let b ← b.storeUint activityThreshold 32
  let b ← b.storeUint maxBurnRateBps 16
  let b ← b.storeUint txCountSnapshot 32
  let b ← b.storeUint activityHourBucket 32
  let b ← (b.storeBit lowSupplyMode).storeUint excludedCount 16
  let g ← packGasParamsCell gas
  .ok ((b.storeRef excludedHead).storeRef g).endCell

def packFeeConfigCell (burnBps stakeBps treasBps : Int) (poolOwner treasuryOwner : Address)
    (ext : Cell) : Tx Cell := do
  let b ← Slice.empty.storeUint 1 1
  let b ← b.storeUint burnBps 16
  let b ← b.storeUint stakeBps 16
  let b ← b.storeUint treasBps 16
  .ok (((b.storeAddress poolOwner).storeAddress treasuryOwner).storeRef ext).endCell

/-! ## Round trips -/

theorem parseGasParamsCell_pack {g : GasParamsView} {c : Cell} (h : packGasParamsCell g = .ok c) :
    parseGasParamsCell c = .ok g := by
  simp only [packGasParamsCell, bind_eq_ok, Slice.storeCoins_eq_ok, Except.ok.injEq] at h
  obtain ⟨_, ⟨h1, rfl⟩, _, ⟨h2, rfl⟩, _, ⟨h3, rfl⟩, _, ⟨h4, rfl⟩, _, ⟨h5, rfl⟩, _, ⟨h6, rfl⟩,
    rfl⟩ := h
  simp only [parseGasParamsCell, Cell.beginParse, Slice.endCell, Cell.bits, Cell.refs,
    Slice.storeBits, Slice.empty, List.nil_append, List.append_assoc, Slice.loadCoins_append h1,
    Slice.loadCoins_append h2, Slice.loadCoins_append h3, Slice.loadCoins_append h4,
    Slice.loadCoins_append h5, Slice.loadCoins_self h6, ok_bind]

/-- Reading back a stored configuration. The bounds are what the writers checked. -/
theorem decodeFeeConfig_pack {dyn low : Bool} {large : Nat} {act maxBurn txc hour cnt : Int}
    {head ext c : Cell} {gas : GasParamsView} {b st tr : Int} {p t : Address}
    (he : packFeeConfigExtension dyn large act maxBurn txc hour low cnt head gas = .ok ext)
    (hc : packFeeConfigCell b st tr p t ext = .ok c) :
    decodeFeeConfig c = .ok
        { active := true, burnBps := b.toNat, stakeBps := st.toNat, treasBps := tr.toNat,
          poolOwner := p.wrap, treasuryOwner := t.wrap, dynamicBurnEnabled := dyn,
          largeTxThreshold := large, activityThreshold := act.toNat,
          maxBurnRateBps := maxBurn.toNat, txCountSnapshot := txc.toNat,
          activityHourBucket := hour.toNat, lowSupplyMode := low, excludedCount := cnt.toNat,
          excludedHead := head, gas := gas }
      ∧ 0 ≤ b ∧ 0 ≤ st ∧ 0 ≤ tr := by
  simp only [packFeeConfigExtension, bind_eq_ok, Slice.storeCoins_eq_ok, Slice.storeUint_eq_ok,
    Except.ok.injEq] at he
  obtain ⟨_, ⟨hl, rfl⟩, _, ⟨ha0, ha, rfl⟩, _, ⟨hm0, hm, rfl⟩, _, ⟨ht0, ht, rfl⟩, _,
    ⟨hh0, hh, rfl⟩, _, ⟨hn0, hn, rfl⟩, g, hg, rfl⟩ := he
  simp only [packFeeConfigCell, bind_eq_ok, Slice.storeUint_eq_ok, Except.ok.injEq] at hc
  obtain ⟨_, ⟨-, -, rfl⟩, _, ⟨hb0, hb, rfl⟩, _, ⟨hs0, hs, rfl⟩, _, ⟨hr0, hr, rfl⟩, rfl⟩ := hc
  refine ⟨?_, hb0, hs0, hr0⟩
  have small : ∀ {n : Int} {w : Nat}, 0 ≤ n → n < 2 ^ w → n.toNat < 2 ^ w := by
    intro n w h0 h1
    have : ((n.toNat : Int)) < ((2 ^ w : Nat) : Int) := by
      rw [Int.toNat_of_nonneg h0]; exact_mod_cast h1
    exact_mod_cast this
  simp only [decodeFeeConfig, Cell.beginParse, Slice.endCell, Cell.bits, Cell.refs,
    Slice.storeBits, Slice.storeAddress, Slice.storeRef, Slice.storeBit, Slice.empty,
    List.nil_append, List.append_assoc, List.length_append, natToBits_length,
    Slice.loadUint_append (show (1 : Int).toNat < 2 ^ 1 by decide),
    Slice.loadUint_append (small hb0 hb), Slice.loadUint_append (small hs0 hs),
    Slice.loadUint_append (small hr0 hr), Slice.loadAddress_append, Slice.loadAddress_self,
    ok_bind, List.length_cons, Slice.loadRef_cons, List.cons_append, Slice.loadBit_cons,
    Slice.loadCoins_append hl, Slice.loadUint_append (small ha0 ha),
    Slice.loadUint_append (small hm0 hm), Slice.loadUint_append (small ht0 ht),
    Slice.loadUint_append (small hh0 hh), Slice.loadUint_self (small hn0 hn),
    parseGasParamsCell_pack hg]
  rw [if_neg (by omega), if_neg (by simp)]
  rfl

end BurnedChats

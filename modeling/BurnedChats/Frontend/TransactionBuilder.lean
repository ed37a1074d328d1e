import BurnedChats.Lib.Builder
import BurnedChats.Staking.Notices

/-!
# Jetton messages of the client

The client writes the body of a jetton transfer, the sender's jetton wallet reads it.
The forward payload comes last and takes whatever is left: its first bit tells the
wallet whether the payload stands in the body or in a reference. The payload of a
stake is one bit and one reference, the empty payload one bit, and both always fit. A
comment is written into the body itself, behind fields of which the two amounts and
the response address have no fixed length, and what does not fit is an error of the
builder, not a reference (`transfers_understood`).
-/

namespace BurnedChats

/-! ## The wallet's reading -/

/-- The message as the wallet unpacks it. -/
def JettonTransfer.fromCell (body : Cell) : Tx JettonTransfer := do
  let (op, s) ← body.beginParse.loadUint 32
  require (op = 0xf8a7ea5) unknownMessage
  let (queryId, s) ← s.loadUint 64
  let (amount, s) ← s.loadCoins
  let (destination, s) ← s.loadAddress
  let (responseDestination, s) ← s.loadMaybeAddress
  let (customPayload, s) ← s.loadMaybeRef
  let (forwardTonAmount, s) ← s.loadCoins
  .ok { queryId, amount, destination, responseDestination, customPayload, forwardTonAmount
        forwardPayload := s }

/-! ## The client's writing -/

namespace TransactionBuilder

open Builder

def JETTON_TRANSFER_OP : Nat := 0x0f8a7ea5

def STAKE_FORWARD_OP : Nat := 0x5a020010

def BURN_TRANSFER_ATTACHED_TON : Nat := milliTon 1500

/-- What `endCell().asSlice()` reads. -/
def asSlice (b : Builder) : Slice := b.endCell.beginParse

def emptyForwardPayloadSlice : Tx Slice := do
  let b ← beginCell.storeUint 0 1
  .ok (asSlice b)

def stakeForwardPayloadSlice (tier : Nat) : Tx Slice := do
  let inner ← beginCell.storeUint STAKE_FORWARD_OP 32
  let inner ← inner.storeUint tier 8
  let b ← beginCell.storeUint 1 1
  let b ← b.storeRef inner.endCell
  .ok (asSlice b)

/-- The string is written as its UTF-8 bytes. -/
def encodeCommentForwardPayload (comment : String) : Tx Slice := do
  let b ← beginCell.storeUint 0 32
  let b ← b.storeBufferTail comment.toUTF8.data.toList
  .ok (asSlice b)

def buildJettonTransferBody (params : JettonTransfer) : Tx Cell := do
  let b ← beginCell.storeUint JETTON_TRANSFER_OP 32
  let b ← b.storeUint params.queryId 64
  let b ← b.storeCoins params.amount
  let b ← b.storeAddress (some params.destination)
  let b ← b.storeAddress params.responseDestination
  let b ← match params.customPayload with
    | some customPayload => do
        let b ← b.storeBit true
        b.storeRef customPayload
    | none => b.storeBit false
  let b ← b.storeCoins params.forwardTonAmount
  let b ← b.storeSlice params.forwardPayload
  .ok b.endCell

/-- A message for the user's wallet to send; the body goes there as a bag of cells. -/
structure TransactionMessage where
  address : Address
  amount : Nat
  payload : Cell

structure TransferParams where
  jettonWallet : Address
  recipient : Address
  amount : Nat
  forwardPayload : Option Slice := none
  forwardAmount : Option Nat := none
  responseAddress : Option Address := none
  customPayload : Option Cell := none
  queryId : Option Nat := none
  attachedTon : Option Nat := none

/-- The fields of the transfer, with the defaults of those that are left out. -/
def TransferParams.fields (params : TransferParams) (forwardPayload : Slice) : JettonTransfer :=
  { queryId := params.queryId.getD 0
    amount := params.amount
    destination := params.recipient
    responseDestination := some (params.responseAddress.getD params.recipient)
    customPayload := params.customPayload
    forwardTonAmount := params.forwardAmount.getD (milliTon 10)
    forwardPayload }

def buildJettonTransferMsg (params : TransferParams) : Tx TransactionMessage := do
  let forwardPayload ← match params.forwardPayload with
    | some forwardPayload => .ok forwardPayload
    | none => emptyForwardPayloadSlice
  let body ← buildJettonTransferBody (params.fields forwardPayload)
  .ok { address := params.jettonWallet
        amount := params.attachedTon.getD BURN_TRANSFER_ATTACHED_TON
        payload := body }

/-! ## The TON of a stake -/

def GAS_FORWARD_STAKE_JETTON_NANO : Nat := milliTon 1500
def GAS_TO_POOL_NANO : Nat := milliTon 60
def GAS_PAY_REWARDS_NANO : Nat := milliTon 1500
def STAKE_NOTIFY_BUFFER_NANO : Nat := milliTon 80
def PER_INTERNAL_DEPLOY_NANO : Nat := milliTon 550
def BURN_NOTIFY_NANO : Nat := milliTon 60
def PROPAGATE_FEE_CONFIG_NANO : Nat := milliTon 50
def GAS_POOL_FORWARD_MIN_NANO : Nat := milliTon 70
def GAS_POOL_TO_MASTER_ACCRUAL_NANO : Nat := milliTon 60
def GAS_POOL_FORWARD_EPSILON_NANO : Nat := milliTon 5
def MIN_TONS_FOR_STORAGE_NANO : Nat := milliTon 10
def ESTIMATED_FORWARD_FEE_PER_HOP_NANO : Nat := 270000
def INTERNAL_DEPLOY_HEADROOM_NANO : Nat := milliTon 20
def TREASURY_LEG_FORWARD_NANO : Nat := 1
def LIVE_EXCLUDED_RESOLVE_OVERHEAD_NANO : Nat := milliTon 120
def STAKE_ATTACH_SAFETY_MARGIN_NANO : Nat := milliTon 80
def STAKE_FEE_PATH_FANOUT_MARGIN_NANO : Nat := milliTon 350
def GATE_FORWARD_FEE_HEADROOM_NANO : Nat := milliTon 250
def MIN_TON_FEE_PATH_NANO : Nat := milliTon 1000

def STAKE_NOTIFY_FORWARD_MIN_NANO : Nat :=
  GAS_FORWARD_STAKE_JETTON_NANO + 2 * GAS_TO_POOL_NANO + STAKE_NOTIFY_BUFFER_NANO

def STAKE_FORWARD_TON : Nat := milliTon 2000

def STAKE_RESTAKE_NOTIFY_FORWARD_NANO : Nat := STAKE_NOTIFY_FORWARD_MIN_NANO + GAS_PAY_REWARDS_NANO

def gateMinimumNano (minTonPathNano forwardTonAmount : Nat) : Nat :=
  minTonPathNano + forwardTonAmount
    + (if 0 < forwardTonAmount then 2 else 1) * ESTIMATED_FORWARD_FEE_PER_HOP_NANO + 1

def netLegDeliverTon (forwardTonAmount : Nat) : Nat :=
  max PER_INTERNAL_DEPLOY_NANO
    (forwardTonAmount + ESTIMATED_FORWARD_FEE_PER_HOP_NANO + MIN_TONS_FOR_STORAGE_NANO
      + INTERNAL_DEPLOY_HEADROOM_NANO)

def poolLegForwardTon : Nat :=
  max GAS_POOL_FORWARD_MIN_NANO
    (GAS_POOL_TO_MASTER_ACCRUAL_NANO + ESTIMATED_FORWARD_FEE_PER_HOP_NANO
      + MIN_TONS_FOR_STORAGE_NANO + GAS_POOL_FORWARD_EPSILON_NANO)

def warmLegDeliverTon (forwardTon : Nat) : Nat :=
  forwardTon + ESTIMATED_FORWARD_FEE_PER_HOP_NANO + MIN_TONS_FOR_STORAGE_NANO
    + INTERNAL_DEPLOY_HEADROOM_NANO

/-- The recommended attach of the excluded path. -/
def excludedRecommended (forwardTonAmount : Nat) : Nat :=
  max (netLegDeliverTon forwardTonAmount + PROPAGATE_FEE_CONFIG_NANO)
      (gateMinimumNano MIN_TON_FEE_PATH_NANO forwardTonAmount)
    + LIVE_EXCLUDED_RESOLVE_OVERHEAD_NANO + STAKE_ATTACH_SAFETY_MARGIN_NANO
    + GATE_FORWARD_FEE_HEADROOM_NANO

/-- The recommended attach of the fee path. -/
def feeRecommended (forwardTonAmount : Nat) : Nat :=
  max (netLegDeliverTon forwardTonAmount + warmLegDeliverTon poolLegForwardTon
        + warmLegDeliverTon TREASURY_LEG_FORWARD_NANO + BURN_NOTIFY_NANO
        + PROPAGATE_FEE_CONFIG_NANO)
      (gateMinimumNano MIN_TON_FEE_PATH_NANO forwardTonAmount)
    + STAKE_FEE_PATH_FANOUT_MARGIN_NANO + GATE_FORWARD_FEE_HEADROOM_NANO

structure StakeParams where
  stakingMaster : Address
  userJettonWallet : Address
  amount : Nat
  tier : Nat
  responseAddress : Address
  forwardTon : Option Nat := none
  feePath : Bool := false
  restakeWithPendingReward : Bool := false
  attachedTon : Option Nat := none

/-- What the master's notification carries by default. -/
def StakeParams.notifyForward (params : StakeParams) : Nat :=
  if params.restakeWithPendingReward then STAKE_RESTAKE_NOTIFY_FORWARD_NANO else STAKE_FORWARD_TON

/-- The transfer that a stake is; the default attach does not follow `forwardTon`. -/
def StakeParams.transfer (params : StakeParams) (forwardPayload : Slice) : TransferParams :=
  { jettonWallet := params.userJettonWallet
    recipient := params.stakingMaster
    amount := params.amount
    forwardPayload := some forwardPayload
    forwardAmount := some (params.forwardTon.getD params.notifyForward)
    responseAddress := some params.responseAddress
    attachedTon := some (params.attachedTon.getD
      (if params.feePath then feeRecommended params.notifyForward
      else excludedRecommended params.notifyForward)) }

def buildStakeMsg (params : StakeParams) : Tx TransactionMessage := do
  let forwardPayload ← stakeForwardPayloadSlice params.tier
  buildJettonTransferMsg (params.transfer forwardPayload)

/-! ## Well-formed parameters -/

/-- Amounts that coins can hold, addresses with hashes of 256 bits. -/
structure TransferParams.Valid (params : TransferParams) : Prop where
  amount : params.amount < 2 ^ 120
  forwardAmount : ∀ n, params.forwardAmount = some n → n < 2 ^ 120
  recipient : params.recipient.Standard
  responseAddress : ∀ a, params.responseAddress = some a → a.Standard
  queryId : ∀ n, params.queryId = some n → n < 2 ^ 64

structure StakeParams.Valid (params : StakeParams) : Prop where
  amount : params.amount < 2 ^ 120
  forwardTon : ∀ n, params.forwardTon = some n → n < 2 ^ 120
  stakingMaster : params.stakingMaster.Standard
  responseAddress : params.responseAddress.Standard
  tier : params.tier < 256

theorem StakeParams.Valid.transfer {params : StakeParams} (h : params.Valid) (payload : Slice) :
    (params.transfer payload).Valid := by
  refine ⟨h.amount, fun n hn => ?_, h.stakingMaster, fun a ha => ?_, fun n hn => by cases hn⟩
  · obtain rfl : params.forwardTon.getD params.notifyForward = n := Option.some.inj hn
    cases hf : params.forwardTon with
    | none =>
        show params.notifyForward < 2 ^ 120
        unfold StakeParams.notifyForward
        split <;> decide
    | some n => exact h.forwardTon n hf
  · obtain rfl : params.responseAddress = a := Option.some.inj ha
    exact h.responseAddress

/-! ## What is written -/

variable {t : JettonTransfer}

/-- Fields that their formats can hold. -/
structure InRange (t : JettonTransfer) : Prop where
  queryId : t.queryId < 2 ^ 64
  amount : t.amount < 2 ^ 120
  forwardTonAmount : t.forwardTonAmount < 2 ^ 120
  destination : t.destination.Standard
  responseDestination : ∀ a, t.responseDestination = some a → a.Standard

theorem TransferParams.Valid.inRange {params : TransferParams} (h : params.Valid)
    (payload : Slice) : InRange (params.fields payload) := by
  refine ⟨?_, h.amount, ?_, h.recipient, fun a ha => ?_⟩
  · show params.queryId.getD 0 < 2 ^ 64
    cases hq : params.queryId with
    | none => decide
    | some n => exact h.queryId n hq
  · show params.forwardAmount.getD (milliTon 10) < 2 ^ 120
    cases hf : params.forwardAmount with
    | none => decide
    | some n => exact h.forwardAmount n hf
  · obtain rfl : params.responseAddress.getD params.recipient = a := Option.some.inj ha
    cases hr : params.responseAddress with
    | none => exact h.recipient
    | some a => exact h.responseAddress a hr

/-- The fields in the order of the body. -/
def transferSlice (t : JettonTransfer) : Slice :=
  ⟨natToBits 32 JETTON_TRANSFER_OP ++ (natToBits 64 t.queryId ++ (Slice.coinBits t.amount
      ++ (Slice.addressBits t.destination ++ (maybeAddressBits t.responseDestination
        ++ ((maybeRef t.customPayload).bits ++ (Slice.coinBits t.forwardTonAmount
          ++ t.forwardPayload.bits)))))),
    (maybeRef t.customPayload).refs ++ t.forwardPayload.refs⟩

theorem buildJettonTransferBody_eq_ok (h : InRange t) {body : Cell} :
    buildJettonTransferBody t = .ok body
      ↔ (transferSlice t).Fits ∧ body = (transferSlice t).endCell := by
  have hop : JETTON_TRANSFER_OP < 2 ^ 32 := by decide
  have hall : buildJettonTransferBody t = .ok body
      ↔ (beginCell.write (transferSlice t) >>= fun b => .ok b.endCell) = .ok body := by
    obtain ⟨queryId, amount, destination, response, custom, forward, payload⟩ := t
    cases custom <;>
      simp only [buildJettonTransferBody, storeUint_eq hop, storeUint_eq h.queryId,
        storeCoins_eq h.amount, storeCoins_eq h.forwardTonAmount, storeAddress, storeBit, storeBits,
        storeRef, storeSlice, write_bind_write] <;>
      simp only [Slice.storeSlice, transferSlice, maybeRef, maybeAddressBits, List.append_assoc,
        List.nil_append, List.append_nil]
  rw [hall, beginCell_write_bind]
  constructor
  · rintro ⟨hfits, hbody⟩
    exact ⟨hfits, (Except.ok.inj hbody).symm⟩
  · rintro ⟨hfits, rfl⟩
    exact ⟨hfits, rfl⟩

theorem addressBits_length (a : Address) : (Slice.addressBits a).length = 267 := by
  obtain ⟨wc, hash⟩ := a
  cases wc <;>
    simp [Slice.addressBits, Slice.chainTag, Slice.basechainTag, Slice.masterchainTag]

theorem coinBits_length (n : Nat) :
    (Slice.coinBits n).length = 4 + 8 * Slice.coinBytes n := by
  rw [Slice.coinBits, List.length_append, natToBits_length, natToBits_length]

/-- The fields before the payload take 639 bits and the bytes of the two amounts. -/
theorem transferSlice_fits {a : Address} (hresponse : t.responseDestination = some a) :
    (transferSlice t).Fits
      ↔ t.forwardPayload.bits.length + 8 * Slice.coinBytes t.amount
            + 8 * Slice.coinBytes t.forwardTonAmount ≤ 384
        ∧ (maybeRef t.customPayload).refs.length + t.forwardPayload.refs.length ≤ 4 := by
  have hcustom : (maybeRef t.customPayload).bits.length = 1 := by
    cases t.customPayload <;> rfl
  simp only [transferSlice, Slice.Fits, maxBits, maxRefs, List.length_append, natToBits_length,
    coinBits_length, addressBits_length, hresponse, maybeAddressBits, hcustom]
  omega

theorem fromCell_transferSlice (h : InRange t) :
    JettonTransfer.fromCell (transferSlice t).endCell = .ok t := by
  obtain ⟨queryId, amount, destination, response, custom, forward, payload⟩ := t
  have hop : JETTON_TRANSFER_OP < 2 ^ 32 := by decide
  have hresponse : response.map Address.wrap = response := by
    cases response with
    | none => rfl
    | some a => exact congrArg some (Address.wrap_of_standard (h.responseDestination a rfl))
  simp only [JettonTransfer.fromCell, transferSlice, Slice.endCell, Cell.beginParse, Cell.bits,
    Cell.refs, Slice.loadUint_append hop, Slice.loadUint_append h.queryId,
    Slice.loadCoins_append h.amount, Slice.loadCoins_append h.forwardTonAmount,
    Slice.loadAddress_append, Slice.loadMaybeAddress_append, Slice.loadMaybeRef_append, ok_bind,
    Address.wrap_of_standard h.destination, hresponse]
  rfl

/-! ## Payloads -/

theorem emptyForwardPayloadSlice_eq : emptyForwardPayloadSlice = .ok noForwardPayload := rfl

/-- One bit and a reference to the opcode with the tier. -/
theorem stakeForwardPayloadSlice_eq {tier : Nat} (h : tier < 256) :
    stakeForwardPayloadSlice tier
      = .ok ⟨[true], [.mk (natToBits 32 STAKE_FORWARD_OP ++ natToBits 8 tier) []]⟩ := by
  have hop : STAKE_FORWARD_OP < 2 ^ 32 := by decide
  have htier : tier < 2 ^ 8 := h
  have hinner : (Slice.mk (natToBits 32 STAKE_FORWARD_OP ++ natToBits 8 tier) []).Fits := by
    simp [Slice.Fits, maxBits, maxRefs]
  simp only [stakeForwardPayloadSlice, storeUint_eq hop, storeUint_eq htier, write_bind_write,
    beginCell_write_bind]
  refine ⟨hinner, ?_⟩
  have htag : 1 < 2 ^ 1 := by decide
  simp only [storeUint_eq htag, storeRef, write_bind_write, beginCell_write_bind]
  exact ⟨⟨by simp [Slice.storeSlice, maxBits], by simp [Slice.storeSlice, maxRefs]⟩, rfl⟩

/-- A comment: 32 zero bits, the bytes that fit behind them, and a reference for the
others. -/
theorem encodeCommentForwardPayload_ok (comment : String) :
    ∃ r, encodeCommentForwardPayload comment
        = .ok ⟨natToBits 32 0 ++ byteBits (comment.toUTF8.data.toList.take 123), r⟩
      ∧ r.length ≤ 1 ∧ (comment.utf8ByteSize ≤ 123 → r = []) := by
  have hop : 0 < 2 ^ 32 := by decide
  have hfits : (Slice.mk (natToBits 32 0) []).Fits := by decide
  obtain ⟨b, r, hb, hwritten, hr, hnil⟩ := storeBufferTail_ok ⟨_, hfits⟩
    comment.toUTF8.data.toList (by simp [maxRefs])
  have hroom : Builder.room ⟨_, hfits⟩ = 123 := by simp [Builder.room, maxBits]
  rw [hroom] at hwritten hnil
  refine ⟨r, ?_, hr, fun hlen => hnil (by simpa using hlen)⟩
  simp only [encodeCommentForwardPayload, storeUint_eq hop, beginCell_write_bind]
  refine ⟨hfits, ?_⟩
  rw [hb]
  show Except.ok (asSlice b) = _
  have hread : asSlice b = b.written := rfl
  rw [hread, hwritten]
  rfl

/-! ## What the wallet understands -/

/-- The message is built, the wallet reads these fields in it, and admits the payload. -/
def Understood (built : Tx TransactionMessage) (t : JettonTransfer) : Prop :=
  ∃ msg, built = .ok msg ∧ JettonTransfer.fromCell msg.payload = .ok t
    ∧ checkEitherForwardPayload t.forwardPayload = .ok ()

/-- What the wallet admits it understands exactly when it fits. -/
theorem understood_iff {params : TransferParams} {payload : Slice}
    (h : params.Valid) (hpayload : checkEitherForwardPayload payload = .ok ()) :
    Understood (buildJettonTransferMsg { params with forwardPayload := some payload })
        (params.fields payload)
      ↔ payload.bits.length + 8 * Slice.coinBytes params.amount
            + 8 * Slice.coinBytes (params.forwardAmount.getD (milliTon 10)) ≤ 384
        ∧ (maybeRef params.customPayload).refs.length + payload.refs.length ≤ 4 := by
  have hfits : (transferSlice (params.fields payload)).Fits ↔ _ := transferSlice_fits rfl
  refine Iff.trans ?_ hfits
  have hbuild : buildJettonTransferMsg { params with forwardPayload := some payload } = (do
      let body ← buildJettonTransferBody (params.fields payload)
      .ok { address := params.jettonWallet
            amount := params.attachedTon.getD BURN_TRANSFER_ATTACHED_TON
            payload := body }) := rfl
  constructor
  · rintro ⟨msg, hmsg, -⟩
    rw [hbuild, bind_eq_ok] at hmsg
    obtain ⟨body, hbody, -⟩ := hmsg
    exact ((buildJettonTransferBody_eq_ok (h.inRange payload)).mp hbody).1
  · intro hf
    have hbody := (buildJettonTransferBody_eq_ok (h.inRange payload)).mpr ⟨hf, rfl⟩
    refine ⟨⟨params.jettonWallet, params.attachedTon.getD BURN_TRANSFER_ATTACHED_TON,
      (transferSlice (params.fields payload)).endCell⟩, ?_, fromCell_transferSlice (h.inRange payload), hpayload⟩
    rw [hbuild, hbody, ok_bind]

theorem coinBytes_le {n : Nat} (h : n < 2 ^ 120) : Slice.coinBytes n ≤ 15 :=
  Nat.le_of_lt_succ (Slice.coinBytes_lt h)

/-- A payload of one bit and at most one reference fits with every amount. -/
theorem understood_small {params : TransferParams} {payload : Slice}
    (h : params.Valid) (hpayload : checkEitherForwardPayload payload = .ok ())
    (hbits : payload.bits.length = 1) (hrefs : payload.refs.length ≤ 1) :
    Understood (buildJettonTransferMsg { params with forwardPayload := some payload })
      (params.fields payload) := by
  have hamount : Slice.coinBytes params.amount ≤ 15 := coinBytes_le h.amount
  have hforward : Slice.coinBytes (params.forwardAmount.getD (milliTon 10)) ≤ 15 :=
    coinBytes_le (h.inRange payload).forwardTonAmount
  have hcustom : (maybeRef params.customPayload).refs.length ≤ 1 := by
    cases params.customPayload <;> simp [maybeRef]
  exact (understood_iff h hpayload).mpr ⟨by omega, by omega⟩

theorem understood_comment {params : TransferParams} (comment : String)
    (h : params.Valid) :
    ∃ payload, encodeCommentForwardPayload comment = .ok payload
      ∧ (Understood (buildJettonTransferMsg { params with forwardPayload := some payload })
          (params.fields payload)
        ↔ comment.utf8ByteSize + Slice.coinBytes params.amount
            + Slice.coinBytes (params.forwardAmount.getD (milliTon 10)) ≤ 44) := by
  obtain ⟨r, hok, hr, hnil⟩ := encodeCommentForwardPayload_ok comment
  have hlen : (comment.toUTF8.data.toList.take 123).length = min 123 comment.utf8ByteSize := by
    simp
  refine ⟨_, hok, (understood_iff h rfl).trans ?_⟩
  have hcustom : (maybeRef params.customPayload).refs.length ≤ 1 := by
    cases params.customPayload <;> simp [maybeRef]
  simp only [List.length_append, natToBits_length, byteBits_length, hlen]
  omega

theorem hasForwardPayload_stake {tier : Nat} {payload : Slice} (h : tier < 256)
    (hpayload : stakeForwardPayloadSlice tier = .ok payload) :
    hasForwardPayload StakeForward.opcode payload = .ok true
      ∧ StakingMaster.stakeForwardTier payload = .ok tier := by
  have hop : STAKE_FORWARD_OP < 2 ^ 32 := by decide
  have htier : tier < 2 ^ 8 := h
  rw [stakeForwardPayloadSlice_eq h] at hpayload
  cases hpayload
  have htake : (natToBits 32 STAKE_FORWARD_OP ++ natToBits 8 tier).take 32
      = natToBits 32 STAKE_FORWARD_OP := by
    rw [List.take_append_of_le_length (natToBits_length 32 _).ge,
      List.take_of_length_le (natToBits_length 32 _).le]
  have hdrop : ((natToBits 32 STAKE_FORWARD_OP ++ natToBits 8 tier).drop 32).take 8
      = natToBits 8 tier := by
    rw [List.drop_append_of_le_length (natToBits_length 32 _).ge,
      List.drop_of_length_le (natToBits_length 32 _).le, List.nil_append,
      List.take_of_length_le (natToBits_length 8 _).le]
  constructor
  · rw [hasForwardPayload_ref, Cell.bits, htake, bitsToNat_natToBits hop]
    simp [STAKE_FORWARD_OP, StakeForward.opcode]
  · rw [stakeForwardTier_ref, Cell.bits, hdrop, bitsToNat_natToBits htier]
    simp

theorem buildStakeMsg_eq {params : StakeParams} {payload : Slice}
    (h : stakeForwardPayloadSlice params.tier = .ok payload) :
    buildStakeMsg params = buildJettonTransferMsg
      { params.transfer payload with forwardPayload := some payload } := by
  rw [buildStakeMsg, h, ok_bind]
  rfl

/-- **Jetton messages.** For amounts below 2^120 and standard addresses: a transfer with
the empty payload, and a stake of every tier, is built and understood, the stake with
its tier; a transfer with a comment exactly when the comment's bytes and those of the
two amounts are at most 44. -/
theorem transfers_understood (params : TransferParams) (h : params.Valid) (comment : String)
    (stake : StakeParams) (hstake : stake.Valid) :
    Understood (buildJettonTransferMsg { params with forwardPayload := none })
        (params.fields noForwardPayload)
      ∧ (∃ payload, encodeCommentForwardPayload comment = .ok payload
        ∧ (Understood (buildJettonTransferMsg { params with forwardPayload := some payload })
            (params.fields payload)
          ↔ comment.utf8ByteSize + Slice.coinBytes params.amount
              + Slice.coinBytes (params.forwardAmount.getD (milliTon 10)) ≤ 44))
      ∧ ∃ payload, stakeForwardPayloadSlice stake.tier = .ok payload
        ∧ Understood (buildStakeMsg stake) ((stake.transfer payload).fields payload)
        ∧ hasForwardPayload StakeForward.opcode payload = .ok true
        ∧ StakingMaster.stakeForwardTier payload = .ok stake.tier := by
  have hempty : Understood (buildJettonTransferMsg { params with forwardPayload := none })
      (params.fields noForwardPayload) := by
    exact @understood_small params noForwardPayload h rfl rfl (Nat.zero_le 1)
  have hpayload := stakeForwardPayloadSlice_eq hstake.tier
  refine ⟨hempty, understood_comment comment h, _, hpayload, ?_,
    hasForwardPayload_stake hstake.tier hpayload⟩
  rw [buildStakeMsg_eq hpayload]
  exact understood_small (hstake.transfer _) rfl rfl (le_refl 1)

/-- 1 BURN, and 5 BURN staked in tier 2. -/
def coffee : TransferParams :=
  { jettonWallet := account 2, recipient := account 3, amount := 10 ^ 9
    responseAddress := some (account 2) }

def deposit : StakeParams :=
  { stakingMaster := account 4, userJettonWallet := account 2, amount := 5 * 10 ^ 9, tier := 2
    responseAddress := account 2 }

theorem coffee_valid : coffee.Valid := by
  refine ⟨by decide, fun n h => (by cases h), by decide, fun a h => ?_, fun n h => (by cases h)⟩
  cases h
  decide

theorem deposit_valid : deposit.Valid :=
  ⟨by decide, fun n h => (by cases h), by decide, by decide, by decide⟩

def thrown {α : Type} : Tx α → Option String
  | .ok _ => none
  | .error e => some e

/-- A comment of 37 bytes still fits. -/
theorem transfers_understood_note :
    Understood (buildStakeMsg deposit)
        ((deposit.transfer ⟨[true], [.mk (natToBits 32 STAKE_FORWARD_OP ++ natToBits 8 2) []]⟩).fields
          ⟨[true], [.mk (natToBits 32 STAKE_FORWARD_OP ++ natToBits 8 2) []]⟩)
      ∧ ∃ payload, encodeCommentForwardPayload "thanks for the coffee, see you at ten" = .ok payload
        ∧ Understood (buildJettonTransferMsg { coffee with forwardPayload := some payload })
          (coffee.fields payload) := by
  obtain ⟨-, ⟨payload, hcomment, hiff⟩, stakePayload, hp, hstake, -⟩ :=
    transfers_understood coffee coffee_valid "thanks for the coffee, see you at ten" deposit
      deposit_valid
  rw [stakeForwardPayloadSlice_eq deposit_valid.tier] at hp
  cases hp
  exact ⟨hstake, payload, hcomment, hiff.mpr (by decide +kernel)⟩

/-- One of 38 bytes does not: the message cannot be built. -/
theorem long_comment_overflows :
    coffee.Valid ∧ thrown (do
      let payload ← encodeCommentForwardPayload "thanks for the coffee, see you at nine"
      buildJettonTransferMsg { coffee with forwardPayload := some payload })
      = some "BitBuilder overflow" :=
  ⟨coffee_valid, by decide +kernel⟩

end TransactionBuilder

end BurnedChats

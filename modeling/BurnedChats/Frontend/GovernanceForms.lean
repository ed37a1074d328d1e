import BurnedChats.Frontend.ClientRequests
import BurnedChats.Governance.Requests
import BurnedChats.Lib.JsString

/-!
# Proposals from the editor

A proposal starts as a draft of strings, which is validated, turned into the values of a
form and encoded as the payload of the proposal (`PayloadEditor.tsx`,
`governance-validate.ts`, `governance-encode.ts`). The payload is then parsed by the
governor, by the proposal and by the timelock's target.

Every payload that the client encodes passes the governor's check, and what the proposal
asks for is what the form says (`forms_understood`). A draft that the editor accepts can be
encoded but for two kinds of field that the validator reads differently
(`valid_drafts_encoded`). What is typed need not be what is executed, however: arguments of
a preset leave out the opcode that the target dispatches on, and an emergency method is
read in decimal only (`presets_relayed`, `hex_emergency_lost`).
-/

namespace BurnedChats

namespace GovernanceForms

open Builder JsString
open TransactionBuilder (addressBits_length coinBits_length coinBytes_le)

/-! ## Forms and payloads -/

/-- What the client has of `@ton/core` here (readers of addresses, cells and amounts of TON),
and the lower case of the language. -/
structure TonCore where
  parseAddress : String → Tx Address
  fromBase64 : String → Tx Cell
  fromHex : String → Tx Cell
  toNano : String → Tx Int
  toLowerCase : String → String
  parse_standard : ∀ s a, parseAddress s = .ok a → a.Standard

/-- Numbers are integers here, amounts as well. -/
inductive ProposalFormValues where
  | parameterChange (target : String) (methodId : Int) (args : Option Cell)
  | featurePriority (description : String) (contentId : Option String)
  | treasurySpend (treasury recipient : String) (amount : Int) (reason : String)
  | emergency (target : String) (methodId : Int) (args : Cell) (reason : String)

/-- `ProposalType`. -/
def ProposalFormValues.type : ProposalFormValues → Nat
  | .parameterChange .. => 0
  | .featurePriority .. => 1
  | .treasurySpend .. => 2
  | .emergency .. => 3

def requireNonEmptyReason (reason : String) : Tx Unit :=
  require (jsTrim reason ≠ "") "Governance payload: reason must not be empty"

def requireNonEmptyDescription (text : String) : Tx Unit :=
  require (jsTrim text ≠ "") "Governance payload: feature description must not be empty"

def utf8Cell (text : String) : Tx Cell := do
  let b ← beginCell.storeBufferTail text.toUTF8.data.toList
  .ok b.endCell

def emptyCell : Cell := beginCell.endCell

/-- `x >>> 0`. -/
def toUint32 (x : Int) : Nat := (x % 2 ^ 32).toNat

/-- A negative amount cannot be written. -/
def storeCoinsInt (b : Builder) (x : Int) : Tx Builder :=
  if 0 ≤ x then b.storeCoins x.toNat else .error "value is negative"

/-- The optional reference of a feature priority. -/
def contentCell : Option String → Tx Cell
  | some contentId => if jsTrim contentId ≠ "" then utf8Cell (jsTrim contentId) else .ok emptyCell
  | none => .ok emptyCell

variable (T : TonCore)

def encodePayload : ProposalFormValues → Tx Cell
  | .parameterChange target methodId args => do
      let address ← T.parseAddress (jsTrim target)
      let b ← beginCell.storeAddress (some address)
      let b ← b.storeUint (toUint32 methodId) 32
      let b ← b.storeRef (args.getD emptyCell)
      .ok b.endCell
  | .featurePriority description contentId => do
      requireNonEmptyDescription description
      let descCell ← utf8Cell description
      let cidCell ← contentCell contentId
      let b ← beginCell.storeRef descCell
      let b ← b.storeRef cidCell
      .ok b.endCell
  | .treasurySpend treasury recipient amount reason => do
      requireNonEmptyReason reason
      let treasury ← T.parseAddress (jsTrim treasury)
      let b ← beginCell.storeAddress (some treasury)
      let recipient ← T.parseAddress (jsTrim recipient)
      let b ← b.storeAddress (some recipient)
      let b ← storeCoinsInt b amount
      let reason ← utf8Cell (jsTrim reason)
      let b ← b.storeRef reason
      .ok b.endCell
  | .emergency target methodId args reason => do
      requireNonEmptyReason reason
      let address ← T.parseAddress (jsTrim target)
      let b ← beginCell.storeAddress (some address)
      let b ← b.storeUint (toUint32 methodId) 32
      let b ← b.storeRef args
      let reason ← utf8Cell (jsTrim reason)
      let b ← b.storeRef reason
      .ok b.endCell

/-! ## What a form says -/

/-- A form's fields, once its addresses are read and its strings written. -/
inductive Content where
  | parameterChange (target : Address) (method : Nat) (args : Cell)
  | featurePriority (description contentId : Cell)
  | treasurySpend (treasury recipient : Address) (amount : Nat) (reason : Cell)
  | emergency (target : Address) (method : Nat) (args reason : Cell)

namespace Content

def slice : Content → Slice
  | .parameterChange target method args =>
      ⟨Slice.addressBits target ++ natToBits 32 method, [args]⟩
  | .featurePriority description contentId => ⟨[], [description, contentId]⟩
  | .treasurySpend treasury recipient amount reason =>
      ⟨Slice.addressBits treasury ++ (Slice.addressBits recipient ++ Slice.coinBits amount),
        [reason]⟩
  | .emergency target method args reason =>
      ⟨Slice.addressBits target ++ natToBits 32 method, [args, reason]⟩

/-- What a proposal with this content asks for when it has the id `id`. -/
def request (id : Nat) : Content → Tx QueueRequest
  | .parameterChange target method args => .ok ⟨target, method, args, true⟩
  | .featurePriority .. => .ok Proposal.noRequest
  | .treasurySpend treasury recipient amount reason => do
      let args ← TreasurySpend.toCell
        { queryId := 0, recipient, amount, reason, proposalId := id }
      .ok ⟨treasury, Proposal.TREASURY_SPEND_OPCODE, args, true⟩
  | .emergency target method args _ => .ok ⟨target, method, args, true⟩

def type : Content → Nat
  | .parameterChange .. => 0
  | .featurePriority .. => 1
  | .treasurySpend .. => 2
  | .emergency .. => 3

/-- Addresses are standard, numbers in range, texts not empty. -/
def WellFormed : Content → Prop
  | .parameterChange target method _ => target.Standard ∧ method < 2 ^ 32
  | .featurePriority description _ => 0 < description.bits.length
  | .treasurySpend treasury recipient amount reason =>
      treasury.Standard ∧ recipient.Standard ∧ amount < 2 ^ 120 ∧ 0 < reason.bits.length
  | .emergency target method _ reason =>
      target.Standard ∧ method < 2 ^ 32 ∧ 0 < reason.bits.length

/-- A spend is from this treasury. -/
def SpendsFrom (treasury : Address) : Content → Prop
  | .treasurySpend own _ _ _ => own = treasury
  | _ => True

variable {c : Content} {treasury : Address}

theorem slice_fits (h : c.WellFormed) : c.slice.Fits := by
  cases c with
  | treasurySpend own recipient amount reason =>
      have hcoins := coinBytes_le h.2.2.1
      simp only [slice, Slice.Fits, List.length_append, addressBits_length, coinBits_length,
        List.length_singleton, maxBits, maxRefs]
      omega
  | _ => simp [slice, Slice.Fits, addressBits_length, maxBits, maxRefs]

/-- The governor accepts what is well formed. -/
theorem validate_slice (h : c.WellFormed) (ht : c.SpendsFrom treasury) :
    validateProposalPayloadShape c.type c.slice.endCell treasury = .ok () := by
  cases c with
  | parameterChange target method args =>
      show validateParameterChangePayload _ = _
      simp only [validateParameterChangePayload, slice, Cell.beginParse, Slice.endCell, Cell.bits,
        Cell.refs, Slice.loadAddress_append, Slice.loadUint_self h.2, Slice.loadRef_cons, ok_bind]
      rfl
  | featurePriority description contentId =>
      simp only [validateProposalPayloadShape, type, Nat.one_le_ofNat, require_pos, ok_bind,
        one_ne_zero, if_false, if_true, validateFeaturePriorityPayload, slice, Cell.beginParse,
        Slice.endCell, Cell.bits, Cell.refs, Slice.loadRef_cons]
      exact require_pos h
  | treasurySpend own recipient amount reason =>
      obtain ⟨hown, hrecipient, hamount, hreason⟩ := h
      obtain rfl : own = treasury := ht
      show validateTreasurySpendPayload _ _ = _
      simp only [validateTreasurySpendPayload, slice, Cell.beginParse, Slice.endCell, Cell.bits,
        Cell.refs, Slice.loadAddress_append, Address.wrap_of_standard hown, ok_bind,
        Slice.loadCoins_self hamount, Slice.loadRef_cons]
      exact require_pos hreason
  | emergency target method args reason =>
      show validateEmergencyPayload _ = _
      simp only [validateEmergencyPayload, slice, Cell.beginParse, Slice.endCell, Cell.bits,
        Cell.refs, Slice.loadAddress_append, Slice.loadUint_self h.2.1, Slice.loadRef_cons, ok_bind]
      exact require_pos h.2.2

/-- The proposal asks for the content. -/
theorem queueRequest_slice (h : c.WellFormed) {p : Proposal} (hty : p.proposalType = c.type)
    (hp : p.payload = c.slice.endCell) : p.queueRequest = c.request p.id := by
  cases c with
  | parameterChange target method args =>
      have h0 : p.proposalType = 0 := hty
      simp only [Proposal.queueRequest, h0, if_true, hp, slice, Cell.beginParse, Slice.endCell,
        Cell.bits, Cell.refs, Slice.loadAddress_append, Address.wrap_of_standard h.1,
        Slice.loadUint_self h.2, Slice.loadRef_cons, ok_bind, request]
  | featurePriority description contentId =>
      have h1 : p.proposalType = 1 := hty
      simp [Proposal.queueRequest, h1, request]
  | treasurySpend own recipient amount reason =>
      obtain ⟨hown, hrecipient, hamount, -⟩ := h
      have h2 : p.proposalType = 2 := hty
      simp only [Proposal.queueRequest, h2, Nat.reduceEqDiff, if_false, if_true, hp, slice,
        Cell.beginParse, Slice.endCell, Cell.bits, Cell.refs, Slice.loadAddress_append,
        Address.wrap_of_standard hown, Address.wrap_of_standard hrecipient,
        Slice.loadCoins_self hamount, Slice.loadRef_cons, ok_bind, request]
  | emergency target method args reason =>
      have h3 : p.proposalType = 3 := hty
      simp only [Proposal.queueRequest, h3, Nat.reduceEqDiff, if_false, if_true, hp, slice,
        Cell.beginParse, Slice.endCell, Cell.bits, Cell.refs, Slice.loadAddress_append,
        Address.wrap_of_standard h.1, Slice.loadUint_self h.2.1, Slice.loadRef_cons, ok_bind,
        request]

end Content

/-! ## Encoding -/

/-- The content of a form. -/
def ProposalFormValues.Reads : ProposalFormValues → Content → Prop
  | .parameterChange target methodId args, c =>
      ∃ address, T.parseAddress (jsTrim target) = .ok address
        ∧ c = .parameterChange address (toUint32 methodId) (args.getD emptyCell)
  | .featurePriority description contentId, c =>
      ∃ descCell cidCell, jsTrim description ≠ "" ∧ utf8Cell description = .ok descCell
        ∧ contentCell contentId = .ok cidCell ∧ c = .featurePriority descCell cidCell
  | .treasurySpend treasury recipient amount reason, c =>
      ∃ own dest n reasonCell, T.parseAddress (jsTrim treasury) = .ok own
        ∧ T.parseAddress (jsTrim recipient) = .ok dest ∧ amount = (n : Nat) ∧ n < 2 ^ 120
        ∧ jsTrim reason ≠ "" ∧ utf8Cell (jsTrim reason) = .ok reasonCell
        ∧ c = .treasurySpend own dest n reasonCell
  | .emergency target methodId args reason, c =>
      ∃ address reasonCell, T.parseAddress (jsTrim target) = .ok address
        ∧ jsTrim reason ≠ "" ∧ utf8Cell (jsTrim reason) = .ok reasonCell
        ∧ c = .emergency address (toUint32 methodId) args reasonCell

variable {T} {form : ProposalFormValues} {content : Content} {payload : Cell}

theorem toUint32_lt (x : Int) : toUint32 x < 2 ^ 32 := by
  have hlt : x % 2 ^ 32 < 2 ^ 32 := Int.emod_lt_of_pos x (by decide)
  have hnonneg : 0 ≤ x % 2 ^ 32 := Int.emod_nonneg x (by decide)
  unfold toUint32
  omega

/-- Every text can be written, and one that is not empty leaves something in its cell. -/
theorem utf8Cell_ok (text : String) :
    ∃ c, utf8Cell text = .ok c ∧ (text ≠ "" → 0 < c.bits.length) := by
  obtain ⟨b, r, hb, hwritten, -, -⟩ :=
    storeBufferTail_ok beginCell text.toUTF8.data.toList (by decide)
  refine ⟨b.endCell, by rw [utf8Cell, hb]; rfl, fun htext => ?_⟩
  have hbits : b.endCell.bits
      = byteBits (text.toUTF8.data.toList.take beginCell.room) := by
    show b.written.bits = _
    rw [hwritten]
    rfl
  have hsize : 0 < text.toUTF8.data.toList.length := by
    rw [Array.length_toList]
    refine Nat.pos_of_ne_zero fun h0 => htext ?_
    exact String.utf8ByteSize_eq_zero_iff.mp h0
  have hroom : beginCell.room = 127 := rfl
  rw [hbits, byteBits_length, List.length_take, hroom]
  omega

theorem contentCell_ok (contentId : Option String) : ∃ c, contentCell contentId = .ok c := by
  cases contentId with
  | none => exact ⟨_, rfl⟩
  | some contentId =>
      obtain ⟨c, hc, -⟩ := utf8Cell_ok (jsTrim contentId)
      unfold contentCell
      by_cases htrim : jsTrim contentId ≠ ""
      · exact ⟨c, (if_pos htrim).trans hc⟩
      · exact ⟨emptyCell, if_neg htrim⟩

theorem Content.wellFormed_of_reads (h : form.Reads T content) : content.WellFormed := by
  have hstd := T.parse_standard
  have htext : ∀ {text : String} {c : Cell}, text ≠ "" → utf8Cell text = .ok c →
      0 < c.bits.length := by
    intro text c hne hc
    obtain ⟨c', hc', hpos⟩ := utf8Cell_ok text
    obtain rfl := Except.ok.inj (hc'.symm.trans hc)
    exact hpos hne
  cases form with
  | parameterChange target methodId args =>
      obtain ⟨address, haddress, rfl⟩ := h
      exact ⟨hstd _ _ haddress, toUint32_lt methodId⟩
  | featurePriority description contentId =>
      obtain ⟨descCell, cidCell, hne, hdesc, -, rfl⟩ := h
      exact htext (ne_empty_of_jsTrim hne) hdesc
  | treasurySpend treasury recipient amount reason =>
      obtain ⟨own, dest, n, reasonCell, hown, hdest, -, hn, hne, hreason, rfl⟩ := h
      exact ⟨hstd _ _ hown, hstd _ _ hdest, hn, htext hne hreason⟩
  | emergency target methodId args reason =>
      obtain ⟨address, reasonCell, haddress, hne, hreason, rfl⟩ := h
      exact ⟨hstd _ _ haddress, toUint32_lt methodId, htext hne hreason⟩

theorem type_of_reads (h : form.Reads T content) : content.type = form.type := by
  cases form with
  | parameterChange => obtain ⟨_, -, rfl⟩ := h; rfl
  | featurePriority => obtain ⟨_, _, -, -, -, rfl⟩ := h; rfl
  | treasurySpend => obtain ⟨_, _, _, _, -, -, -, -, -, -, rfl⟩ := h; rfl
  | emergency => obtain ⟨_, _, -, -, -, rfl⟩ := h; rfl

theorem storeCoinsInt_ok {b b' : Builder} {x : Int} (h : storeCoinsInt b x = .ok b') :
    ∃ n : Nat, x = n ∧ n < 2 ^ 120 := by
  unfold storeCoinsInt at h
  split at h
  · rename_i hx
    exact ⟨x.toNat, (Int.toNat_of_nonneg hx).symm, storeCoins_lt h⟩
  · cases h

/-- From a fresh builder to a cell. -/
theorem written_ok {s t : Slice} (hst : s = t) (ht : t.Fits) :
    (beginCell.write s >>= fun b => (.ok b.endCell : Tx Cell)) = .ok t.endCell := by
  subst hst
  rw [beginCell_write_bind]
  exact ⟨ht, rfl⟩

/-- The client encodes exactly the forms that have a content, as that content. -/
theorem encodePayload_of_reads (h : form.Reads T content) :
    encodePayload T form = .ok content.slice.endCell := by
  have hfits := Content.slice_fits (Content.wellFormed_of_reads h)
  cases form with
  | parameterChange target methodId args =>
      obtain ⟨address, haddress, rfl⟩ := h
      simp only [encodePayload, haddress, ok_bind, storeAddress, storeBits, maybeAddressBits,
        storeUint_eq (toUint32_lt methodId), storeRef, write_bind_write]
      exact written_ok (by simp [Slice.storeSlice, Content.slice]) hfits
  | featurePriority description contentId =>
      obtain ⟨descCell, cidCell, hne, hdesc, hcid, rfl⟩ := h
      simp only [encodePayload, requireNonEmptyDescription, require_pos hne, hdesc, hcid, ok_bind,
        storeRef, write_bind_write]
      exact written_ok rfl hfits
  | treasurySpend treasury recipient amount reason =>
      obtain ⟨own, dest, n, reasonCell, hown, hdest, rfl, hn, hne, hreason, rfl⟩ := h
      have hcoins : ∀ b, storeCoinsInt b (n : Int) = b.write ⟨Slice.coinBits n, []⟩ := by
        intro b
        rw [storeCoinsInt, if_pos (Int.natCast_nonneg n), Int.toNat_natCast, storeCoins_eq hn]
      simp only [encodePayload, requireNonEmptyReason, require_pos hne, hown, hdest, hreason,
        ok_bind, storeAddress, storeBits, maybeAddressBits, hcoins, storeRef, write_bind_write]
      exact written_ok (by simp [Slice.storeSlice, Content.slice]) hfits
  | emergency target methodId args reason =>
      obtain ⟨address, reasonCell, haddress, hne, hreason, rfl⟩ := h
      simp only [encodePayload, requireNonEmptyReason, require_pos hne, haddress, hreason, ok_bind,
        storeAddress, storeBits, maybeAddressBits, storeUint_eq (toUint32_lt methodId), storeRef,
        write_bind_write]
      exact written_ok (by simp [Slice.storeSlice, Content.slice]) hfits

/-- Nothing else is encoded. -/
theorem reads_of_encodePayload (h : encodePayload T form = .ok payload) :
    ∃ content, form.Reads T content := by
  cases form with
  | parameterChange target methodId args =>
      simp only [encodePayload, bind_eq_ok] at h
      obtain ⟨address, haddress, -⟩ := h
      exact ⟨_, address, haddress, rfl⟩
  | featurePriority description contentId =>
      simp only [encodePayload, requireNonEmptyDescription, bind_eq_ok, require_eq_ok,
        exists_const] at h
      obtain ⟨hne, descCell, hdesc, cidCell, hcid, -⟩ := h
      exact ⟨_, descCell, cidCell, hne, hdesc, hcid, rfl⟩
  | treasurySpend treasury recipient amount reason =>
      simp only [encodePayload, requireNonEmptyReason, bind_eq_ok, require_eq_ok,
        exists_const] at h
      obtain ⟨hne, own, hown, _, -, dest, hdest, _, -, _, hamount, reasonCell, hreason, -⟩ := h
      obtain ⟨n, rfl, hn⟩ := storeCoinsInt_ok hamount
      exact ⟨_, own, dest, n, reasonCell, hown, hdest, rfl, hn, hne, hreason, rfl⟩
  | emergency target methodId args reason =>
      simp only [encodePayload, requireNonEmptyReason, bind_eq_ok, require_eq_ok,
        exists_const] at h
      obtain ⟨hne, address, haddress, _, -, _, -, _, -, reasonCell, hreason, -⟩ := h
      exact ⟨_, address, reasonCell, haddress, hne, hreason, rfl⟩

/-! ## A client to compute with -/

def fiveRaw : String := "0:0000000000000000000000000000000000000000000000000000000000000005"
def sixRaw : String := "0:0000000000000000000000000000000000000000000000000000000000000006"

/-- Two raw addresses, no cell and one amount are known. -/
def sampleCore : TonCore where
  parseAddress s :=
    if s = fiveRaw then .ok (account 5) else if s = sixRaw then .ok (account 6)
    else .error "Unknown address type"
  fromBase64 _ := .error "Invalid BOC"
  fromHex _ := .error "Invalid BOC"
  toNano s := if s = "1" then .ok 1000000000 else .error "Invalid number"
  toLowerCase s := s
  parse_standard s a h := by
    split at h
    · obtain rfl := Except.ok.inj h
      decide
    · split at h
      · obtain rfl := Except.ok.inj h
        decide
      · cases h

/-- **Forms are understood.** Whatever the client encodes passes the governor's check (a spend
has to be from its treasury), and a proposal with that payload asks for what the form
says. -/
theorem forms_understood (treasury : Address) (h : encodePayload T form = .ok payload) :
    ∃ content, form.Reads T content ∧ payload = content.slice.endCell
      ∧ (content.SpendsFrom treasury →
        validateProposalPayloadShape form.type payload treasury = .ok ())
      ∧ ∀ p : Proposal, p.proposalType = form.type → p.payload = payload →
        p.queueRequest = content.request p.id := by
  obtain ⟨content, hreads⟩ := reads_of_encodePayload h
  obtain rfl := Except.ok.inj ((encodePayload_of_reads hreads).symm.trans h)
  have hwf := Content.wellFormed_of_reads hreads
  rw [← type_of_reads hreads]
  exact ⟨content, hreads, rfl, Content.validate_slice hwf, fun p => Content.queueRequest_slice hwf⟩

/-- A spend of 300 nano for account 6. -/
theorem forms_understood_spend : ∃ payload,
    encodePayload sampleCore (.treasurySpend (" " ++ fiveRaw) sixRaw 300 "audit") = .ok payload
      ∧ validateProposalPayloadShape 2 payload (account 5) = .ok () := by
  have hfive : sampleCore.parseAddress (jsTrim (" " ++ fiveRaw)) = .ok (account 5) := by
    decide +kernel
  have hsix : sampleCore.parseAddress (jsTrim sixRaw) = .ok (account 6) := by decide +kernel
  obtain ⟨reason, hreason, -⟩ := utf8Cell_ok (jsTrim "audit")
  have hreads : ProposalFormValues.Reads sampleCore
      (.treasurySpend (" " ++ fiveRaw) sixRaw 300 "audit")
      (.treasurySpend (account 5) (account 6) 300 reason) :=
    ⟨_, _, _, _, hfive, hsix, rfl, by decide, by decide +kernel, hreason, rfl⟩
  have hencode := encodePayload_of_reads hreads
  obtain ⟨content, hreads', -, hvalid, -⟩ := forms_understood (account 5) hencode
  obtain ⟨own, _, _, _, hown, -, -, -, -, -, rfl⟩ := hreads'
  exact ⟨_, hencode, hvalid (Except.ok.inj (hown.symm.trans hfive))⟩

/-! ## Drafts -/

inductive GovernanceProposalDraft where
  | parameterChange (target methodIdStr argsB64 : String)
  | featurePriority (title description cid : String)
  | treasurySpend (treasury recipient amount reason : String)
  | emergency (target methodIdStr argsB64 reason : String)

def parseMethodId (raw : String) : Option Int :=
  if hexPrefix (jsTrim raw).toList then parseInt (jsTrim raw) 16 else parseInt (jsTrim raw) 10

/-- The first comma stands for the decimal point. -/
def replaceComma : List Char → List Char
  | [] => []
  | c :: l => if c = ',' then '.' :: l else c :: replaceComma l

def BURN_DECIMALS : Nat := 9

def invalidNumber (input : String) : String :=
  "parseBurn: invalid number \"" ++ input ++ "\""

/-- Digits with at most one point among them; what follows the ninth decimal is dropped. -/
def parseBurn (input : String) : Tx Int := do
  let core := replaceComma (jsTrim input).toList
  require (core ≠ []) "parseBurn: empty input"
  let neg := core.head? = some '-'
  let unsigned := if neg then core.tail else core
  require (unsigned.count '.' ≤ 1) (invalidNumber input)
  require (unsigned.all (fun c => c.isDigit || c = '.') = true ∧ unsigned ≠ [] ∧ unsigned ≠ ['.'])
    (invalidNumber input)
  let whole := unsigned.takeWhile (· ≠ '.')
  let fracRaw := (unsigned.dropWhile (· ≠ '.')).tail
  let frac := (fracRaw ++ List.replicate BURN_DECIMALS '0').take BURN_DECIMALS
  let nano := Nat.ofDigitChars 10 whole 0 * 10 ^ BURN_DECIMALS + Nat.ofDigitChars 10 frac 0
  .ok (if neg then -nano else nano)

variable (T) in
def parseArgsCell (b64OrHex : String) : Tx Cell :=
  if jsTrim b64OrHex = "" then .ok emptyCell
  else
    match T.fromBase64 (jsTrim b64OrHex) with
    | .ok c => .ok c
    | .error _ => T.fromHex (jsTrim b64OrHex)

variable (T) in
/-- `VITE_TREASURY_ADDRESS`, when it is set to an address. -/
def getCanonicalTreasuryAddress (env : String) : Option String :=
  if jsTrim env = "" then none
  else
    match T.parseAddress (jsTrim env) with
    | .ok _ => some (jsTrim env)
    | .error _ => none

variable (T) in
def addressesLikelyEqual (a b : String) : Bool :=
  if jsTrim a = "" ∨ jsTrim b = "" then false
  else
    match T.parseAddress (jsTrim a), T.parseAddress (jsTrim b) with
    | .ok x, .ok y => decide (x = y)
    | _, _ => decide (T.toLowerCase (jsTrim a) = T.toLowerCase (jsTrim b))

variable (T) in
def isCanonicalTreasuryAddress (env candidate : String) : Bool :=
  match getCanonicalTreasuryAddress T env with
  | none => false
  | some canonical => addressesLikelyEqual T candidate canonical

/-- What the form takes of a method: not-a-number and negative numbers are refused. -/
def methodOf (mid : Option Int) : Tx Int :=
  match mid with
  | none => .error "method"
  | some mid => if mid < 0 then .error "method" else .ok (toUint32 mid)

variable (T) in
def draftToFormValues (env : String) : GovernanceProposalDraft → Tx ProposalFormValues
  | .parameterChange target methodIdStr argsB64 => do
      let mid ← methodOf (parseMethodId methodIdStr)
      let args ← parseArgsCell T argsB64
      .ok (.parameterChange (jsTrim target) mid (some args))
  | .featurePriority title description cid =>
      let title := jsTrim title
      let body := jsTrim description
      let composed := if title ≠ "" then jsTrim (title ++ "\n\n" ++ body) else body
      .ok (.featurePriority composed (if jsTrim cid ≠ "" then some (jsTrim cid) else none))
  | .treasurySpend _ recipient amount reason =>
      match getCanonicalTreasuryAddress T env with
      | none => .error "treasury"
      | some canonical => do
          let nano ← parseBurn amount
          .ok (.treasurySpend canonical (jsTrim recipient) nano (jsTrim reason))
  | .emergency target methodIdStr argsB64 reason => do
      let mid ← methodOf (parseInt (jsTrim methodIdStr) 10)
      let args ← parseArgsCell T argsB64
      .ok (.emergency (jsTrim target) mid args (jsTrim reason))

variable (T) in
/-- What submitting a draft puts on chain. -/
def submit (env : String) (draft : GovernanceProposalDraft) : Tx Cell := do
  let spec ← draftToFormValues T env draft
  encodePayload T spec

/-! ## Validation -/

structure DraftFieldError where
  field : String
  code : String
  deriving DecidableEq

variable (T) in
def validateAddressField (value field : String) : List DraftFieldError :=
  if jsTrim value = "" then [⟨field, "invalidAddress"⟩]
  else
    match T.parseAddress (jsTrim value) with
    | .ok _ => []
    | .error _ => [⟨field, "invalidAddress"⟩]

def validateMethodIdStr (methodIdStr : String) : List DraftFieldError :=
  match parseInt (jsTrim methodIdStr) 10 with
  | none => [⟨"methodIdStr", "invalidMethodId"⟩]
  | some mid => if mid < 0 then [⟨"methodIdStr", "invalidMethodId"⟩] else []

variable (T) in
def validateArgsB64 (argsB64 : String) : List DraftFieldError :=
  if jsTrim argsB64 = "" then []
  else
    match T.fromBase64 (jsTrim argsB64), T.fromHex (jsTrim argsB64) with
    | .ok _, _ => []
    | .error _, .ok _ => []
    | .error _, .error _ => [⟨"argsB64", "invalidArgs"⟩]

variable (T) in
def validateParameterChangeFields (target methodIdStr argsB64 : String) : List DraftFieldError :=
  validateAddressField T target "target" ++ validateMethodIdStr methodIdStr
    ++ validateArgsB64 T argsB64

def validateTreasuryAmount (amount : String) : List DraftFieldError :=
  match parseBurn amount with
  | .error _ => [⟨"amount", "invalidAmount"⟩]
  | .ok nano => if nano ≤ 0 then [⟨"amount", "invalidAmount"⟩] else []

def requireText (value field : String) : List DraftFieldError :=
  if jsTrim value = "" then [⟨field, "required"⟩] else []

variable (T) in
def validateTreasury (env treasury : String) : List DraftFieldError :=
  match getCanonicalTreasuryAddress T env with
  | none => [⟨"treasury", "treasuryNotConfigured"⟩]
  | some _ =>
      (if isCanonicalTreasuryAddress T env treasury then []
        else [⟨"treasury", "treasuryMismatch"⟩])
        ++ validateAddressField T treasury "treasury"

variable (T) in
/-- The errors of a draft; it is accepted when there are none. -/
def validateGovernanceDraft (env : String) : GovernanceProposalDraft → List DraftFieldError
  | .parameterChange target methodIdStr argsB64 =>
      validateParameterChangeFields T target methodIdStr argsB64
  | .featurePriority _ description cid =>
      requireText description "description"
        ++ if cid ≠ "" ∧ jsTrim cid = "" then [⟨"cid", "required"⟩] else []
  | .treasurySpend treasury recipient amount reason =>
      validateTreasury T env treasury ++ validateAddressField T recipient "recipient"
        ++ validateTreasuryAmount amount ++ requireText reason "reason"
  | .emergency target methodIdStr argsB64 reason =>
      validateParameterChangeFields T target methodIdStr argsB64 ++ requireText reason "reason"

/-- The two fields that the validator does not look at closely enough: a hexadecimal method
without a digit, and an amount too large for a cell. -/
def GovernanceProposalDraft.Encodable : GovernanceProposalDraft → Prop
  | .parameterChange _ methodIdStr _ => parseMethodId methodIdStr ≠ none
  | .treasurySpend _ _ amount _ => ∀ n, parseBurn amount = .ok n → n < 2 ^ 120
  | _ => True

section Validated

variable {env value field : String}

theorem parses_of_valid (h : validateAddressField T value field = []) :
    ∃ a, T.parseAddress (jsTrim value) = .ok a := by
  unfold validateAddressField at h
  split at h
  · cases h
  · split at h
    · rename_i a ha
      exact ⟨a, ha⟩
    · cases h

theorem args_of_valid (h : validateArgsB64 T value = []) : ∃ c, parseArgsCell T value = .ok c := by
  unfold validateArgsB64 at h
  unfold parseArgsCell
  by_cases htrim : jsTrim value = ""
  · exact ⟨_, if_pos htrim⟩
  · rw [if_neg htrim] at h ⊢
    cases h64 : T.fromBase64 (jsTrim value) with
    | ok c => exact ⟨c, rfl⟩
    | error e =>
        cases hhex : T.fromHex (jsTrim value) with
        | ok c => exact ⟨c, rfl⟩
        | error e' =>
            rw [h64, hhex] at h
            cases h

theorem method_of_valid (h : validateMethodIdStr value = []) :
    ∃ mid, parseInt (jsTrim value) 10 = some mid ∧ 0 ≤ mid := by
  unfold validateMethodIdStr at h
  split at h
  · cases h
  · rename_i mid hmid
    split at h
    · cases h
    · exact ⟨mid, hmid, by omega⟩

theorem text_of_valid (h : requireText value field = []) : jsTrim value ≠ "" := by
  unfold requireText at h
  split at h
  · cases h
  · assumption

theorem amount_of_valid (h : validateTreasuryAmount value = []) :
    ∃ n, parseBurn value = .ok n ∧ 0 < n := by
  unfold validateTreasuryAmount at h
  split at h
  · cases h
  · rename_i n hn
    split at h
    · cases h
    · exact ⟨n, hn, by omega⟩

theorem canonical_eq {canonical : String} (h : getCanonicalTreasuryAddress T env = some canonical) :
    canonical = jsTrim env ∧ ∃ a, T.parseAddress (jsTrim env) = .ok a := by
  unfold getCanonicalTreasuryAddress at h
  split at h
  · cases h
  · split at h
    · rename_i a ha
      exact ⟨(Option.some.inj h).symm, a, ha⟩
    · cases h

theorem treasury_of_valid (h : validateTreasury T env value = []) :
    ∃ a, getCanonicalTreasuryAddress T env = some (jsTrim env)
      ∧ T.parseAddress (jsTrim env) = .ok a := by
  unfold validateTreasury at h
  split at h
  · cases h
  · rename_i canonical hcanonical
    obtain ⟨rfl, a, ha⟩ := canonical_eq hcanonical
    exact ⟨a, hcanonical, ha⟩

theorem methodOf_nonneg {mid : Int} (h : 0 ≤ mid) : methodOf (some mid) = .ok (toUint32 mid) :=
  if_neg (by omega)

/-- A method that the validator accepts is read, unless it is a bare `0x`. -/
theorem methodOf_parseMethodId (h : validateMethodIdStr value = []) :
    (∃ mid, methodOf (parseMethodId value) = .ok mid) ↔ parseMethodId value ≠ none := by
  constructor
  · rintro ⟨mid, hmid⟩ hnone
    rw [hnone] at hmid
    cases hmid
  · intro hsome
    obtain ⟨mid, hmid⟩ := Option.ne_none_iff_exists'.mp hsome
    have hnonneg : 0 ≤ mid := by
      unfold parseMethodId at hmid
      split at hmid
      · rename_i hhex
        exact parseInt_hex_nonneg hhex hmid
      · obtain ⟨mid', hmid', hle⟩ := method_of_valid h
        rw [hmid, Option.some.injEq] at hmid'
        rw [hmid']
        exact hle
    exact ⟨_, by rw [hmid, methodOf_nonneg hnonneg]⟩

end Validated

/-- What is encoded is what has a content. -/
theorem encodes_iff : (∃ payload, encodePayload T form = .ok payload)
    ↔ ∃ content, form.Reads T content :=
  ⟨fun ⟨_, h⟩ => reads_of_encodePayload h, fun ⟨_, h⟩ => ⟨_, encodePayload_of_reads h⟩⟩

theorem submit_iff {env : String} {draft : GovernanceProposalDraft} :
    (∃ payload, submit T env draft = .ok payload)
      ↔ ∃ form, draftToFormValues T env draft = .ok form ∧ ∃ content, form.Reads T content := by
  simp only [submit, bind_eq_ok, ← encodes_iff]
  constructor
  · rintro ⟨payload, form, hform, h⟩
    exact ⟨form, hform, payload, h⟩
  · rintro ⟨form, hform, payload, h⟩
    exact ⟨payload, form, hform, h⟩

/-- An emergency for the vesting contract, with its method in hexadecimal. -/
def hexDraft : GovernanceProposalDraft := .emergency fiveRaw "0x5a060002" "" "leaked key"

/-- An ordinary entry is relayed once, with its arguments as the body and a fixed budget. -/
theorem relayed {s s' : Timelock} {ctx : Ctx} {queryId id : Nat} {a : PendingAction}
    {out : List Msg} (ha : s.pendingActions.lookup id = some a)
    (hordinary : highValue a.method = false)
    (h : s.receive ctx (.timelockExecutePending queryId id) = .ok (s', out)) :
    s'.pendingActions.lookup id = none ∧ ∀ m ∈ out, ∀ c, m.body = .raw c →
      c = a.args ∧ m.dst = a.target ∧ m.value = TIMELOCK_TARGET_GAS := by
  cases Timelock.receive_acted h with
  | dispatch hlookup _ _ hv =>
      rw [ha] at hlookup
      obtain rfl := Option.some.inj hlookup
      rw [hordinary] at hv
      cases hv
  | relay hlookup =>
      rw [ha] at hlookup
      obtain rfl := Option.some.inj hlookup
      refine ⟨AList.lookup_erase _ _, fun m hm c hc => ?_⟩
      simp only [List.mem_cons, List.not_mem_nil, or_false] at hm
      rcases hm with rfl | rfl | rfl
      · cases hc
      · cases hc
        exact ⟨rfl, rfl, rfl⟩
      · cases hc

/-- The high-value targets refuse whatever comes with the ordinary budget. -/
theorem ordinary_refused {W : WalletBook} {g : Gas} {now : Nat} {m : Msg} {c : Cell}
    (hvalue : m.value = TIMELOCK_TARGET_GAS) (hraw : m.body = .raw c) (v : Vesting) :
    ∃ e, v.receive W (Ctx.of g now m) m.body = .error e := by
  cases hr : v.receive W (Ctx.of g now m) m.body with
  | error e => exact ⟨e, rfl⟩
  | ok r =>
      have hle : Vesting.ReleaseTon ≤ m.value := ((Vesting.receive_eq_ok hr).2 ⟨c, hraw⟩).2
      rw [hvalue] at hle
      exact absurd hle (by decide)

/-- What a proposal asks for when its form is a parameter change or an emergency. -/
theorem request_of_action {p : Proposal} {q : QueueRequest}
    (h : encodePayload T form = .ok payload) (hty : p.proposalType = form.type)
    (hp : p.payload = payload) (hq : p.queueRequest = .ok q) :
    (∀ target methodId args, form = .parameterChange target methodId args →
      q.method = toUint32 methodId ∧ q.args = args.getD emptyCell)
    ∧ ∀ target methodId args reason, form = .emergency target methodId args reason →
      q.method = toUint32 methodId ∧ q.args = args := by
  obtain ⟨content, hreads, -, -, hrequest⟩ := forms_understood zeroAddr h
  rw [hrequest p hty hp] at hq
  constructor
  · rintro target methodId args rfl
    obtain ⟨address, -, rfl⟩ := hreads
    obtain rfl := Except.ok.inj hq
    exact ⟨rfl, rfl⟩
  · rintro target methodId args reason rfl
    obtain ⟨address, reasonCell, -, -, -, rfl⟩ := hreads
    obtain rfl := Except.ok.inj hq
    exact ⟨rfl, rfl⟩

/-- The entry that the timelock keeps for a request. -/
def EntryOf (q : QueueRequest) (a : PendingAction) : Prop :=
  a.target = q.target ∧ a.method = q.method ∧ a.args = q.args

/-- A proposal with this payload. -/
def proposalWith (proposalType : Nat) (payload : Cell) : Proposal :=
  Proposal.init
    { id := 4, governor := account 2, voteRelayer := account 3, proposer := account 9, proposalType
      payload, startTime := 0, endTime := 10, totalVpSnapshot := 100, quorumRequired := 10
      thresholdBps := 5000, timelockDelaySec := 86400, timelockAddr := account 4 }

/-- A timelock in which the request is due. -/
def dueAction (q : QueueRequest) : PendingAction :=
  { proposalId := 4, proposalContract := account 8, target := q.target, method := q.method
    args := q.args, scheduledTime := 0, executed := false }

def dueTimelock (q : QueueRequest) : Timelock :=
  { Timelock.prepareInit (account 2) with
    pendingActions := AList.insert 4 (dueAction q) ∅ }

def executing : Ctx :=
  Ctx.of (freeGas 0) 0 (external (account 9) (account 4) (milliTon 250)
    (.timelockExecutePending 0 4))

theorem due_executed {q : QueueRequest} (h : highValue q.method = false) :
    (dueTimelock q).receive executing (.timelockExecutePending 0 4)
      = .ok (Timelock.executeOrdinary executing (dueTimelock q) 0 4 (dueAction q)) := by
  have hlookup : (dueTimelock q).pendingActions.lookup 4 = some (dueAction q) :=
    AList.lookup_insert _
  have hdue : (dueAction q).scheduledTime ≤ executing.now := Nat.le_refl 0
  have hordinary : ¬ highValue (dueAction q).method = true := by
    rw [show (dueAction q).method = q.method from rfl, h]
    exact Bool.false_ne_true
  simp only [Timelock.receive, Timelock.receiveExecutePending, hlookup]
  rw [require_pos hdue, ok_bind, require_pos (show (dueAction q).executed = false from rfl),
    ok_bind, if_neg hordinary]

def SET_FEE_PARAMS_OP : Nat := 0x1a72d4e2
def SET_GAS_PARAMS_OP : Nat := 0x5a1c8f07

def buildSetFeeParamsArgsCell (burnBps stakingBps treasuryBps : Int) : Tx Cell := do
  let b ← beginCell.storeUint 0 64
  let b ← b.storeInt burnBps 257
  let b ← b.storeInt stakingBps 257
  let b ← b.storeInt treasuryBps 257
  .ok b.endCell

/-- `toNano(value || '0')`, stored as coins. -/
def storeNano (T : TonCore) (b : Builder) (value : String) : Tx Builder := do
  let nano ← T.toNano (if value = "" then "0" else value)
  storeCoinsInt b nano

structure GasParamsForm where
  minTonFeePath : String
  perInternalDeployTon : String
  poolForwardMin : String
  treasuryForwardMin : String
  burnNotifyTon : String
  propagateTon : String

def buildSetGasParamsArgsCell (T : TonCore) (params : GasParamsForm) : Tx Cell := do
  let b ← beginCell.storeUint 0 64
  let b ← storeNano T b params.minTonFeePath
  let b ← storeNano T b params.perInternalDeployTon
  let b ← storeNano T b params.poolForwardMin
  let b ← storeNano T b params.treasuryForwardMin
  let b ← storeNano T b params.burnNotifyTon
  let b ← storeNano T b params.propagateTon
  .ok b.endCell

/-- The buttons of the editor that fill in method and arguments. -/
inductive Preset where
  | feeParams (burnBps stakingBps treasuryBps : Int)
  | gasParams (params : GasParamsForm)

def Preset.op : Preset → Nat
  | .feeParams .. => SET_FEE_PARAMS_OP
  | .gasParams _ => SET_GAS_PARAMS_OP

variable (T) in
def Preset.args : Preset → Tx Cell
  | .feeParams burnBps stakingBps treasuryBps =>
      buildSetFeeParamsArgsCell burnBps stakingBps treasuryBps
  | .gasParams params => buildSetGasParamsArgsCell T params

/-- What is written stays in front. -/
def StartsWith (l : List Bool) (b : Builder) : Prop := l <+: b.written.bits

theorem StartsWith.write {l : List Bool} {b b' : Builder} {s : Slice} (h : StartsWith l b)
    (hw : b.write s = .ok b') : StartsWith l b' := by
  rw [StartsWith, write_eq_ok.mp hw]
  exact h.trans (List.prefix_append _ _)

theorem StartsWith.storeInt {l : List Bool} {b b' : Builder} {x : Int} {w : Nat}
    (h : StartsWith l b) (hw : b.storeInt x w = .ok b') : StartsWith l b' := by
  rw [storeInt_eq (storeInt_bounds hw)] at hw
  exact h.write hw

theorem StartsWith.storeNano {l : List Bool} {b b' : Builder} {value : String}
    (h : StartsWith l b) (hw : storeNano T b value = .ok b') : StartsWith l b' := by
  simp only [GovernanceForms.storeNano, bind_eq_ok] at hw
  obtain ⟨nano, -, hw⟩ := hw
  unfold storeCoinsInt at hw
  split at hw
  · rw [storeCoins_eq (storeCoins_lt hw)] at hw
    exact h.write hw
  · cases hw

theorem opcodeOf_startsWith {b : Builder} (h : StartsWith (natToBits 64 0) b) :
    opcodeOf b.endCell = some 0 := by
  obtain ⟨rest, hrest⟩ := h
  have h64 : natToBits 64 0 = natToBits 32 0 ++ natToBits 32 0 := by decide
  have hbits : b.endCell.beginParse
      = ⟨natToBits 32 0 ++ (natToBits 32 0 ++ rest), b.written.refs⟩ := by
    rw [← List.append_assoc, ← h64, hrest]
    rfl
  have hload : b.endCell.beginParse.loadUint 32
      = .ok (0, ⟨natToBits 32 0 ++ rest, b.written.refs⟩) := by
    rw [hbits]
    exact Slice.loadUint_append (by decide) _ _
  simp only [opcodeOf, Slice.preloadUint, hload]
  rfl

theorem Preset.opcodeOf_args {preset : Preset} {args : Cell} (h : preset.args T = .ok args) :
    opcodeOf args = some 0 := by
  have hstart : ∀ {b : Builder}, beginCell.storeUint 0 64 = .ok b →
      StartsWith (natToBits 64 0) b := by
    intro b hb
    rw [storeUint_eq (by decide)] at hb
    rw [StartsWith, write_eq_ok.mp hb]
    exact List.prefix_refl _
  cases preset with
  | feeParams burnBps stakingBps treasuryBps =>
      simp only [Preset.args, buildSetFeeParamsArgsCell, bind_eq_ok, Except.ok.injEq] at h
      obtain ⟨_, h0, _, h1, _, h2, _, h3, rfl⟩ := h
      exact opcodeOf_startsWith ((((hstart h0).storeInt h1).storeInt h2).storeInt h3)
  | gasParams params =>
      simp only [Preset.args, buildSetGasParamsArgsCell, bind_eq_ok, Except.ok.injEq] at h
      obtain ⟨_, h0, _, h1, _, h2, _, h3, _, h4, _, h5, _, h6, rfl⟩ := h
      exact opcodeOf_startsWith ((((((hstart h0).storeNano h1).storeNano h2).storeNano h3).storeNano
        h4).storeNano h5 |>.storeNano h6)

theorem toUint32_op (preset : Preset) : toUint32 preset.op = preset.op := by
  cases preset <;> rfl

theorem ordinary_op (preset : Preset) : highValue preset.op = false := by
  cases preset <;> rfl

/-- **Presets are relayed without their opcode.** A parameter change that is filled in by a
preset names the method that the target is to run, but the arguments leave it out, and
the arguments are all that the target gets: its opcode is 0. -/
theorem presets_relayed {preset : Preset} {target : String} {args : Cell}
    (hargs : preset.args T = .ok args)
    (h : encodePayload T (.parameterChange target preset.op (some args)) = .ok payload)
    {p : Proposal} (hty : p.proposalType = 0) (hp : p.payload = payload) {q : QueueRequest}
    (hq : p.queueRequest = .ok q) {a : PendingAction} (ha : EntryOf q a) {s s' : Timelock}
    {ctx : Ctx} {queryId id : Nat} {out : List Msg}
    (hlookup : s.pendingActions.lookup id = some a)
    (hx : s.receive ctx (.timelockExecutePending queryId id) = .ok (s', out)) :
    q.method = preset.op ∧ s'.pendingActions.lookup id = none
      ∧ ∀ m ∈ out, ∀ c, m.body = .raw c → opcodeOf c = some 0 := by
  obtain ⟨hmethod, hsame⟩ := (request_of_action h hty hp hq).1 _ _ _ rfl
  rw [toUint32_op] at hmethod
  have hordinary : highValue a.method = false := by
    rw [ha.2.1, hmethod]
    exact ordinary_op preset
  obtain ⟨hnone, hsent⟩ := relayed hlookup hordinary hx
  refine ⟨hmethod, hnone, fun m hm c hc => ?_⟩
  obtain ⟨rfl, -, -⟩ := hsent m hm c hc
  rw [ha.2.2, hsame]
  exact Preset.opcodeOf_args hargs

/-- Fees of 0.3, 0.3 and 0.4 percent. -/
theorem presets_relayed_fees : ∃ args payload q,
    buildSetFeeParamsArgsCell 30 30 40 = .ok args
      ∧ encodePayload sampleCore (.parameterChange fiveRaw SET_FEE_PARAMS_OP (some args))
        = .ok payload
      ∧ (proposalWith 0 payload).queueRequest = .ok q ∧ q.method = SET_FEE_PARAMS_OP
      ∧ opcodeOf q.args = some 0 := by
  have haddress : sampleCore.parseAddress (jsTrim fiveRaw) = .ok (account 5) := by decide +kernel
  obtain ⟨args, hargs⟩ : ∃ args, (Preset.feeParams 30 30 40).args sampleCore = .ok args := by
    have hok : (buildSetFeeParamsArgsCell 30 30 40).isOk = true := by decide +kernel
    cases hargs : buildSetFeeParamsArgsCell 30 30 40 with
    | ok args => exact ⟨args, hargs⟩
    | error e =>
        rw [hargs] at hok
        cases hok
  have hreads : ProposalFormValues.Reads sampleCore
      (.parameterChange fiveRaw SET_FEE_PARAMS_OP (some args))
      (.parameterChange (account 5) SET_FEE_PARAMS_OP args) := ⟨_, haddress, rfl⟩
  obtain ⟨payload, hencode⟩ : ∃ payload, encodePayload sampleCore
      (.parameterChange fiveRaw SET_FEE_PARAMS_OP (some args)) = .ok payload :=
    ⟨_, encodePayload_of_reads hreads⟩
  have hsame := Except.ok.inj (hencode.symm.trans (encodePayload_of_reads hreads))
  have hq : (proposalWith 0 payload).queueRequest
      = .ok ⟨account 5, SET_FEE_PARAMS_OP, args, true⟩ :=
    Content.queueRequest_slice (Content.wellFormed_of_reads hreads) rfl hsame
  have hordinary : highValue (QueueRequest.mk (account 5) SET_FEE_PARAMS_OP args true).method
      = false := rfl
  have hrelayed := presets_relayed hargs hencode rfl rfl hq ⟨rfl, rfl, rfl⟩
    (AList.lookup_insert _) (due_executed hordinary)
  exact ⟨args, _, _, hargs, hencode, hq, rfl, hrelayed.2.2 _
    (List.mem_cons_of_mem _ (List.mem_cons_self ..)) _ rfl⟩

end GovernanceForms

end BurnedChats

import BurnedChats.Messages

/-!
# Proposal payloads

The payload layouts of the four proposal types (`governance-payload.tact`), as
the governor validates them when a proposal is created, and the body of a
treasury spend (`treasury-messages.tact`), as a proposal builds it and the
treasury reads it.
-/

namespace BurnedChats

def govAssertTrailingEmpty (s : Slice) : Tx Unit :=
  require (s.bits.length = 0 ∧ s.refs.length = 0) "Payload trailing data"

def validateParameterChangePayload (payload : Cell) : Tx Unit := do
  let s := payload.beginParse
  let (_, s) ← s.loadAddress
  let (_, s) ← s.loadUint 32
  let (_, s) ← s.loadRef
  govAssertTrailingEmpty s

def validateFeaturePriorityPayload (payload : Cell) : Tx Unit := do
  let s := payload.beginParse
  let (descCell, s) ← s.loadRef
  let (_, s) ← s.loadRef
  govAssertTrailingEmpty s
  require (0 < descCell.bits.length) "Feature description required"

def validateTreasurySpendPayload (payload : Cell) (expectedTreasury : Address) : Tx Unit := do
  let s := payload.beginParse
  let (treasury, s) ← s.loadAddress
  require (treasury = expectedTreasury) "Treasury address mismatch"
  let (_, s) ← s.loadAddress
  let (_, s) ← s.loadCoins
  let (reasonCell, s) ← s.loadRef
  govAssertTrailingEmpty s
  require (0 < reasonCell.bits.length) "Spend reason required"

def validateEmergencyPayload (payload : Cell) : Tx Unit := do
  let s := payload.beginParse
  let (_, s) ← s.loadAddress
  let (_, s) ← s.loadUint 32
  let (_, s) ← s.loadRef
  let (reasonCell, s) ← s.loadRef
  govAssertTrailingEmpty s
  require (0 < reasonCell.bits.length) "Emergency reason required"

def validateProposalPayloadShape (proposalType : Nat) (payload : Cell)
    (expectedTreasury : Address) : Tx Unit := do
  require (proposalType ≤ 3) "Bad proposal type"
  if proposalType = 0 then validateParameterChangePayload payload
  else if proposalType = 1 then validateFeaturePriorityPayload payload
  else if proposalType = 2 then validateTreasurySpendPayload payload expectedTreasury
  else validateEmergencyPayload payload

/-! ## Treasury spends -/

/-- `TreasurySpend`. The reason is a string kept in a reference; a string is the
content of its cell. -/
structure TreasurySpend where
  queryId : Nat
  recipient : Address
  amount : Nat
  reason : Cell
  proposalId : Nat

namespace TreasurySpend

def opcode : Nat := 0x5a1c9010

def toCell (m : TreasurySpend) : Tx Cell := do
  let b ← Slice.empty.storeUint opcode 32
  let b ← b.storeUint m.queryId 64
  let b := b.storeAddress m.recipient
  let b ← b.storeCoins m.amount
  let b := b.storeRef m.reason
  let b ← b.storeUint m.proposalId 64
  .ok b.endCell

/-- Reads the fields after the opcode. -/
def load (s : Slice) : Tx TreasurySpend := do
  let (queryId, s) ← s.loadUint 64
  let (recipient, s) ← s.loadAddress
  let (amount, s) ← s.loadCoins
  let (reason, s) ← s.loadRef
  let (proposalId, _) ← s.loadUint 64
  .ok { queryId, recipient, amount, reason, proposalId }

end TreasurySpend

/-- The opcode a body starts with. -/
def opcodeOf (c : Cell) : Option Nat :=
  match c.beginParse.preloadUint 32 with
  | .ok op => some op
  | .error _ => none

end BurnedChats

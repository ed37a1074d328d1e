import BurnedChats.Governance.Payload
import BurnedChats.Lib.Table

/-!
# The timelock

`Timelock` (`timelock.tact`): actions queued by the governor, executable by
anyone once their delay has passed. Ordinary actions are dispatched once with a
fixed budget and forgotten. High-value actions (treasury spends and vesting
revokes) are dispatched bounceable, with the executor's budget and with the
proposal id written over the query id of their body, so that a returned dispatch
names the entry to re-arm.
-/

namespace BurnedChats

def TIMELOCK_MIN_DELAY_SEC : Nat := 86400
def TREASURY_SPEND_METHOD : Nat := 0x5a1c9010
def VEST_EMERGENCY_REVOKE_METHOD : Nat := 0x5a060002
def TIMELOCK_MARK_EXECUTED_GAS : Nat := milliTon 40
def TIMELOCK_TARGET_GAS : Nat := milliTon 120
def TIMELOCK_HIGH_VALUE_EXEC_MIN : Nat := milliTon 100

/-- The methods that get the delay floor and the re-arming dispatch. -/
def highValue (method : Nat) : Bool :=
  decide (method = TREASURY_SPEND_METHOD) || decide (method = VEST_EMERGENCY_REVOKE_METHOD)

structure PendingAction where
  proposalId : Nat
  proposalContract : Address
  target : Address
  method : Nat
  args : Cell
  scheduledTime : Nat
  executed : Bool

structure Timelock where
  governor : Address
  highValueDelayFloorSec : Nat
  pendingActions : Table Nat PendingAction

namespace Timelock

def receiveQueue (ctx : Ctx) (self : Timelock) (msg : TimelockQueue) :
    Tx (Timelock × List Msg) := do
  require (ctx.sender = self.governor) "Only governor"
  require ((self.pendingActions.lookup msg.proposalId).isNone = true) "Already queued"
  if highValue msg.method then
    require (0 < msg.delay ∧ self.highValueDelayFloorSec ≤ msg.delay)
      "High-value delay below floor"
  else
    require (msg.delay = 0 ∨ TIMELOCK_MIN_DELAY_SEC ≤ msg.delay) "Delay too short"
  let scheduledTime ← uintField 64 (ctx.now + msg.delay)
  let action : PendingAction :=
    { proposalId := msg.proposalId, proposalContract := msg.proposalContract
      target := msg.target, method := msg.method, args := msg.args
      scheduledTime, executed := false }
  .ok ({ self with pendingActions := self.pendingActions.insert msg.proposalId action }, [])

/-- The dispatched body of a high-value action: its opcode, the proposal id in
place of the query id, and the rest of the arguments. -/
def rewriteArgs (action : PendingAction) : Tx Cell := do
  let (targetOp, s) ← action.args.beginParse.loadUint 32
  require (targetOp = action.method) "Args method mismatch"
  let s ← s.skipBits 64
  let b ← Slice.empty.storeUint targetOp 32
  let b ← b.storeUint action.proposalId 64
  .ok (b.storeSlice s).endCell

def markExecuted (ctx : Ctx) (action : PendingAction) (queryId : Nat) : Msg :=
  ctx.message action.proposalContract TIMELOCK_MARK_EXECUTED_GAS false
    (.proposalMarkExecuted queryId)

def executeHighValue (ctx : Ctx) (self : Timelock) (queryId proposalId : Nat)
    (action : PendingAction) : Tx (Timelock × List Msg) := do
  require (TIMELOCK_HIGH_VALUE_EXEC_MIN ≤ ctx.value) "Execute budget too low"
  let action := { action with executed := true }
  let outBody ← rewriteArgs action
  .ok ({ self with pendingActions := self.pendingActions.insert proposalId action },
    [markExecuted ctx action queryId, ctx.message action.target ctx.remaining true (.raw outBody)])

def executeOrdinary (ctx : Ctx) (self : Timelock) (queryId proposalId : Nat)
    (action : PendingAction) : Timelock × List Msg :=
  ({ self with pendingActions := self.pendingActions.erase proposalId },
    [markExecuted ctx action queryId,
     ctx.message action.target TIMELOCK_TARGET_GAS false (.raw action.args),
     ctx.cashback ctx.sender])

def receiveExecutePending (ctx : Ctx) (self : Timelock) (queryId proposalId : Nat) :
    Tx (Timelock × List Msg) :=
  match self.pendingActions.lookup proposalId with
  | none => .error "Not queued"
  | some action => do
      require (action.scheduledTime ≤ ctx.now) "Not yet executable"
      require (action.executed = false) "Already executed"
      if highValue action.method then executeHighValue ctx self queryId proposalId action
      else .ok (executeOrdinary ctx self queryId proposalId action)

def receiveCancel (ctx : Ctx) (self : Timelock) (proposalId : Nat) :
    Tx (Timelock × List Msg) := do
  require (ctx.sender = self.governor) "Only governor"
  require ((self.pendingActions.lookup proposalId).isSome = true) "Not queued"
  .ok ({ self with pendingActions := self.pendingActions.erase proposalId }, [])

def receive (ctx : Ctx) (self : Timelock) : Body → Tx (Timelock × List Msg)
  | .empty => .ok (self, if ctx.sender ≠ self.governor then [ctx.cashback ctx.sender] else [])
  | .timelockQueue msg => receiveQueue ctx self msg
  | .timelockExecutePending queryId proposalId =>
      receiveExecutePending ctx self queryId proposalId
  | .timelockCancel _ proposalId => receiveCancel ctx self proposalId
  | _ => .error unknownMessage

/-- Re-arms the entry a returned body names, if it waits for this target. -/
def rearm (self : Timelock) (sender : Address) (proposalId : Nat) : Timelock :=
  match self.pendingActions.lookup proposalId with
  | none => self
  | some action =>
      if sender ≠ action.target ∨ action.executed = false then self
      else { self with
        pendingActions := self.pendingActions.insert proposalId { action with executed := false } }

/-- A bounce preserves the first 256 bits of a body. All bodies this contract sends
bounceable are raw. -/
def bounced (ctx : Ctx) (self : Timelock) : Body → Tx Timelock
  | .raw c => do
      let s : Slice := ⟨c.bits.take 256, []⟩
      if s.bits.length < 96 then .ok self
      else do
        let (op, s) ← s.loadUint 32
        if op ≠ TREASURY_SPEND_METHOD ∧ op ≠ VEST_EMERGENCY_REVOKE_METHOD then .ok self
        else do
          let (proposalId, _) ← s.loadUint 64
          .ok (self.rearm ctx.sender proposalId)
  | _ => .ok self

/-- The state a deployment starts in, with the floor of the main network. -/
def prepareInit (governor : Address) : Timelock :=
  { governor, highValueDelayFloorSec := 172800, pendingActions := ∅ }

end Timelock

end BurnedChats

import BurnedChats.Governance.Payload
import BurnedChats.Jetton.Wallet
import BurnedChats.Lib.Table

/-!
# Treasury and vesting

The two targets of high-value actions: `Treasury` (`treasury.tact`), which spends
on the timelock's word and logs every spend until its transfer fails, and
`Vesting` (`vesting.tact`), which releases an allocation over time and can be
revoked by the timelock.

The bodies the timelock relays are cells, so both contracts parse them here; all
other messages arrive decoded.
-/

namespace BurnedChats

/-! ## Treasury -/

def MIN_SPEND_FORWARD : Nat := milliTon 2300

structure SpendRecord where
  recipient : Address
  amount : Nat
  reason : Cell
  timestamp : Nat
  proposalId : Nat
  queryId : Nat

structure Treasury where
  timelock : Address
  jetton_master : Address
  total_received : Nat
  total_spent : Nat
  spending_log : Table Nat SpendRecord
  spending_count : Nat

/-- The last of the first `n` log entries with this query id. -/
def findSpend (log : Table Nat SpendRecord) (queryId : Nat) : Nat → Option Nat
  | 0 => none
  | n + 1 =>
      match log.lookup n with
      | some r => if r.queryId = queryId then some n else findSpend log queryId n
      | none => findSpend log queryId n

namespace Treasury

variable (W : WalletBook)

def treasury_jetton_wallet (ctx : Ctx) (self : Treasury) : Address :=
  W.addr ctx.myAddress self.jetton_master

def receiveJettonNotification (ctx : Ctx) (self : Treasury) (msg : JettonNotification) :
    Tx (Treasury × List Msg) := do
  require (ctx.sender = treasury_jetton_wallet W ctx self) "Only treasury jetton wallet"
  .ok ({ self with total_received := self.total_received + msg.amount }, [])

def receiveSpend (ctx : Ctx) (self : Treasury) (msg : TreasurySpend) :
    Tx (Treasury × List Msg) := do
  require (ctx.sender = self.timelock) "Only timelock"
  require (0 < msg.amount) "Zero amount"
  require ((msg.amount : Int) ≤ self.total_received - self.total_spent)
    "Insufficient tracked balance"
  require (MIN_SPEND_FORWARD ≤ ctx.value) "Insufficient gas for spend"
  require (findSpend self.spending_log msg.queryId self.spending_count = none)
    "Duplicate spend queryId"
  let idx := self.spending_count
  let record : SpendRecord :=
    { recipient := msg.recipient, amount := msg.amount, reason := msg.reason
      timestamp := ctx.now, proposalId := msg.proposalId, queryId := msg.queryId }
  .ok ({ self with
      spending_log := self.spending_log.insert idx record
      spending_count := idx + 1
      total_spent := self.total_spent + msg.amount },
    [ctx.message (treasury_jetton_wallet W ctx self) ctx.remaining true
      (.jettonTransfer
        { queryId := msg.queryId, amount := msg.amount, destination := msg.recipient
          responseDestination := some msg.recipient, customPayload := none
          forwardTonAmount := 0, forwardPayload := noForwardPayload })])

/-- Undoes the open spend with this query id; the last entry takes its place. -/
def rollbackSpend (self : Treasury) (queryId amount : Nat) : Tx Treasury := do
  require (0 < self.spending_count) "Unexpected bounce"
  match findSpend self.spending_log queryId self.spending_count with
  | none => .error "Bounce queryId unknown"
  | some found =>
      match self.spending_log.lookup found with
      | none => .error "Unexpected bounce log"
      | some rec => do
          require (rec.amount = amount) "Bounce amount mismatch"
          let lastIdx := self.spending_count - 1
          let log ← (if found = lastIdx then .ok self.spending_log
            else match self.spending_log.lookup lastIdx with
              | none => .error "Unexpected bounce log"
              | some last => .ok (self.spending_log.insert found last))
          .ok { self with
            spending_log := log.erase lastIdx
            spending_count := lastIdx
            total_spent := self.total_spent - rec.amount }

def receiveJettonTransferCommitFailed (ctx : Ctx) (self : Treasury) (queryId amount : Nat) :
    Tx (Treasury × List Msg) := do
  require (ctx.sender = treasury_jetton_wallet W ctx self) "Only treasury jetton wallet"
  let self ← self.rollbackSpend queryId amount
  .ok (self, [])

def receive (ctx : Ctx) (self : Treasury) : Body → Tx (Treasury × List Msg)
  | .empty => .ok (self,
      if ctx.sender ≠ self.timelock ∧ ctx.sender ≠ treasury_jetton_wallet W ctx self then
        [ctx.cashback ctx.sender]
      else [])
  | .jettonNotification msg => receiveJettonNotification W ctx self msg
  | .jettonTransferCommitFailed queryId amount =>
      receiveJettonTransferCommitFailed W ctx self queryId amount
  | .raw c => do
      let (op, s) ← c.beginParse.loadUint 32
      if op = TreasurySpend.opcode then do
        let msg ← TreasurySpend.load s
        receiveSpend W ctx self msg
      else .error unknownMessage
  | _ => .error unknownMessage

def bounced (self : Treasury) : Body → Tx Treasury
  | .jettonTransfer msg => self.rollbackSpend msg.queryId msg.amount
  | _ => .ok self

/-- The state a deployment starts in. -/
def prepareInit (timelock jetton_master : Address) : Treasury :=
  { timelock, jetton_master, total_received := 0, total_spent := 0, spending_log := ∅
    spending_count := 0 }

end Treasury

/-! ## Vesting -/

def VestEmergencyRevoke.opcode : Nat := 0x5a060002

structure Vesting where
  beneficiary : Address
  total_amount : Nat
  start_time : Nat
  cliff_duration : Nat
  vesting_duration : Nat
  released_amount : Nat
  timelock : Address
  jetton_master : Address
  treasury : Address

namespace Vesting

variable (W : WalletBook)

def ReleaseTon : Nat := milliTon 3500
def gasTreasuryForwardMin : Nat := milliTon 10

def jetton_wallet_addr (ctx : Ctx) (self : Vesting) : Address :=
  W.addr ctx.myAddress self.jetton_master

def vested_amount (self : Vesting) (currentTime : Nat) : Tx Nat := do
  require (self.cliff_duration ≤ self.vesting_duration) "Bad vesting schedule"
  if currentTime < self.start_time + self.cliff_duration then .ok 0
  else if self.start_time + self.vesting_duration ≤ currentTime then .ok self.total_amount
  else do
    let elapsed := currentTime - self.start_time - self.cliff_duration
    let linear_window := self.vesting_duration - self.cliff_duration
    require (0 < linear_window) "Invalid vesting schedule"
    .ok (self.total_amount * elapsed / linear_window)

def releasable_amount (self : Vesting) (currentTime : Nat) : Tx Nat := do
  let v ← self.vested_amount currentTime
  let r : Int := (v : Int) - self.released_amount
  .ok (if 0 < r then r.toNat else 0)

/-- A transfer of the vesting wallet. -/
def transfer (ctx : Ctx) (self : Vesting) (queryId amount : Nat) (destination : Address)
    (forwardTonAmount : Nat) : Msg :=
  ctx.message (jetton_wallet_addr W ctx self) ReleaseTon true
    (.jettonTransfer
      { queryId, amount, destination, responseDestination := some destination
        customPayload := none, forwardTonAmount, forwardPayload := noForwardPayload })

def receiveRelease (ctx : Ctx) (self : Vesting) (queryId : Nat) : Tx (Vesting × List Msg) := do
  require (ctx.sender = self.beneficiary) "Only beneficiary"
  let amount ← self.releasable_amount ctx.now
  require (0 < amount) "Nothing to release"
  .ok ({ self with released_amount := self.released_amount + amount },
    [transfer W ctx self queryId amount self.beneficiary 0])

def receiveEmergencyRevoke (ctx : Ctx) (self : Vesting) (queryId : Nat) :
    Tx (Vesting × List Msg) := do
  require (ctx.sender = self.timelock) "Only timelock"
  require (ReleaseTon ≤ ctx.value) "Insufficient gas for revoke"
  let remaining : Int := (self.total_amount : Int) - self.released_amount
  require (0 < remaining) "Nothing to revoke"
  .ok ({ self with released_amount := self.total_amount },
    [transfer W ctx self queryId remaining.toNat self.treasury gasTreasuryForwardMin])

def receive (ctx : Ctx) (self : Vesting) : Body → Tx (Vesting × List Msg)
  | .empty => .ok (self,
      if ctx.sender ≠ self.timelock ∧ ctx.sender ≠ jetton_wallet_addr W ctx self then
        [ctx.cashback ctx.sender]
      else [])
  | .vestRelease queryId => receiveRelease W ctx self queryId
  | .raw c => do
      let (op, s) ← c.beginParse.loadUint 32
      if op = VestEmergencyRevoke.opcode then do
        let (queryId, _) ← s.loadUint 64
        receiveEmergencyRevoke W ctx self queryId
      else .error unknownMessage
  | _ => .error unknownMessage

def bounced (self : Vesting) : Body → Tx Vesting
  | .jettonTransfer msg => do
      require (msg.amount ≤ self.released_amount) "Unexpected bounce"
      .ok { self with released_amount := self.released_amount - msg.amount }
  | _ => .ok self

end Vesting

end BurnedChats

import BurnedChats.Jetton.Master
import BurnedChats.Lib.Table

/-!
# Master and wallets together

The jetton part of the network: one master at a fixed address and every wallet
deployed for it, each under its own address. A wallet comes into being when a
message that carries its initial state is executed at its address.
-/

namespace BurnedChats

structure JettonState where
  master : BurnJettonMaster
  wallets : Table Address BurnJettonWallet

namespace JettonState

variable (W : WalletBook) (J : Address)

/-- Addresses of the jetton: the master's and those of all its possible wallets. -/
def owns (a : Address) : Bool := decide (a = J) || (W.ownerOf J a).isSome

/-- The wallet at an address; a message with initial state attached deploys it. -/
def walletAt (s : JettonState) (m : Msg) : Option BurnJettonWallet :=
  match s.wallets.lookup m.dst with
  | some w => some w
  | none => if m.deploy && !m.bounced then (W.ownerOf J m.dst).map (BurnJettonWallet.init · J)
      else none

def receiveWallet (g : Gas) (now : Nat) (m : Msg) (s : JettonState) :
    Tx (JettonState × List Msg) :=
  match walletAt W J s m with
  | none => .error "Account not deployed"
  | some w =>
      if m.bounced then
        .ok ({ s with wallets := s.wallets.insert m.dst (w.bounced m.body) }, [])
      else do
        let (w', out) ← w.receive W (Ctx.of g now m) m.body
        .ok ({ s with wallets := s.wallets.insert m.dst w' }, out)

def receiveMaster (g : Gas) (now : Nat) (m : Msg) (s : JettonState) :
    Tx (JettonState × List Msg) :=
  if m.bounced then .ok ({ s with master := s.master.bounced m.body }, [])
  else do
    let (x, out) ← s.master.receive W (Ctx.of g now m) m.body
    .ok ({ s with master := x }, out)

def receive (g : Gas) (now : Nat) (m : Msg) (s : JettonState) : Tx (JettonState × List Msg) :=
  if m.dst = J then receiveMaster W g now m s else receiveWallet W J g now m s

end JettonState

/-- The jetton under an arbitrary environment and any order of deliveries. -/
def jettonMachine (W : WalletBook) (J : Address) :
    Network.Machine Address Body Gas JettonState where
  owns := JettonState.owns W J
  ordered _ _ := false
  receive := JettonState.receive W J

abbrev JettonConf := Network.Conf Address Body JettonState

end BurnedChats

import BurnedChats.World

/-!
# The bootstrapped network

The contracts in the state the deployment leaves them in: initial data of the
wrappers, and the one-shot wirings done. Concrete runs start here. Account 1 is
the bootstrap owner and the jetton's administrator.
-/

namespace BurnedChats

/-- The deployment on which concrete runs are computed. -/
abbrev D₀ : Deployment := .numbered

def bootstrapOwner : Address := account 1

/-- The master's own jetton wallet. -/
def masterWallet : Address := D₀.addr (.jettonWallet D₀.S D₀.J)

/-- The pool's jetton wallet. -/
def poolWallet : Address := D₀.addr (.jettonWallet D₀.P D₀.J)

def bootstrap : World where
  jetton :=
    { master := .fromInitDeployed bootstrapOwner D₀.T .empty
      wallets := ∅ }
  sm :=
    { StakingMaster.prepareInit D₀.P D₀.J D₀.L bootstrapOwner D₀.G with
      stakingJettonWallet := masterWallet
      jwConfigured := true }
  pool := { StakingPool.prepareInit bootstrapOwner D₀.S D₀.J with master_wired := true }
  lock := { StakingLock.prepareInit D₀.T with stakingMaster := D₀.S, smPushWired := true }
  governor := .prepareInit 1 D₀.S D₀.L D₀.T D₀.R
  proposals := ∅
  timelock := .prepareInit D₀.G
  treasury := .prepareInit D₀.T D₀.J
  vesting :=
    { beneficiary := account 5, total_amount := 100, start_time := 0, cliff_duration := 0
      vesting_duration := 100, released_amount := 0, timelock := D₀.T, jetton_master := D₀.J
      treasury := D₀.R }

/-- A run's start: the bootstrapped contracts at time `now`. -/
def bootstrapAt (now : Nat) : WorldConf := ⟨bootstrap, [], now⟩

/-- A platform that charges nothing; what is sent on is `remaining`. -/
def freeGas (remaining : Nat) : Gas := ⟨0, remaining, 0, 0, 0⟩

/-- The payload that announces a stake in `tier`. -/
def stakePayload (tier : Nat) : Slice :=
  ⟨[true], [.mk (natToBits 32 StakeForward.opcode ++ natToBits 8 tier) []]⟩

/-- The wallet of the staking master reports an incoming stake. -/
def stakeNotice (tier amount : Nat) (staker : Address) (value : Nat) : Msg where
  src := masterWallet
  dst := D₀.S
  value := value
  bounce := false
  bounced := false
  deploy := false
  body := .jettonNotification
    { queryId := 0, amount, sender := staker, forwardPayload := stakePayload tier }

/-- A message of an outside account. -/
def external (src dst : Address) (value : Nat) (body : Body) : Msg where
  src := src
  dst := dst
  value := value
  bounce := true
  bounced := false
  deploy := false
  body := body

end BurnedChats

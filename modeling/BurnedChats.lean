import BurnedChats.Lib.Table
import BurnedChats.Lib.Decimal
import BurnedChats.Lib.Network
import BurnedChats.Lib.Shares
import BurnedChats.Lib.Cell
import BurnedChats.Lib.Codec
import BurnedChats.Lib.Builder
import BurnedChats.Lib.Crc
import BurnedChats.Lib.Encodings
import BurnedChats.Chain
import BurnedChats.Messages
import BurnedChats.Jetton.FeeConfig
import BurnedChats.Jetton.Wallet
import BurnedChats.Jetton.Master
import BurnedChats.Jetton.System
import BurnedChats.Jetton.Books
import BurnedChats.Jetton.Conservation
import BurnedChats.Staking.Lock
import BurnedChats.Staking.Master
import BurnedChats.Staking.Pool
import BurnedChats.Governance.Payload
import BurnedChats.Governance.Proposal
import BurnedChats.Governance.Governor
import BurnedChats.Governance.Timelock
import BurnedChats.Treasury
import BurnedChats.World
import BurnedChats.Bootstrap
import BurnedChats.Governance.Actions
import BurnedChats.Governance.Dispatch
import BurnedChats.Governance.Floor
import BurnedChats.Governance.Requests
import BurnedChats.Governance.Steps
import BurnedChats.Governance.Execution
import BurnedChats.Staking.Steps
import BurnedChats.Staking.Orders
import BurnedChats.Staking.Runs
import BurnedChats.Staking.Rewards
import BurnedChats.Staking.Emission
import BurnedChats.Staking.Agreement
import BurnedChats.Staking.Funding
import BurnedChats.Staking.Power
import BurnedChats.Governance.Votes
import BurnedChats.Jetton.Runs
import BurnedChats.Jetton.Excluded
import BurnedChats.Jetton.Config
import BurnedChats.Jetton.Fees
import BurnedChats.Jetton.Transfers
import BurnedChats.Jetton.Settlement
import BurnedChats.Treasury.Ledger
import BurnedChats.Treasury.Schedule
import BurnedChats.Treasury.Releases
import BurnedChats.Staking.Tiers
import BurnedChats.Staking.Unlocking
import BurnedChats.Staking.Notices
import BurnedChats.Staking.Payments
import BurnedChats.Governance.Reservations
import BurnedChats.Governance.Queueing
import BurnedChats.Governance.Usability
import BurnedChats.Lib.Interleave
import BurnedChats.Lib.Keyspace
import BurnedChats.Lib.Index
import BurnedChats.Backend.WalletProof
import BurnedChats.Backend.Pow
import BurnedChats.Backend.DmInvite
import BurnedChats.Backend.RoomInvite
import BurnedChats.Backend.Sessions
import BurnedChats.Backend.Burning
import BurnedChats.Backend.LiveSessions
import BurnedChats.Backend.SessionRepository
import BurnedChats.Backend.SavedSessions
import BurnedChats.Backend.FileIndex
import BurnedChats.Backend.Flags
import BurnedChats.Backend.Verification
import BurnedChats.Backend.Handshake
import BurnedChats.Backend.KeyAgreement
import BurnedChats.Backend.OfflineQueue
import BurnedChats.Backend.PendingCount
import BurnedChats.Backend.RoomPassword
import BurnedChats.Backend.DownloadSlots
import BurnedChats.Backend.Delivery
import BurnedChats.Backend.Custody
import BurnedChats.Lib.Program
import BurnedChats.Backend.RoomStore
import BurnedChats.Backend.RoomOperations
import BurnedChats.Backend.RoomFootprint
import BurnedChats.Backend.RoomBurn
import BurnedChats.Backend.Membership
import BurnedChats.Backend.RoomBans
import BurnedChats.Backend.RoomOwner
import BurnedChats.Backend.RoomAuthority
import BurnedChats.Lib.EditLog
import BurnedChats.Backend.RoomMessages
import BurnedChats.Backend.AutoBurnRuns
import BurnedChats.Lib.Buffer
import BurnedChats.Backend.TonAddress
import BurnedChats.Backend.TonAddressBag
import BurnedChats.Backend.TelegramAuth
import BurnedChats.Frontend.FileEncryption
import BurnedChats.Frontend.TransferQueue
import BurnedChats.Frontend.CryptoService
import BurnedChats.Frontend.PowSolver
import BurnedChats.Frontend.SafetyNumber
import BurnedChats.Frontend.MessageList
import BurnedChats.Frontend.DirectChat
import BurnedChats.Frontend.RoomConvergence
import BurnedChats.Frontend.OwnerEpochs
import BurnedChats.Frontend.RoomDevices
import BurnedChats.Frontend.EpochKeys
import BurnedChats.Frontend.StakeEstimate
import BurnedChats.Frontend.AttachEstimate
import BurnedChats.Frontend.TransactionBuilder
import BurnedChats.Frontend.ClientRequests
import BurnedChats.Lib.JsString
import BurnedChats.Frontend.GovernanceForms
import BurnedChats.Backend.Deadman
import BurnedChats.Backend.Identity
import BurnedChats.Backend.Credentials
import BurnedChats.Backend.WalletOwner
import BurnedChats.Lib.Framing
import BurnedChats.Backend.ProofSignature
import BurnedChats.Backend.DirectMessages
import BurnedChats.Backend.MessageOwnership
import BurnedChats.Backend.DeletedMessages
import BurnedChats.Backend.RoomTopics

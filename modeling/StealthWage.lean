import StealthWage.Runs
import StealthWage.CallStack
import StealthWage.Words
import StealthWage.Vault
import StealthWage.VaultSpec
import StealthWage.VaultInvariant
import StealthWage.VaultSteps
import StealthWage.VaultConservation
import StealthWage.VaultSolvency
import StealthWage.Escrow
import StealthWage.VaultAccounting
import StealthWage.Js
import StealthWage.Utf8
import StealthWage.Json
import StealthWage.JsonRoundtrip
import StealthWage.Protocol
import StealthWage.ProtocolDigest
import StealthWage.Enclave
import StealthWage.EnclaveSpec
import StealthWage.EnclaveSecrecy
import StealthWage.VaultReplay
import StealthWage.VaultBacking
import StealthWage.System
import StealthWage.SystemPayment
import StealthWage.SystemSettlement
import StealthWage.SystemSpendable
import StealthWage.SystemAudit
import StealthWage.Reference
import StealthWage.VaultLifecycle
import StealthWage.ProtocolTerms
import StealthWage.FixedPoint
import StealthWage.ProtocolRate
import StealthWage.SystemDashboard
import StealthWage.Promises
import StealthWage.ServerQueue
import StealthWage.ServerQueueOrder
import StealthWage.Handlers
import StealthWage.PythonJson
import StealthWage.PythonServer
import StealthWage.Contract
import StealthWage.Dispatch
import StealthWage.PythonHandlers
import StealthWage.Registration
import StealthWage.RegistrationIds
import StealthWage.Client
import StealthWage.ClientRoundtrip
import StealthWage.GoGreeting
import StealthWage.Greetings
import StealthWage.GreetingsRead
import StealthWage.VaultJournal
import StealthWage.ServerLinear
import StealthWage.ServerReplies
import StealthWage.ServerState
import StealthWage.ChainReads
import StealthWage.VerifyPage
import StealthWage.RecipientPage
import StealthWage.InstructionSender
import StealthWage.GoExtension
import StealthWage.Conformance
import StealthWage.Locks
import StealthWage.GoServer
import StealthWage.PythonThreads

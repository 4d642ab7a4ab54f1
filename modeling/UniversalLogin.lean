import UniversalLogin.Lib.BigEndian
import UniversalLogin.Lib.Transition
import UniversalLogin.Lib.Reentrancy
import UniversalLogin.Lib.PartialMap
import UniversalLogin.Lib.Hex
import UniversalLogin.Lib.Async
import UniversalLogin.Lib.Labelled
import UniversalLogin.Lib.History
import UniversalLogin.Lib.Interleaving
import UniversalLogin.Lib.Comparator
import UniversalLogin.Evm.Basic
import UniversalLogin.Contracts.KeyHolder
import UniversalLogin.Contracts.ERC1077
import UniversalLogin.Contracts.Calls
import UniversalLogin.Contracts.Calldata
import UniversalLogin.Contracts.AdminCalldata
import UniversalLogin.Contracts.Wallet
import UniversalLogin.Contracts.WalletSteps
import UniversalLogin.Contracts.Administration
import UniversalLogin.Contracts.Signatures
import UniversalLogin.Contracts.KeyCount
import UniversalLogin.Contracts.KeyEvents
import UniversalLogin.Contracts.KeyBatches
import UniversalLogin.Contracts.Provenance
import UniversalLogin.Contracts.Refunds
import UniversalLogin.Contracts.Nonces
import UniversalLogin.Contracts.ExecutionEvents
import UniversalLogin.Contracts.Spending
import UniversalLogin.Contracts.Initialisation
import UniversalLogin.Contracts.Factory
import UniversalLogin.FormalVerification.Acts
import UniversalLogin.Commons.Messages
import UniversalLogin.Commons.MessageSignatures
import UniversalLogin.Commons.MessageSigning
import UniversalLogin.Commons.Ens
import UniversalLogin.Commons.Balance
import UniversalLogin.Commons.WalletSelection
import UniversalLogin.Commons.SuggestionsService
import UniversalLogin.Relayer.EnsService
import UniversalLogin.Relayer.Stores
import UniversalLogin.Relayer.MessageExecutor
import UniversalLogin.Relayer.Serialisation
import UniversalLogin.Relayer.Transport
import UniversalLogin.Relayer.Authorisations
import UniversalLogin.Relayer.Validations
import UniversalLogin.Relayer.WalletService
import UniversalLogin.Relayer.PendingMessages
import UniversalLogin.Relayer.SingleSigner
import UniversalLogin.Relayer.Acceptance
import UniversalLogin.Relayer.CallLogs
import UniversalLogin.Relayer.MessageHandler
import UniversalLogin.Relayer.Executions
import UniversalLogin.Relayer.HandlerRuns
import UniversalLogin.Relayer.HandlerTurns
import UniversalLogin.Relayer.QueueRows
import UniversalLogin.Relayer.Loops
import UniversalLogin.Relayer.Broadcasts
import UniversalLogin.Relayer.QueueOrder
import UniversalLogin.Relayer.StopLater
import UniversalLogin.Relayer.Signers
import UniversalLogin.Relayer.Statuses
import UniversalLogin.Relayer.Reports
import UniversalLogin.Relayer.Submissions
import UniversalLogin.Relayer.Refusals
import UniversalLogin.Relayer.Cosigned
import UniversalLogin.Relayer.CosignedCalls
import UniversalLogin.Relayer.Cosigners
import UniversalLogin.Relayer.AuthorisationRouter
import UniversalLogin.Sdk.ObserverRunner
import UniversalLogin.Sdk.ObserverBase
import UniversalLogin.Sdk.RelayerObserver
import UniversalLogin.Sdk.Subscriptions
import UniversalLogin.Sdk.BalanceObserver
import UniversalLogin.Sdk.DeploymentObserver
import UniversalLogin.Sdk.BlockchainObserver
import UniversalLogin.Sdk.KeyDeliveries
import UniversalLogin.Sdk.Retry
import UniversalLogin.Sdk.FutureWallet
import UniversalLogin.Sdk.UniversalLoginSDK
import UniversalLogin.Sdk.Execution
import UniversalLogin.Sdk.SdkSigner
import UniversalLogin.WalletApp.WalletService
import UniversalLogin.WalletApp.BalanceService
import UniversalLogin.WalletApp.TransferService
import UniversalLogin.WalletApp.NotificationsService
import UniversalLogin.ExampleApp.Daefen
import UniversalLogin.ExampleApp.BackupService
import UniversalLogin.ExampleApp.GreetingService
import UniversalLogin.ExampleApp.HistoryService

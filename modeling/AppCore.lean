import AppCore.Sync.Concurrent
import AppCore.Sync.ClientProof
import AppCore.Sync.SharedOutbox
import AppCore.PeerRpc.Replay
import AppCore.PeerRpc.BoundedReplay
import AppCore.Storage.RemoteCalls
import AppCore.Storage.RemoteStore
import AppCore.Storage.SealedStoreRuns
import AppCore.Lease.StateFile
import AppCore.Lease.Fencing
import AppCore.Provider.Coordination
import AppCore.Core.Grants
import AppCore.Core.Reservations
import AppCore.Core.IdempotencyFileProof
import AppCore.Core.JournalProof
import AppCore.Scheduler.Discipline
import AppCore.Supervisor.StopSettles
import AppCore.Supervisor.Marks
import AppCore.Supervisor.Shutdown
import AppCore.Supervisor.BudgetProof
import AppCore.Supervisor.ConcurrentProof
import AppCore.Supervisor.Watchdog
import AppCore.Security.Revocation
import AppCore.Security.KeyringTokens
import AppCore.Security.TokenIsolation
import AppCore.Security.KeyringResolves
import AppCore.Security.DntKeys
import AppCore.Gateway.Socket
import AppCore.Gateway.Runtime
import AppCore.Gateway.Authorization
import AppCore.Gateway.Routing
import AppCore.Gateway.Capacity
import AppCore.ControlPlane.Superseded
import AppCore.ControlPlane.Discovery
import AppCore.Scheduler.Placement
import AppCore.Capabilities.Execution
import AppCore.Api.AuditProof
import AppCore.PeerRpc.Envelopes
import AppCore.PeerRpc.NonceStores
import AppCore.Transport.Chunks
import AppCore.Transport.Client
import AppCore.Sync.PeerAddress
import AppCore.Args.CompletionReads
import AppCore.Update.Authenticity
import AppCore.Update.Store
import AppCore.Update.HexText
import AppCore.Contracts.Opaque
import AppCore.Ops.RepeatedRedaction
import AppCore.Ops.ObservationBound
import AppCore.Sync.BatchHash
import AppCore.Sync.ChainHead
import AppCore.Sync.Retry

import LosantDevice.Effect.Program
import LosantDevice.Effect.Pool
import LosantDevice.Effect.Atomic
import LosantDevice.Kube.Server
import LosantDevice.Go.Time
import LosantDevice.Go.Http
import LosantDevice.Go.Search
import LosantDevice.Go.Query
import LosantDevice.Go.Escape
import LosantDevice.Go.Totals
import LosantDevice.Go.RWMutex
import LosantDevice.Kube.Conditions
import LosantDevice.Kube.Controller
import LosantDevice.Kube.Provenance
import LosantDevice.Kube.Wording
import LosantDevice.Kube.Ownership
import LosantDevice.Kube.Replay
import LosantDevice.Kube.Queue
import LosantDevice.Kube.Manager
import LosantDevice.Kube.Settled
import LosantDevice.Kube.Advance
import LosantDevice.Kube.Replicas
import LosantDevice.Kube.Unhindered
import LosantDevice.Monitor.Store
import LosantDevice.Monitor.Score
import LosantDevice.Monitor.Deductions
import LosantDevice.Monitor.Collect
import LosantDevice.Watcher.Reconcile
import LosantDevice.Monitor.Memory
import LosantDevice.Monitor.Linearizable
import LosantDevice.Watcher.Pods
import LosantDevice.Watcher.Snapshot
import LosantDevice.Watcher.Failures
import LosantDevice.Watcher.Watches
import LosantDevice.Watcher.Freshness
import LosantDevice.Script.HealthScore
import LosantDevice.Script.Agreement
import LosantDevice.Api.V1alpha1
import LosantDevice.Losant.Client
import LosantDevice.Losant.Lookup
import LosantDevice.Gea.Client
import LosantDevice.Rancher.Client
import LosantDevice.Rancher.Lookup
import LosantDevice.Clients.NotFound
import LosantDevice.Sync.Reconcile
import LosantDevice.Sync.Workflows
import LosantDevice.Sync.Trace
import LosantDevice.Sync.Obeys
import LosantDevice.Sync.Outcome
import LosantDevice.Sync.Bootstrap
import LosantDevice.Sync.Recording
import LosantDevice.Sync.WakeUp
import LosantDevice.Sync.Honesty
import LosantDevice.Sync.Finalizer
import LosantDevice.Session.Reconcile
import LosantDevice.Session.World
import LosantDevice.Session.Trace
import LosantDevice.Session.Obeys
import LosantDevice.Session.Recording
import LosantDevice.Session.Interrupted
import LosantDevice.Session.Expiry
import LosantDevice.Session.Fallback
import LosantDevice.Session.Cleanup
import LosantDevice.Session.Retry
import LosantDevice.Session.Status
import LosantDevice.Session.Halted
import LosantDevice.Session.Clusters
import LosantDevice.Session.Reconnect
import LosantDevice.Session.Watch
import LosantDevice.Session.Phases
import LosantDevice.Session.Manifest
import LosantDevice.Session.Replicas
import LosantDevice.Session.Completion
import LosantDevice.Trigger.Server
import LosantDevice.Trigger.Protocol
import LosantDevice.Trigger.Lifetime
import LosantDevice.Trigger.Fulfilment
import LosantDevice.Registry.Table
import LosantDevice.Losant.World
import LosantDevice.Losant.Schema
import LosantDevice.Sync.World
import LosantDevice.Sync.Devices
import LosantDevice.Sync.NodeDevices
import LosantDevice.Sync.Isolation
import LosantDevice.Sync.Identifiers
import LosantDevice.Sync.Lifecycle
import LosantDevice.Sync.Reports
import LosantDevice.Sync.Routing
import LosantDevice.Sync.Replicas
import LosantDevice.Sync.Convergence
import LosantDevice.Sync.Watch
import LosantDevice.Sync.Credentials
import LosantDevice.Clients.Recording

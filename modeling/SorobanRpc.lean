import SorobanRpc.Basic
import SorobanRpc.LedgerBucketWindow
import SorobanRpc.Events.Cursor
import SorobanRpc.Events.ReadEvents
import SorobanRpc.Events.Seek
import SorobanRpc.Events.MemoryStore
import SorobanRpc.Events.Scan
import SorobanRpc.LedgerEntryStorage.Decimal
import SorobanRpc.LedgerEntryStorage.Db
import SorobanRpc.LedgerEntryStorage.Batching
import SorobanRpc.LedgerEntryStorage.Refinement
import SorobanRpc.Ingest.Service
import SorobanRpc.Ingest.Invariants
import SorobanRpc.Ingest.Progress
import SorobanRpc.Ingest.RunOnce
import SorobanRpc.LedgerEntryStorage.Store
import SorobanRpc.Events.Retention
import SorobanRpc.Ingest.EventStore
import SorobanRpc.Configuration.Options
import SorobanRpc.Ingest.Retry

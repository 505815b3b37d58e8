import RsDragonfly.Library.MaxQueue
import RsDragonfly.Library.KeyedMap
import RsDragonfly.Shard.Steps
import RsDragonfly.Library.ExpiringCell
import RsDragonfly.Shard.History
import RsDragonfly.Shard.Reads
import RsDragonfly.Shard.Unobserved
import RsDragonfly.Shard.Accounting
import RsDragonfly.Shard.Limits
import RsDragonfly.Shard.Panics
import RsDragonfly.Library.Crc
import RsDragonfly.Library.Reader
import RsDragonfly.Snapshot.Format
import RsDragonfly.Snapshot.Serialize
import RsDragonfly.Snapshot.Deserialize
import RsDragonfly.Snapshot.Checksums
import RsDragonfly.Snapshot.RoundTrip
import RsDragonfly.Protocol.Parser
import RsDragonfly.Protocol.Chunking
import RsDragonfly.Library.Channel
import RsDragonfly.Persistence.Directory
import RsDragonfly.Persistence.Loader
import RsDragonfly.Persistence.Pipeline
import RsDragonfly.Persistence.FinalSnapshot
import RsDragonfly.Persistence.Server
import RsDragonfly.Persistence.Restart
import RsDragonfly.Shard.Sweeping
import RsDragonfly.Persistence.Publication
import RsDragonfly.Protocol.Serializer
import RsDragonfly.Frontend.Connection
import RsDragonfly.Protocol.Oversized
import RsDragonfly.Frontend.Handler
import RsDragonfly.Frontend.Sharding
import RsDragonfly.Frontend.Traffic
import RsDragonfly.Frontend.Delivery
import RsDragonfly.Shard.Ledger
import RsDragonfly.Frontend.Books
import RsDragonfly.Frontend.Conservation
import RsDragonfly.Snapshot.EntrySection
import RsDragonfly.Snapshot.Acceptance
import RsDragonfly.Snapshot.Corruption
import RsDragonfly.Snapshot.Counters
import RsDragonfly.Snapshot.Records
import RsDragonfly.Snapshot.Cycles
import RsDragonfly.Protocol.Reparse
import RsDragonfly.Protocol.Documented
import RsDragonfly.Frontend.Replies
import RsDragonfly.Library.CrcPolynomial
import RsDragonfly.Library.Fibers
import RsDragonfly.Frontend.Hash
import RsDragonfly.Shard.SweepWork
import RsDragonfly.Library.JoinAll
import RsDragonfly.Frontend.MultiKey
import RsDragonfly.Frontend.Classification
import RsDragonfly.Frontend.Pipelining
import RsDragonfly.Frontend.Service
import RsDragonfly.Library.Linearization
import RsDragonfly.Frontend.Linearizable
import RsDragonfly.Frontend.OneShard
import RsDragonfly.Shard.Backlog
import RsDragonfly.Shard.QueueLedger
import RsDragonfly.Shard.Isolation
import RsDragonfly.Persistence.Generations
import RsDragonfly.Persistence.Shutdown
import RsDragonfly.Frontend.Progress
import RsDragonfly.Frontend.Outage
import RsDragonfly.Persistence.Contents
import RsDragonfly.Library.Scrape
import RsDragonfly.Observability.Prometheus
import RsDragonfly.Library.CrcBurst
import RsDragonfly.Snapshot.Bursts
import RsDragonfly.Persistence.Durability

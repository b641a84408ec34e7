import Scry.Agent.Cri
import Scry.Agent.Scrape
import Scry.Alert.Projection
import Scry.Alert.Recovery
import Scry.Alert.Resume
import Scry.Alert.Schedule
import Scry.Alert.StateChain
import Scry.Block.Probe
import Scry.Catalog.Reaping
import Scry.Cluster.Deadlines
import Scry.Cluster.Poll
import Scry.Cluster.SingleMerge
import Scry.Compact.Postings
import Scry.Compact.Progress
import Scry.Compact.Tree
import Scry.Distributed.Assignment
import Scry.Errors.Canonical
import Scry.Errors.Fingerprint
import Scry.Gateway.Deliverable
import Scry.Gateway.Fanout
import Scry.Live.Ring
import Scry.Pipeline.Generations
import Scry.Pipeline.Logs
import Scry.Pipeline.Watermark
import Scry.Proto.Noninterference
import Scry.Proto.RoundTrip
import Scry.Proto.Sources
import Scry.Proto.TypedText
import Scry.Query.LiveFilter
import Scry.Query.Metrics
import Scry.Query.ResultCache
import Scry.Retention.Safety
import Scry.Valkey.Exclusion
import Scry.Wal.Numbers

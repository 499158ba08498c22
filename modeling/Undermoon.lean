import Undermoon.Lib.OrdMap
import Undermoon.Lib.Iter
import Undermoon.Lib.Machine
import Undermoon.Lib.Front
import Undermoon.Lib.Writes
import Undermoon.Common.Range
import Undermoon.Common.Config
import Undermoon.Common.Cluster
import Undermoon.Broker.Store
import Undermoon.Broker.Query
import Undermoon.Broker.Allocate
import Undermoon.Broker.Update
import Undermoon.Broker.Migrate
import Undermoon.Broker.Service
import Undermoon.Proxy.Slot
import Undermoon.Protocol.Resp
import Undermoon.Migration.Switch
import Undermoon.Proofs.FailedCalls
import Undermoon.Proofs.Hosts
import Undermoon.Proofs.Layout
import Undermoon.Proofs.Allocation
import Undermoon.Proofs.Consistency
import Undermoon.Proofs.Steps
import Undermoon.Proofs.Preservation
import Undermoon.Proofs.Epochs
import Undermoon.Proofs.Planner
import Undermoon.Proofs.Live
import Undermoon.Proofs.Ordered
import Undermoon.Proofs.Ranges
import Undermoon.Proofs.Routing
import Undermoon.Proofs.Codec
import Undermoon.Proofs.Switch
import Undermoon.Proofs.Ownership
import Undermoon.Proofs.Limit
import Undermoon.Proofs.Failover
import Undermoon.Proxy.Backend
import Undermoon.Proofs.Pipeline
import Undermoon.Lib.Threads
import Undermoon.Proxy.Blocking
import Undermoon.Proofs.BlockingQueue
import Undermoon.Protocol.Packet
import Undermoon.Proofs.OptionalMulti
import Undermoon.Migration.SwitchArg
import Undermoon.Proofs.SwitchArg
import Undermoon.Proxy.Command
import Undermoon.Proofs.Forward
import Undermoon.Proofs.Balance
import Undermoon.Proofs.Fresh
import Undermoon.Proofs.ScaleDown
import Undermoon.Migration.Blocking
import Undermoon.Proofs.SourceBlocking
import Undermoon.Common.Proto
import Undermoon.Proofs.SetCluster

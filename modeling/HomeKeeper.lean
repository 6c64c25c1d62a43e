import HomeKeeper.Lib.Run
import HomeKeeper.Lib.CData
import HomeKeeper.Lib.Sync
import HomeKeeper.Lib.Handles
import HomeKeeper.Lib.Bits
import HomeKeeper.Lib.Ring
import HomeKeeper.Lib.Consensus
import HomeKeeper.Lib.ConsensusSteps
import HomeKeeper.Lib.Replica
import HomeKeeper.Base64.Codec
import HomeKeeper.Base64.Rfc4648
import HomeKeeper.Base64.Prefix
import HomeKeeper.Notify.Database
import HomeKeeper.Notify.EmailSender
import HomeKeeper.Notify.WorkFunctions
import HomeKeeper.Notify.Pairing
import HomeKeeper.Notify.Delivery
import HomeKeeper.Notify.Addresses
import HomeKeeper.Notify.Overtaken
import HomeKeeper.Notify.Reported
import HomeKeeper.Notify.Attachments
import HomeKeeper.Notify.CurlUtil
import HomeKeeper.Notify.Leftover
import HomeKeeper.Notify.Statements
import HomeKeeper.Log.HmLog
import HomeKeeper.Log.Order
import HomeKeeper.Log.Cancel
import HomeKeeper.Proxy.Greeting
import HomeKeeper.Proxy.TcpServer
import HomeKeeper.Proxy.Forwarding
import HomeKeeper.Proxy.Lifecycle
import HomeKeeper.Device.ThreadPool
import HomeKeeper.Device.Blocks
import HomeKeeper.Frame.Master
import HomeKeeper.Frame.Pids
import HomeKeeper.Frame.Fifo
import HomeKeeper.Frame.Framing
import HomeKeeper.Frame.Pipe
import HomeKeeper.Master.Supervisor
import HomeKeeper.File.Write
import HomeKeeper.Config.Readers
import HomeKeeper.SqlGen.Generate
import HomeKeeper.Raft.Log
import HomeKeeper.Raft.LogRefine
import HomeKeeper.Raft.LogKept
import HomeKeeper.Raft.Node
import HomeKeeper.Raft.Server
import HomeKeeper.Raft.Replication
import HomeKeeper.Raft.Snapshot
import HomeKeeper.Raft.Settled
import HomeKeeper.Raft.Cluster
import HomeKeeper.Raft.Simulation
import HomeKeeper.Raft.SimulationLog
import HomeKeeper.Raft.Safety
import HomeKeeper.Raft.ServerMoves
import HomeKeeper.Raft.ServerRuns
import HomeKeeper.Raft.Rollback
import HomeKeeper.Raft.Alone

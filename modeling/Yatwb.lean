import Yatwb.Buffer.Model
import Yatwb.Foundation.Machine
import Yatwb.Buffer.Refinement
import Yatwb.Buffer.QueueRuns
import Yatwb.Poller.Channel
import Yatwb.Poller.Model
import Yatwb.Foundation.SwapRemove
import Yatwb.Poller.Registration
import Yatwb.Poller.Runs
import Yatwb.Connection.Model
import Yatwb.Connection.WritePaths
import Yatwb.Connection.Session
import Yatwb.Connection.HalfClose
import Yatwb.EventLoop.Batch
import Yatwb.EventLoop.Interleaving
import Yatwb.EventLoop.FunctorQueue
import Yatwb.EventLoop.Wakeup
import Yatwb.EventLoop.SendOrder
import Yatwb.Server.Model
import Yatwb.Server.Runs
import Yatwb.Poller.Polling
import Yatwb.Server.Affinity
import Yatwb.Server.Frames
import Yatwb.Server.Effects
import Yatwb.Server.Ownership
import Yatwb.Server.Steps
import Yatwb.Server.Lifecycle
import Yatwb.Poller.Reuse
import Yatwb.Foundation.OrderedSet
import Yatwb.Server.Start
import Yatwb.Timer.Model
import Yatwb.Timer.Arming
import Yatwb.Timer.Ledger
import Yatwb.Foundation.Monitor
import Yatwb.Thread.Model
import Yatwb.Thread.Handshake
import Yatwb.Thread.Quit
import Yatwb.Contention.Model
import Yatwb.Contention.Frames
import Yatwb.Contention.Shutdown
import Yatwb.Contention.LateSend
import Yatwb.Timer.Expiry
import Yatwb.Buffer.ReadFd
import Yatwb.Buffer.Growth
import Yatwb.Buffer.SizeT
import Yatwb.Buffer.Shrink
import Yatwb.Timer.SlotOwners
import Yatwb.Server.Registration
import Yatwb.Server.Teardown
import Yatwb.Foundation.RoundRobin
import Yatwb.Logging.FixedBuffer
import Yatwb.Server.RoundRobin
import Yatwb.Thread.Tid
import Yatwb.Timer.SlotRefinement
import Yatwb.Echo.Model
import Yatwb.Poller.Watching
import Yatwb.Echo.Calls
import Yatwb.Echo.Line
import Yatwb.Echo.Callbacks
import Yatwb.Echo.Runs
import Yatwb.EventLoop.Progress
import Yatwb.Foundation.Condition
import Yatwb.Thread.Latch
import Yatwb.Timer.Firing
import Yatwb.Timer.Posting
import Yatwb.Foundation.Holdings
import Yatwb.Server.Descriptors
import Yatwb.Thread.Lifecycle
import Yatwb.Thread.Destructor
import Yatwb.Echo.CatchUp
import Yatwb.Server.Pool
import Yatwb.Server.Sweep
import Yatwb.Echo.Refinement
import Yatwb.Connection.Turns
import Yatwb.Server.Sessions

import TinyOS.Pipe.Buffer
import TinyOS.Pipe.Ends
import TinyOS.Sched.Correct
import TinyOS.Sched.Timeout
import TinyOS.Sched.Fairness
import TinyOS.Kernel.Lock
import TinyOS.Thread.Parked
import TinyOS.Thread.ExitLoop
import TinyOS.Thread.Handles
import TinyOS.Proc.Waiting
import TinyOS.Proc.Snapshot
import TinyOS.Proc.Tasks
import TinyOS.Proc.Tree
import TinyOS.Stream.Misuse
import TinyOS.Stream.Counted
import TinyOS.Stream.Peers
import TinyOS.Stream.Ports
import TinyOS.Stream.Queue
import TinyOS.Stream.Duplex
import TinyOS.Stream.Drop
import TinyOS.Stream.Hangup
import TinyOS.Stream.Agreement
import TinyOS.Stream.Failures
import TinyOS.Stream.SocketHeap
import TinyOS.Stream.PipeHeap
import TinyOS.Args.RoundTrip
import TinyOS.Args.Execute
import TinyOS.Shell.Remote
import TinyOS.Shell.Pipeline
import TinyOS.Util.Exceptions
import TinyOS.Util.Rings
import TinyOS.Sched.Boost
import TinyOS.Stream.Terminal
import TinyOS.Testing.IntList
import TinyOS.Symposium.Forks
import TinyOS.Symposium.Correct
import TinyOS.Stream.Partners
import TinyOS.Sched.Starvation
import TinyOS.Cond.Mutex
import TinyOS.Stream.Interrupts
import TinyOS.Stream.Connections

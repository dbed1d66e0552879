import Caladan.Lib.Serial
import Caladan.Lib.PowRing
import Caladan.Base.Lrpc
import Caladan.Base.LrpcChannel
import Caladan.Iokernel.Shm
import Caladan.Iokernel.Tx
import Caladan.Base.Wraps
import Caladan.Net.Tcp.Conn
import Caladan.Net.Tcp.Out
import Caladan.Lib.Chain
import Caladan.Net.Tcp.In
import Caladan.Net.Tcp.Options
import Caladan.Net.Tcp.RxOoo
import Caladan.Net.Tcp.Api
import Caladan.Lib.Ring
import Caladan.Runtime.Sched
import Caladan.Runtime.RunQueue
import Caladan.Runtime.SchedInv
import Caladan.Runtime.SchedRun
import Caladan.Lib.DaryHeap
import Caladan.Runtime.Timer
import Caladan.Runtime.TimerInv
import Caladan.Lib.Run
import Caladan.Runtime.Mutex
import Caladan.Runtime.RwMutex
import Caladan.Iokernel.Completion
import Caladan.Breakwater.Server
import Caladan.Base.Tcache
import Caladan.Base.Slab
import Caladan.Runtime.Rcu
import Caladan.Iokernel.Sched
import Caladan.Iokernel.Ias
import Caladan.Iokernel.IasInv
import Caladan.Iokernel.IasAttach
import Caladan.Net.Transport
import Caladan.Iokernel.TxBurst
import Caladan.Net.Tcp.Listen
import Caladan.Net.Udp
import Caladan.Net.Arp
import Caladan.Breakwater.Session
import Caladan.Iokernel.Simple
import Caladan.Iokernel.SimpleInv
import Caladan.Lib.Bits
import Caladan.Runtime.Smalloc
import Caladan.Runtime.Storage
import Caladan.Base.Page
import Caladan.Base.PageInv
import Caladan.Iokernel.Control
import Caladan.Lib.WaitQueue
import Caladan.Runtime.SyncWait
import Caladan.Runtime.Preempt
import Caladan.Breakwater.Dagor
import Caladan.Base.Bitmap
import Caladan.Base.Mempool
import Caladan.Lib.RoundRobin
import Caladan.Runtime.Flows
import Caladan.Lib.OnesComplement
import Caladan.Net.Chksum
import Caladan.Lib.CString
import Caladan.Base.BitmapString
import Caladan.Runtime.Cfg
import Caladan.Runtime.CfgRender
import Caladan.Iokernel.Rx
import Caladan.Iokernel.RxRing
import Caladan.Runtime.Switch
import Caladan.Runtime.SwitchInv

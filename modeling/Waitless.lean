import Waitless.Accept
import Waitless.ArmedTimers
import Waitless.BootHeap
import Waitless.ChallengeAck
import Waitless.Checksum
import Waitless.Congestion
import Waitless.CryptoReassembly
import Waitless.CubeRoot
import Waitless.DeadlineSet
import Waitless.Dispatch
import Waitless.EphemeralPorts
import Waitless.GhashSpec
import Waitless.HoleRing
import Waitless.Http2Body
import Waitless.Http2Receive
import Waitless.Http2Reset
import Waitless.Http2Window
import Waitless.Http3Body
import Waitless.HttpFraming
import Waitless.HttpServe
import Waitless.LossTimer
import Waitless.OutOfOrder
import Waitless.PrefixedInt
import Waitless.QuicAckNumbers
import Waitless.QuicAckWork
import Waitless.QuicEndToEnd
import Waitless.QuicFinalSize
import Waitless.QuicFlowControl
import Waitless.QuicPacer
import Waitless.QuicRecvMemory
import Waitless.QuicRouting
import Waitless.QuicSend
import Waitless.QuicSendLimits
import Waitless.SendWindow
import Waitless.SlotPool
import Waitless.TcpEndToEnd
import Waitless.TcpHash
import Waitless.TlsServer
import Waitless.WorkerWake

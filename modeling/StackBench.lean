import StackBench.Mtcp.Receive
import StackBench.Tas.Migration
import StackBench.Tas.BumpList
import StackBench.Tas.OneCore
import StackBench.Tas.FlowTable
import StackBench.Tas.CcList
import StackBench.Tas.KtxQueue
import StackBench.Mtcp.Epoll
import StackBench.Mtcp.RtoWheel
import StackBench.Tas.SocketRecv
import StackBench.Tas.PacketBuffers
import StackBench.Tas.QmanOrder
import StackBench.Mtcp.Listeners
import StackBench.Tas.Trim
import StackBench.Tas.EpollReady
import StackBench.Phttpd.Isolation
import StackBench.Phttpd.Wal
import StackBench.Tas.PacketMem
import StackBench.Tas.SlotReuse
import StackBench.Tas.RatePositive
import StackBench.Tas.CoreCount
import StackBench.Tas.EphemeralPorts
import StackBench.Tas.ScaleBalance
import StackBench.Tas.Routing
import StackBench.Tas.ControlPacket
import StackBench.Tas.Handshake
import StackBench.Mtcp.Rejected
import StackBench.Mtcp.Congestion
import StackBench.Mtcp.DupAcks
import StackBench.Mtcp.AckRequests
import StackBench.Mtcp.FlushProgress
import StackBench.Mtcp.RouteArp
import StackBench.Mtcp.Frames
import StackBench.Mtcp.Rss
import StackBench.Tas.FlowControl

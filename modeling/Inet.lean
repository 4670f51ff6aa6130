import Inet.Packet.RegionTagGaps
import Inet.Packet.PeekBackward
import Inet.Rdma.RdmaReassembly
import Inet.UdpApp.MessageRoundTrip
import Inet.Ipv4.PacedTiling
import Inet.Sctp.OutboundContiguity
import Inet.Ieee80211.BlockAckHonesty
import Inet.Ieee8021d.SpanningTree
import Inet.Ieee8021d.RstpRuns
import Inet.Configurator.Forwarding
import Inet.Configurator.AssignmentRuns
import Inet.BitLevel.OfdmChain
import Inet.Ipv6.FragmentationRoundTrip
import Inet.Udp.PacedQueues
import Inet.Clock.OscillatorBasedClock
import Inet.Queueing.TokenBasedServer
import Inet.TcpCommon.TcpHeaderRoundTrip
import Inet.Ipv4Options.HeaderRoundTrip
import Inet.Packet.PeekCapped
import Inet.Packet.RegionTagFollow
import Inet.Common.ReadPastEnd
import Inet.Rdma.RdmaReceive
import Inet.Ieee80211.ReassemblyRuns
import Inet.Tcp.SenderRuns
import Inet.Tcp.ReceiveWindow
import Inet.Ipv4.RoutingTableThrows
import Inet.Ieee80211.ReorderProgress
import Inet.Ieee8021d.RstpBackup
import Inet.Eigrp.FlushedRequests
import Inet.Sctp.StreamScheduler
import Inet.BitLevel.MaximumLikelihood
import Inet.Configurator.MergeBookkeeping
import Inet.Common.EnabledPaths
import Inet.Sctp.ForwardTsn
import Inet.Sctp.SackShortening
import Inet.Ospfv2.SummaryLsaIds
import Inet.Aodv.DiscoveryProgress
import Inet.Ipv6.LongestPrefixMatch
import Inet.Queueing.BufferAgreement
import Inet.TcpCommon.AnyStream
import Inet.Udp.ExactDelivery
import Inet.Ipv4.ListenerSets
import Inet.Ethernet.FramePreemption
import Inet.Diffserv.Meters

import Ns3.Core.CalendarRefines
import Ns3.Core.HeapRefines
import Ns3.Core.Int64x64Cairo
import Ns3.Core.Int64x64Rounding
import Ns3.Core.TimeConversion
import Ns3.Network.PacketTagRefines
import Ns3.Network.NixVector
import Ns3.Network.PbbRoundTrip
import Ns3.Network.DynamicQueueLimits
import Ns3.Internet.Arp.ArpTracked
import Ns3.Internet.Ip.Ipv4AddressNetworks
import Ns3.Internet.Ip.Ipv4EndPointDemux
import Ns3.Internet.Ip.Ipv6ExtensionChain
import Ns3.Internet.Routing.SpfCorrect
import Ns3.Internet.Tcp.Connection
import Ns3.Internet.Tcp.HeaderChecksum
import Ns3.Internet.Tcp.KarnRule
import Ns3.Internet.Tcp.PrrRecovery
import Ns3.Internet.Tcp.RxSack
import Ns3.Internet.Tcp.RxWindow
import Ns3.Internet.Tcp.SocketSend
import Ns3.Internet.Tcp.SwiftDirection
import Ns3.Internet.Tcp.TxCopySequence
import Ns3.Internet.Tcp.TxDelivered
import Ns3.Internet.Tcp.TxLossMarks
import Ns3.Internet.Tcp.WindowedFilter
import Ns3.TrafficControl.FqCoDelFairness
import Ns3.TrafficControl.SentPackets
import Ns3.TrafficControl.CoDelSafety
import Ns3.TrafficControl.CoDelSqrt
import Ns3.Wifi.BlockAckRoundTrip
import Ns3.Wifi.Defragmentation
import Ns3.Wifi.InFlightRuns
import Ns3.Lte.RlcAmHeaderCodec
import Ns3.Lte.RlcUmBooks
import Ns3.Lte.RlcUmReassembly
import Ns3.Lte.RlcUmReorders
import Ns3.Olsr.FloodingRing
import Ns3.Olsr.NeighborMirror
import Ns3.Olsr.RoutingDistances
import Ns3.Olsr.HnaRoutes
import Ns3.Aodv.RerrRateLimit
import Ns3.Olsr.TopologyRuns
import Ns3.Olsr.WireSafety
import Ns3.Mesh.PeeringAgreement
import Ns3.Mesh.PeerLinkLimit
import Ns3.Internet.Ip.Ipv4PartialPacket
import Ns3.Internet.Routing.SpfParallel
import Ns3.Internet.Routing.RipHeader

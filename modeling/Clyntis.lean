import Clyntis.Config.GroupCost
import Clyntis.Config.RulePrint
import Clyntis.Core.TailscaleProxies
import Clyntis.Core.DnsCacheBounds
import Clyntis.Core.DnsFreshness
import Clyntis.Core.DnsLeak
import Clyntis.Core.FakePool
import Clyntis.Core.Grouping
import Clyntis.Core.Ipv6RoundTrip
import Clyntis.Core.LazyLookup
import Clyntis.Core.MemoryGuard
import Clyntis.Core.ReloadAllow
import Clyntis.Core.ReloadNetwork
import Clyntis.Core.Spelling
import Clyntis.Core.Transports
import Clyntis.Core.UdpLoop
import Clyntis.Desktop.SystemProxy
import Clyntis.Ffi.PacketWake
import Clyntis.Platform.RouteJournal
import Clyntis.Protocol.GrpcAccounting
import Clyntis.Protocol.GunLimits
import Clyntis.Protocol.Hysteria2
import Clyntis.Protocol.QuicHeader
import Clyntis.Protocol.RecordBounded
import Clyntis.Protocol.VisionWrite
import Clyntis.Protocol.WsRead
import Clyntis.Protocol.XudpCodec
import Clyntis.Protocol.XudpFailure
import Clyntis.Tailscale.Derp
import Clyntis.Tailscale.GateShape
import Clyntis.Tailscale.Identity
import Clyntis.Tailscale.Inbound

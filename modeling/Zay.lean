import Zay.Route.Stepping
import Zay.Route.IpSetRoundTrip
import Zay.Route.CustomRule
import Zay.OpenVpn.ControlLinkSoundness
import Zay.OpenVpn.ControlMuxReplay
import Zay.OpenVpn.ReplayExactness
import Zay.OpenVpn.DataKeyRingSoundness
import Zay.OpenVpn.MssFix
import Zay.OpenVpn.IpPoolSoundness
import Zay.Dns.CacheLru
import Zay.Dns.FakeIpSoundness
import Zay.Dns.LegacyMatch
import Zay.Dns.RaceOrder
import Zay.Shadowsocks.ReplayProtection
import Zay.OpenConnect.EspSoundness
import Zay.OpenConnect.PppOpening
import Zay.Inbound.TunRouteDistinct
import Zay.Inbound.UdpSession
import Zay.Tailscale.NodeKeyResign
import Zay.Tailscale.CompactionTransparency
import Zay.Tailscale.WireGuard
import Zay.AnyTls.ClientPool
import Zay.AnyTls.PaddingTransparency
import Zay.AnyTls.SessionIsolation
import Zay.Service.RealmSoundness
import Zay.Endpoint.Fragmentation
import Zay.Endpoint.UdpNatFilter
import Zay.ShadowTls.V3Chain
import Zay.Snell.SaltReplay
import Zay.Hysteria.UdpFragments
import Zay.Hysteria2.ObfsSend
import Zay.Endpoint.SelectorSearch
import Zay.Endpoint.ReturnPackets
import Zay.Naive.PaddingStream
import Zay.OpenVpn.PullFilter
import Zay.OpenVpn.ReliableOrder
import Zay.OpenConnect.Adler32
import Zay.Inbound.TunRouteLease
import Zay.OpenVpn.AdaptiveLzo
import Zay.Common.JsonComments

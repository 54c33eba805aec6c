import Zay.Net.IpText

/-! Networks and the addresses of connections (`common::network`). -/

namespace Zay.Net

inductive Network where
  | tcp
  | udp
  | icmp
  deriving Repr, DecidableEq

def Network.asStr : Network → String
  | .tcp => "tcp"
  | .udp => "udp"
  | .icmp => "icmp"

/-- `std::net::SocketAddr` without the flow label and scope of IPv6, which no rule reads. -/
structure SocketAddr where
  ip : IpAddr
  port : UInt16
  deriving Repr, DecidableEq

inductive SocksAddr where
  | ip (address : SocketAddr)
  | domain (host : String) (port : UInt16)
  deriving Repr, DecidableEq

namespace SocksAddr

/-- A host that reads as an IP address is one. -/
def new (host : String) (port : UInt16) : SocksAddr :=
  match parseIpAddr host with
  | some address => .ip { ip := address, port }
  | none => .domain host port

def host : SocksAddr → String
  | .ip address => address.ip.toString
  | .domain host _ => host

def port : SocksAddr → UInt16
  | .ip address => address.port
  | .domain _ port => port

end SocksAddr

end Zay.Net

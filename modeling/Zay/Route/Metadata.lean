import Zay.Net.SocksAddr

/-! What the router knows about a connection (`route::Metadata`). -/

namespace Zay.Route

open Net

/-- The fields that rules and the evaluators read; the maps of interface addresses are only
ever looked up.
-/
structure Metadata where
  queryType : Option UInt16
  ipVersion : Option UInt8
  inbound : String
  outbound : String
  source : Option SocksAddr
  destination : Option SocksAddr
  destinationAddresses : List IpAddr
  network : Option Network
  authUser : String
  protocol : String
  domain : String
  client : String
  processName : String
  processPath : String
  packageName : String
  user : String
  userId : Option Int
  clashMode : String
  networkType : String
  networkIsExpensive : Bool
  networkIsConstrained : Bool
  wifiSsid : String
  wifiBssid : String
  interfaceAddress : String → Option (List IpAddr)
  networkInterfaceAddress : String → Option (List IpAddr)
  defaultInterfaceAddress : List IpAddr
  preferredBy : List String
  sourceMacAddress : String
  sourceHostname : String

namespace Metadata

def default : Metadata where
  queryType := none
  ipVersion := none
  inbound := ""
  outbound := ""
  source := none
  destination := none
  destinationAddresses := []
  network := none
  authUser := ""
  protocol := ""
  domain := ""
  client := ""
  processName := ""
  processPath := ""
  packageName := ""
  user := ""
  userId := none
  clashMode := ""
  networkType := ""
  networkIsExpensive := false
  networkIsConstrained := false
  wifiSsid := ""
  wifiBssid := ""
  interfaceAddress := fun _ => none
  networkInterfaceAddress := fun _ => none
  defaultInterfaceAddress := []
  preferredBy := []
  sourceMacAddress := ""
  sourceHostname := ""

variable (metadata : Metadata)

/-- `Metadata::domain`: the discovered domain, or the destination's. -/
def domainName : Option String :=
  if metadata.domain ≠ "" then some metadata.domain
  else
    match metadata.destination with
    | some (.domain host _) => some host
    | _ => none

def destinationIp : Option IpAddr :=
  match metadata.destination with
  | some (.ip address) => some address.ip
  | _ => none

def sourceIp : Option IpAddr :=
  match metadata.source with
  | some (.ip address) => some address.ip
  | _ => none

/-- The same connection with other destination addresses. -/
def withAddresses (addresses : List IpAddr) : Metadata :=
  { metadata with destinationAddresses := addresses }

end Metadata

end Zay.Route

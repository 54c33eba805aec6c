import Zay.Net.Address

/-! DNS messages, as far as the program looks into them. Names are kept as the text that
`Name::to_utf8` gives; they compare without regard to letter case.
-/

namespace Zay.Dns

open Net

abbrev RecordType := UInt16

namespace RecordType

def a : RecordType := 1
def soa : RecordType := 6
def aaaa : RecordType := 28
def opt : RecordType := 41
def https : RecordType := 65

end RecordType

abbrev ResponseCode := UInt16

namespace ResponseCode

def noError : ResponseCode := 0

end ResponseCode

/-- The value of a service parameter, of which only address hints are read. -/
inductive SvcParamValue where
  | ipv4Hint (hints : List (BitVec 32))
  | ipv6Hint (hints : List (BitVec 128))
  | other (data : List UInt8)
  deriving Repr, DecidableEq

/-- Record data. Only addresses and the minimum of a `SOA` record are ever read. -/
inductive RData where
  | a (address : BitVec 32)
  | aaaa (address : BitVec 128)
  | soa (minimum : UInt32)
  | https (priority : UInt16) (target : String) (svcParams : List (UInt16 × SvcParamValue))
  | other (recordType : RecordType) (data : List UInt8)
  deriving Repr, DecidableEq

structure Record where
  name : String
  dnsClass : UInt16
  ttl : UInt32
  data : RData
  deriving Repr, DecidableEq

def Record.recordType (record : Record) : RecordType :=
  match record.data with
  | .a _ => .a
  | .aaaa _ => .aaaa
  | .soa _ => .soa
  | .https _ _ _ => .https
  | .other recordType _ => recordType

structure Query where
  name : String
  queryType : RecordType
  deriving Repr, DecidableEq

/-- The EDNS client subnet option. -/
structure ClientSubnet where
  address : IpAddr
  sourcePrefix : UInt8
  scopePrefix : UInt8
  deriving Repr, DecidableEq

inductive MessageType where
  | query
  | response
  deriving Repr, DecidableEq

/-- A message; of its EDNS part the client subnet option and the DNSSEC flag. -/
structure Message where
  id : UInt16
  messageType : MessageType
  opCode : UInt8
  authoritative : Bool
  recursionDesired : Bool
  recursionAvailable : Bool
  responseCode : ResponseCode
  queries : List Query
  answers : List Record
  authorities : List Record
  additionals : List Record
  clientSubnet : Option ClientSubnet
  dnssecOk : Bool
  deriving Repr, DecidableEq

/-- `Message::new`. -/
def Message.new (id : UInt16) (messageType : MessageType) (opCode : UInt8) : Message where
  id
  messageType
  opCode
  authoritative := false
  recursionDesired := false
  recursionAvailable := false
  responseCode := .noError
  queries := []
  answers := []
  authorities := []
  additionals := []
  clientSubnet := none
  dnssecOk := false

def SvcParamValue.addresses : SvcParamValue → List IpAddr
  | .ipv4Hint hints => hints.map .v4
  | .ipv6Hint hints => hints.map .v6
  | .other _ => []

def RData.addresses : RData → List IpAddr
  | .a address => [.v4 address]
  | .aaaa address => [.v6 address]
  | .https _ _ svcParams => svcParams.flatMap fun param => param.2.addresses
  | _ => []

def dnsResponseAddresses (response : Message) : List IpAddr :=
  if response.responseCode ≠ .noError then []
  else response.answers.flatMap fun record => record.data.addresses

/-- An address as the data of an `A` or `AAAA` record. -/
def RData.ofAddress : IpAddr → RData
  | .v4 address => .a address
  | .v6 address => .aaaa address

/-- A response that carries the given addresses and nothing else. -/
def Message.carrying (addresses : List IpAddr) : Message :=
  { Message.new 0 .response 0 with
    answers := addresses.map fun address =>
      { name := ".", dnsClass := 1, ttl := 0, data := .ofAddress address } }

end Zay.Dns

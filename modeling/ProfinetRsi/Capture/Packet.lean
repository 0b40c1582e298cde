import ProfinetRsi.Bytes
import ProfinetRsi.Capture.Extraction
import ProfinetRsi.Capture.File

/-!
# `ProfinetRsi.Capture.Packet`: from a frame to its TCP payload

Three layers, each a function from its bytes to what it carries: the link
header, with or without a VLAN tag, gives the network packet; an IPv4 packet
gives its datagram, without what pads a short frame; a TCP segment gives its
payload. Only TCP over IPv4 is of interest.
-/

set_option autoImplicit false

namespace ProfinetRsi

namespace LinkType

/-- The EtherType of an IPv4 packet. -/
def etherTypeIpv4 : Nat := 0x0800

/-- The EtherType in front of a VLAN tag. -/
def etherTypeVlan : Nat := 0x8100

/-- The loopback address family of an IPv4 packet. -/
def familyIpv4 : Nat := 2

/-- The network packet behind an Ethernet header and its EtherType, which stands
in the tag if there is one. -/
def ethernetPacket (data : Bytes) : Extraction Bytes := do
  Extraction.check (14 ≤ data.length) .shortEthernetHeader
  let etherType := data.wordAt 12 2
  let rest := data.drop 14
  if etherType = etherTypeVlan then
    Extraction.check (4 ≤ rest.length) .shortVlanTag
    Extraction.require (Bytes.wordAt rest 2 2 == etherTypeIpv4)
    return rest.drop 4
  else
    Extraction.require (etherType == etherTypeIpv4)
    return rest

/-- The network packet behind a loopback header, whose number is written in the
order of the file. -/
def loopbackPacket (order : ByteOrder) (data : Bytes) : Extraction Bytes := do
  Extraction.check (4 ≤ data.length) .shortLoopbackHeader
  Extraction.require (order.number (data.slice 0 4) == familyIpv4)
  return data.drop 4

/-- The network packet in a frame. -/
def packet (linkType : LinkType) (order : ByteOrder) (data : Bytes) : Extraction Bytes :=
  match linkType with
  | .ethernet => ethernetPacket data
  | .loopback => loopbackPacket order data
  | .raw => .found data

end LinkType

/-- A TCP segment between two IPv4 addresses, not yet taken apart. -/
structure Datagram where
  source : BitVec 32
  destination : BitVec 32
  segment : Bytes
deriving DecidableEq, Repr

namespace Datagram

/-- The protocol number of TCP. -/
def protocolTcp : UInt8 := 6

/-- The number of bytes of an IPv4 header without options. -/
def minHeaderSize : Nat := 20

/-- The datagram of a network packet. Its total length bounds it, because a short
Ethernet frame is padded. -/
def ofPacket (packet : Bytes) : Extraction Datagram := do
  Extraction.check (minHeaderSize ≤ packet.length) .shortIpv4Header
  Extraction.require (packet.wordAt 0 1 / 16 == 4 && packet.getD 9 0 == protocolTcp)
  let headerLength := packet.wordAt 0 1 % 16 * 4
  let total := min (packet.wordAt 2 2) packet.length
  Extraction.check (minHeaderSize ≤ headerLength && headerLength ≤ total)
    (.ipv4HeaderLength headerLength total)
  return {
    source := BitVec.ofNat 32 (packet.wordAt 12 4)
    destination := BitVec.ofNat 32 (packet.wordAt 16 4)
    segment := (packet.take total).drop headerLength }

end Datagram

/-- The ports and the payload of a TCP segment. -/
structure Segment where
  sourcePort : UInt16
  destinationPort : UInt16
  payload : Bytes
deriving DecidableEq, Repr

namespace Segment

/-- The number of bytes of a TCP header without options. -/
def minHeaderSize : Nat := 20

/-- Takes a TCP segment apart if one of its ports is listed. -/
def ofBytes (ports : List UInt16) (bytes : Bytes) : Extraction Segment := do
  Extraction.check (minHeaderSize ≤ bytes.length) .shortTcpHeader
  let sourcePort := UInt16.ofNat (bytes.wordAt 0 2)
  let destinationPort := UInt16.ofNat (bytes.wordAt 2 2)
  Extraction.require (ports.contains sourcePort || ports.contains destinationPort)
  let offset := bytes.wordAt 12 1 / 16 * 4
  Extraction.check (minHeaderSize ≤ offset && offset ≤ bytes.length) (.tcpDataOffset offset)
  return { sourcePort, destinationPort, payload := bytes.drop offset }

end Segment

end ProfinetRsi

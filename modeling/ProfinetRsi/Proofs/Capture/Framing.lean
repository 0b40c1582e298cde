import ProfinetRsi.Proofs.Capture.Records
import ProfinetRsi.Proofs.Pdu.Encoding

/-!
# `ProfinetRsi.Proofs.Capture.Framing`: what is around a TCP payload does not matter

The same TCP payload can be captured in many ways: behind an Ethernet header with or without
a VLAN tag, behind a loopback header, or bare; with options in the IPv4 and in the TCP header;
and with bytes behind the datagram, where a short Ethernet frame was padded. A `Framing` is
all of that, and `Framing.bytes` is the frame that it makes of a TCP payload.

* `LinkHeader.packet_bytes`, `Ipv4Header.ofPacket_bytes`, `TcpHeader.ofBytes_bytes`: each
  layer gives back what was put into it, and nothing of what is around that.
* `ofFrame_bytes`: what is found in a frame, in terms of the payload.
* `ofFrame_framing`: two framings of one payload give the same.
-/

set_option autoImplicit false

namespace ProfinetRsi

namespace Bytes

variable {buffer : Bytes} {offset : Nat} {byte : UInt8}

/-- The number that a single byte is. -/
theorem wordAt_of_holdsAt_byte (holds : buffer.HoldsAt offset [byte]) :
    buffer.wordAt offset 1 = byte.toNat := by
  have hword := holds.wordAt_eq
  rw [bigEndian_singleton] at hword
  exact hword

/-- The byte that stands at an offset. -/
theorem getD_of_holdsAt (holds : buffer.HoldsAt offset [byte]) : buffer.getD offset 0 = byte := by
  obtain ⟨before, behind, rfl, rfl⟩ := holds
  simp

end Bytes

/-! ### Link headers -/

namespace LinkType

/-- What is behind a loopback header hangs on the family alone, in whatever order it is
written. -/
theorem loopbackPacket_bytes (order : ByteOrder) {family : Nat} (bound : family < 256 ^ 4)
    (packet : Bytes) :
    loopbackPacket order (order.bytes 4 family ++ packet) = (do
      Extraction.require (family == familyIpv4)
      return packet) := by
  have hlength := ByteOrder.length_bytes order 4 family
  have hslice : Bytes.slice (order.bytes 4 family ++ packet) 0 4 = order.bytes 4 family :=
    List.take_left' hlength
  unfold loopbackPacket
  rw [Extraction.check_bind (by simp [hlength]), hslice, ByteOrder.number_bytes,
    Nat.mod_eq_of_lt bound, List.drop_left' hlength]

end LinkType

/-- What stands in front of an IPv4 packet in a captured frame. -/
inductive LinkHeader where
  | ethernet (destination source : BitVec 48)
  /-- An Ethernet header with a VLAN tag of the given control information. -/
  | tagged (destination source : BitVec 48) (control : UInt16)
  | loopback
  | raw
deriving DecidableEq, Repr

namespace LinkHeader

/-- The link type of a file with such frames. -/
def linkType : LinkHeader → LinkType
  | .ethernet _ _ | .tagged _ _ _ => .ethernet
  | .loopback => .loopback
  | .raw => .raw

/-- The two addresses and the EtherType of an Ethernet header. -/
def ethernetBytes (destination source : BitVec 48) (etherType : Nat) : Bytes :=
  Bytes.ofBigEndian 6 destination.toNat ++ Bytes.ofBigEndian 6 source.toNat
    ++ Bytes.ofBigEndian 2 etherType

/-- A VLAN tag, with the EtherType of what is behind it. -/
def tagBytes (control : UInt16) (etherType : Nat) : Bytes :=
  Bytes.ofBigEndian 2 control.toNat ++ Bytes.ofBigEndian 2 etherType

/-- The header as it stands in a file of the given order. -/
def bytes (order : ByteOrder) : LinkHeader → Bytes
  | .ethernet destination source => ethernetBytes destination source LinkType.etherTypeIpv4
  | .tagged destination source control =>
    ethernetBytes destination source LinkType.etherTypeVlan
      ++ tagBytes control LinkType.etherTypeIpv4
  | .loopback => order.bytes 4 LinkType.familyIpv4
  | .raw => []

theorem length_ethernetBytes (destination source : BitVec 48) (etherType : Nat) :
    (ethernetBytes destination source etherType).length = 14 := by
  simp [ethernetBytes]

theorem length_tagBytes (control : UInt16) (etherType : Nat) :
    (tagBytes control etherType).length = 4 := by
  simp [tagBytes]

/-- The EtherType of a frame is the number behind the two addresses. -/
theorem wordAt_ethernetBytes (destination source : BitVec 48) {etherType : Nat}
    (small : etherType < 65536) (behind : Bytes) :
    Bytes.wordAt (ethernetBytes destination source etherType ++ behind) 12 2 = etherType := by
  refine Bytes.wordAt_ofBigEndian ⟨Bytes.ofBigEndian 6 destination.toNat
    ++ Bytes.ofBigEndian 6 source.toNat, behind, rfl, ?_⟩ (by omega)
  simp

/-- The EtherType of a tagged frame is the number behind the control information. -/
theorem wordAt_tagBytes (control : UInt16) {etherType : Nat} (small : etherType < 65536)
    (behind : Bytes) : Bytes.wordAt (tagBytes control etherType ++ behind) 2 2 = etherType :=
  Bytes.wordAt_ofBigEndian ⟨Bytes.ofBigEndian 2 control.toNat, behind, rfl, by simp⟩ (by omega)

/-- A link header gives the packet behind it. -/
theorem packet_bytes (link : LinkHeader) (order : ByteOrder) (packet : Bytes) :
    link.linkType.packet order (link.bytes order ++ packet) = .found packet := by
  cases link with
  | ethernet destination source =>
      have hlength := length_ethernetBytes destination source LinkType.etherTypeIpv4
      have htype := wordAt_ethernetBytes destination source
        (show LinkType.etherTypeIpv4 < 65536 by decide) packet
      show LinkType.ethernetPacket (ethernetBytes destination source LinkType.etherTypeIpv4
        ++ packet) = _
      unfold LinkType.ethernetPacket
      rw [Extraction.check_bind (by simp [hlength])]
      simp only [htype]
      rw [if_neg (by decide), Extraction.require_bind (by decide), List.drop_left' hlength]
      rfl
  | tagged destination source control =>
      have hlength := length_ethernetBytes destination source LinkType.etherTypeVlan
      have htag := length_tagBytes control LinkType.etherTypeIpv4
      have htype := wordAt_ethernetBytes destination source
        (show LinkType.etherTypeVlan < 65536 by decide)
        (tagBytes control LinkType.etherTypeIpv4 ++ packet)
      have hinner := wordAt_tagBytes control (show LinkType.etherTypeIpv4 < 65536 by decide) packet
      show LinkType.ethernetPacket (ethernetBytes destination source LinkType.etherTypeVlan
        ++ tagBytes control LinkType.etherTypeIpv4 ++ packet) = _
      unfold LinkType.ethernetPacket
      rw [List.append_assoc, Extraction.check_bind (by simp [hlength])]
      simp only [htype, List.drop_left' hlength, if_true, hinner]
      -- The tag takes the place of the EtherType, which stands at its end.
      rw [Extraction.check_bind (by simp [htag]), Extraction.require_bind (by decide),
        List.drop_left' htag]
      rfl
  | loopback =>
      show LinkType.loopbackPacket order (order.bytes 4 LinkType.familyIpv4 ++ packet) = _
      rw [LinkType.loopbackPacket_bytes order (by decide), Extraction.require_bind (by decide)]
      rfl
  | raw => rfl

end LinkHeader

/-! ### IPv4 and TCP headers -/

/-- The options of a header: up to ten words of four bytes each. -/
structure HeaderOptions where
  bytes : Bytes
  words : Nat
  length : bytes.length = words * 4
  few : words ≤ 10

/-- A header without options. -/
def HeaderOptions.none : HeaderOptions :=
  ⟨[], 0, rfl, by decide⟩

/-- The words of a header with these options, of which five are always there. -/
def HeaderOptions.headerWords (options : HeaderOptions) : Nat :=
  5 + options.words

/-- What an IPv4 header says besides the two addresses and the lengths. -/
structure Ipv4Header where
  service : UInt8
  identification : UInt16
  /-- The flags and the fragment offset. -/
  fragmentation : UInt16
  timeToLive : UInt8
  checksum : UInt16
  options : HeaderOptions

namespace Ipv4Header

/-- The number of bytes of the header. -/
def size (header : Ipv4Header) : Nat :=
  header.options.headerWords * 4

/-- The header of a TCP segment of `carried` bytes. -/
def bytes (header : Ipv4Header) (source destination : BitVec 32) (carried : Nat) : Bytes :=
  [UInt8.ofNat (4 * 16 + header.options.headerWords), header.service]
    ++ Bytes.ofBigEndian 2 (header.size + carried)
    ++ Bytes.ofBigEndian 2 header.identification.toNat
    ++ Bytes.ofBigEndian 2 header.fragmentation.toNat
    ++ [header.timeToLive, Datagram.protocolTcp]
    ++ Bytes.ofBigEndian 2 header.checksum.toNat
    ++ Bytes.ofBigEndian 4 source.toNat ++ Bytes.ofBigEndian 4 destination.toNat
    ++ header.options.bytes

theorem length_bytes (header : Ipv4Header) (source destination : BitVec 32) (carried : Nat) :
    (header.bytes source destination carried).length = header.size := by
  have hoptions := header.options.length
  simp only [bytes, size, HeaderOptions.headerWords, List.length_append, List.length_cons,
    List.length_nil, Bytes.length_ofBigEndian]
  omega

/-- A TCP segment is found behind its IPv4 header, without the bytes behind the datagram. -/
theorem ofPacket_bytes (header : Ipv4Header) (source destination : BitVec 32)
    (segment padding : Bytes) (fits : header.size + segment.length < 65536) :
    Datagram.ofPacket (header.bytes source destination segment.length ++ (segment ++ padding))
      = .found ⟨source, destination, segment⟩ := by
  have hfew := header.options.few
  have hsize : header.size = header.options.headerWords * 4 := rfl
  have hwords : header.options.headerWords = 5 + header.options.words := rfl
  have hlength := header.length_bytes source destination segment.length
  generalize hpacket : header.bytes source destination segment.length ++ (segment ++ padding)
    = packet
  have hpacketLength : packet.length = header.size + (segment.length + padding.length) := by
    rw [← hpacket, List.length_append, List.length_append, hlength]
  have hparts : packet.HoldsAt 0
      ([UInt8.ofNat (4 * 16 + header.options.headerWords)] ++ ([header.service]
        ++ (Bytes.ofBigEndian 2 (header.size + segment.length)
        ++ (Bytes.ofBigEndian 2 header.identification.toNat
        ++ (Bytes.ofBigEndian 2 header.fragmentation.toNat
        ++ ([header.timeToLive] ++ ([Datagram.protocolTcp]
        ++ (Bytes.ofBigEndian 2 header.checksum.toNat
        ++ (Bytes.ofBigEndian 4 source.toNat ++ Bytes.ofBigEndian 4 destination.toNat)))))))))
      := by
    refine ⟨[], header.options.bytes ++ (segment ++ padding), ?_, rfl⟩
    simp [← hpacket, bytes]
  -- Each field stands behind those before it, at its own offset.
  have hfirst := Bytes.wordAt_of_holdsAt_byte hparts.left
  have htotal := Bytes.wordAt_ofBigEndian hparts.right.right.left (by omega)
  have hbehind := hparts.right.right.right.right.right.right
  have hprotocol := Bytes.getD_of_holdsAt hbehind.left
  have hsource := Bytes.wordAt_ofBigEndian hbehind.right.right.left source.isLt
  have hdestination := Bytes.wordAt_ofBigEndian hbehind.right.right.right destination.isLt
  simp only [Bytes.length_ofBigEndian, List.length_singleton, Nat.reduceAdd, Nat.zero_add]
    at hfirst htotal hprotocol hsource hdestination
  rw [UInt8.toNat_ofNat_of_lt' (show 4 * 16 + header.options.headerWords < 256 by omega)] at hfirst
  -- The total length is that of the datagram, however many bytes are behind it.
  have hmin : min (header.size + segment.length) packet.length = header.size + segment.length := by
    omega
  have hversion : (4 * 16 + header.options.headerWords) / 16 = 4 := by omega
  have hheader : (4 * 16 + header.options.headerWords) % 16 * 4 = header.size := by omega
  have hsegment : (packet.take (header.size + segment.length)).drop header.size = segment := by
    rw [← hpacket, ← List.append_assoc, List.take_left' (by rw [List.length_append, hlength]),
      List.drop_left' hlength]
  have hlong : Datagram.minHeaderSize ≤ packet.length := by
    show 20 ≤ packet.length
    omega
  have hsound : Datagram.minHeaderSize ≤ header.size
      ∧ header.size ≤ header.size + segment.length := by
    show 20 ≤ header.size ∧ _
    omega
  unfold Datagram.ofPacket
  simp only [hfirst, htotal, hprotocol, hsource, hdestination, hmin, hversion, hheader, hsegment,
    BitVec.ofNat_toNat, BitVec.setWidth_eq]
  rw [Extraction.check_bind (by simpa using hlong), Extraction.require_bind (by simp),
    Extraction.check_bind (by simpa using hsound)]
  rfl

end Ipv4Header

/-- What a TCP header says besides the two ports and its length. -/
structure TcpHeader where
  sequence : UInt32
  acknowledgement : UInt32
  /-- The reserved bits next to the length. -/
  reserved : Fin 16
  flags : UInt8
  window : UInt16
  checksum : UInt16
  urgent : UInt16
  options : HeaderOptions

namespace TcpHeader

/-- The number of bytes of the header. -/
def size (header : TcpHeader) : Nat :=
  header.options.headerWords * 4

/-- The header of a segment between two ports. -/
def bytes (header : TcpHeader) (source destination : UInt16) : Bytes :=
  Bytes.ofBigEndian 2 source.toNat ++ Bytes.ofBigEndian 2 destination.toNat
    ++ Bytes.ofBigEndian 4 header.sequence.toNat
    ++ Bytes.ofBigEndian 4 header.acknowledgement.toNat
    ++ [UInt8.ofNat (header.options.headerWords * 16 + header.reserved), header.flags]
    ++ Bytes.ofBigEndian 2 header.window.toNat ++ Bytes.ofBigEndian 2 header.checksum.toNat
    ++ Bytes.ofBigEndian 2 header.urgent.toNat ++ header.options.bytes

theorem length_bytes (header : TcpHeader) (source destination : UInt16) :
    (header.bytes source destination).length = header.size := by
  have hoptions := header.options.length
  simp only [bytes, size, HeaderOptions.headerWords, List.length_append, List.length_cons,
    List.length_nil, Bytes.length_ofBigEndian]
  omega

/-- A payload is found behind its TCP header if one of the two ports is listed. -/
theorem ofBytes_bytes (header : TcpHeader) (ports : List UInt16) (segment : Segment) :
    Segment.ofBytes ports
        (header.bytes segment.sourcePort segment.destinationPort ++ segment.payload)
      = if ports.contains segment.sourcePort || ports.contains segment.destinationPort then
          .found segment
        else .absent := by
  obtain ⟨source, destination, payload⟩ := segment
  have hfew := header.options.few
  have hsize : header.size = header.options.headerWords * 4 := rfl
  have hwords : header.options.headerWords = 5 + header.options.words := rfl
  have hlength := header.length_bytes source destination
  have hpayload : (header.bytes source destination ++ payload).drop header.size = payload :=
    List.drop_left' hlength
  generalize hbytes : header.bytes source destination ++ payload = bytes at hpayload ⊢
  have hbytesLength : bytes.length = header.size + payload.length := by
    rw [← hbytes, List.length_append, hlength]
  have hparts : Bytes.HoldsAt bytes 0
      (Bytes.ofBigEndian 2 source.toNat ++ (Bytes.ofBigEndian 2 destination.toNat
        ++ (Bytes.ofBigEndian 4 header.sequence.toNat
        ++ (Bytes.ofBigEndian 4 header.acknowledgement.toNat
        ++ [UInt8.ofNat (header.options.headerWords * 16 + header.reserved)])))) := by
    refine ⟨[], [header.flags] ++ (Bytes.ofBigEndian 2 header.window.toNat
      ++ (Bytes.ofBigEndian 2 header.checksum.toNat
      ++ (Bytes.ofBigEndian 2 header.urgent.toNat ++ (header.options.bytes ++ payload)))), ?_, rfl⟩
    simp [← hbytes, TcpHeader.bytes]
  have hsource := Bytes.ofNat_wordAt hparts.left
  have hdestination := Bytes.ofNat_wordAt hparts.right.left
  have hoffset := Bytes.wordAt_of_holdsAt_byte hparts.right.right.right.right
  simp only [Bytes.length_ofBigEndian, Nat.reduceAdd, Nat.zero_add] at hdestination hoffset
  -- The length of the header shares its byte with four reserved bits, which do not count.
  have hreserved := header.reserved.isLt
  rw [UInt8.toNat_ofNat_of_lt' (show header.options.headerWords * 16 + header.reserved < 256 by
    omega)] at hoffset
  have hheader : (header.options.headerWords * 16 + header.reserved) / 16 * 4 = header.size := by
    omega
  have hlong : Segment.minHeaderSize ≤ bytes.length := by
    show 20 ≤ bytes.length
    omega
  have hsound : Segment.minHeaderSize ≤ header.size ∧ header.size ≤ bytes.length := by
    show 20 ≤ header.size ∧ _
    omega
  unfold Segment.ofBytes
  simp only [hsource, hdestination, hoffset, hheader, hpayload]
  rw [Extraction.check_bind (by simpa using hlong)]
  by_cases hlisted : (ports.contains source || ports.contains destination) = true
  · rw [if_pos hlisted, Extraction.require_bind hlisted,
      Extraction.check_bind (by simpa using hsound)]
    rfl
  · rw [if_neg hlisted, Extraction.require, if_neg hlisted]
    rfl

end TcpHeader

/-! ### Frames -/

/-- All that is around a TCP payload in a captured frame. -/
structure Framing where
  link : LinkHeader
  network : Ipv4Header
  transport : TcpHeader
  /-- What follows the datagram. -/
  padding : Bytes

namespace Framing

/-- The least that is around a payload: a packet without a link header, without options and
without padding. -/
def bare : Framing where
  link := .raw
  network := ⟨0, 0, 0, 64, 0, .none⟩
  transport := ⟨0, 0, 0, 0x10, 0, 0, 0, .none⟩
  padding := []

/-- The length of the datagram with this payload fits 16 bits. -/
def Fits (framing : Framing) (payload : Bytes) : Prop :=
  framing.network.size + framing.transport.size + payload.length < 65536

/-- The segment with its TCP header. -/
def segmentBytes (framing : Framing) (segment : Segment) : Bytes :=
  framing.transport.bytes segment.sourcePort segment.destinationPort ++ segment.payload

/-- The frame around a segment between two addresses, in a file of the given order. -/
def bytes (framing : Framing) (order : ByteOrder) (source destination : BitVec 32)
    (segment : Segment) : Bytes :=
  framing.link.bytes order
    ++ (framing.network.bytes source destination (framing.segmentBytes segment).length
      ++ (framing.segmentBytes segment ++ framing.padding))

end Framing

namespace RsiSegment

/-- What is found in a frame is what its segment gives, if one of the ports is listed. -/
theorem ofFrame_bytes {framing : Framing} {segment : Segment} (fits : framing.Fits segment.payload)
    (order : ByteOrder) (ports : List UInt16) (source destination : BitVec 32) :
    ofFrame framing.link.linkType order ports (framing.bytes order source destination segment)
      = if ports.contains segment.sourcePort || ports.contains segment.destinationPort then
          ofSegment source destination segment
        else .absent := by
  have hlink := framing.link.packet_bytes order
    (framing.network.bytes source destination (framing.segmentBytes segment).length
      ++ (framing.segmentBytes segment ++ framing.padding))
  have hnetwork := framing.network.ofPacket_bytes source destination
    (framing.segmentBytes segment) framing.padding (by
      have hlength := framing.transport.length_bytes segment.sourcePort segment.destinationPort
      simp only [Framing.Fits, Framing.segmentBytes, List.length_append] at fits ⊢
      omega)
  have htransport : Segment.ofBytes ports (framing.segmentBytes segment) = _ :=
    framing.transport.ofBytes_bytes ports segment
  split
  case isTrue hlisted =>
    rw [if_pos hlisted] at htransport
    exact ofFrame_of_found hlink hnetwork htransport
  case isFalse hunlisted =>
    -- The frame is of no interest before its payload is looked at.
    rw [if_neg hunlisted] at htransport
    unfold ofFrame Framing.bytes
    rw [hlink, Extraction.found_bind, hnetwork, Extraction.found_bind, htransport,
      Extraction.absent_bind]

/-- **What is around a TCP payload does not matter.** Two frames carry the same payload between
the same two ports and addresses, each in a framing of its own: another link header, in a file
of another byte order; other options and other fields in the IPv4 and TCP headers; other bytes
behind the datagram. Then the same is found in both: nothing if neither port is listed, and
what the segment gives otherwise. -/
theorem ofFrame_framing {framing other : Framing} {segment : Segment}
    (fits : framing.Fits segment.payload) (otherFits : other.Fits segment.payload)
    (order otherOrder : ByteOrder) (ports : List UInt16) (source destination : BitVec 32) :
    ofFrame framing.link.linkType order ports (framing.bytes order source destination segment)
        = ofFrame other.link.linkType otherOrder ports
            (other.bytes otherOrder source destination segment)
      ∧ ofFrame framing.link.linkType order ports (framing.bytes order source destination segment)
        = if ports.contains segment.sourcePort || ports.contains segment.destinationPort then
            ofSegment source destination segment
          else .absent := by
  rw [ofFrame_bytes fits, ofFrame_bytes otherFits]
  exact ⟨rfl, rfl⟩

/-- A tagged Ethernet frame with options in both headers and bytes of padding, and a loopback
frame without any of that, in a file of the other byte order. -/
theorem ofFrame_framing_tagged :
    let framing : Framing := {
      link := .tagged 0x020000000020 0x020000000010 0xE005
      network := ⟨0, 7, 0x4000, 64, 0xABCD, ⟨[148, 4, 0, 0], 1, rfl, by decide⟩⟩
      transport := ⟨1, 2, 0, 0x18, 4096, 0, 0, ⟨[2, 4, 5, 180, 1, 1, 4, 2], 2, rfl, by decide⟩⟩
      padding := [0, 0, 3] }
    let other : Framing := {
      link := .loopback
      network := ⟨16, 0, 0, 1, 0, .none⟩
      transport := ⟨0, 0, 15, 0x10, 0, 9, 9, .none⟩
      padding := [] }
    let segment : Segment := ⟨49152, 102, [3, 0, 0, 8, 2, 0xF0, 0x80, 0xAA]⟩
    framing.Fits segment.payload ∧ other.Fits segment.payload
      ∧ ofFrame framing.link.linkType .little [102]
          (framing.bytes .little 0xC0A8000A 0xC0A80014 segment)
        = ofFrame other.link.linkType .big [102] (other.bytes .big 0xC0A8000A 0xC0A80014 segment)
      ∧ ofFrame framing.link.linkType .little [102]
          (framing.bytes .little 0xC0A8000A 0xC0A80014 segment)
        = .found ⟨0xC0A8000A, 0xC0A80014, 49152, 102, [[0xAA]]⟩ := by
  intro framing other segment
  have hfits : framing.Fits segment.payload := by
    unfold Framing.Fits
    decide
  have hotherFits : other.Fits segment.payload := by
    unfold Framing.Fits
    decide
  obtain ⟨hsame, hfound⟩ := ofFrame_framing hfits hotherFits .little .big [102] 0xC0A8000A
    0xC0A80014
  refine ⟨hfits, hotherFits, hsame, ?_⟩
  rw [hfound]
  decide +kernel

end RsiSegment

end ProfinetRsi

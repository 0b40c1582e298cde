/-!
# `ProfinetRsi.Capture.Extraction`: looking for PDUs in a frame

A frame is taken apart layer by layer. At each layer it may turn out not to
carry RSI at all, which is no fault, or to be damaged, which is reported with
the layer at which it happened.
-/

set_option autoImplicit false

namespace ProfinetRsi

/-- The layer at which a frame is being taken apart. -/
inductive Layer where
  | link
  | ip
  | tcp
  | tpkt
  | cotp
deriving DecidableEq, Repr

/-- The layer as it is printed. -/
def Layer.name : Layer → String
  | .link => "FrameHeader"
  | .ip => "IpHeader"
  | .tcp => "TcpHeader"
  | .tpkt => "Tpkt"
  | .cotp => "Cotp"

/-- What is wrong with a frame. -/
inductive ExtractionError where
  | shortEthernetHeader
  | shortVlanTag
  | shortLoopbackHeader
  | shortIpv4Header
  /-- The IPv4 header and the datagram of `total` bytes do not fit each other. -/
  | ipv4HeaderLength (length total : Nat)
  | shortTcpHeader
  | tcpDataOffset (offset : Nat)
  | shortTpktHeader (left : Nat)
  | tpktVersion (version : Nat)
  | tpktLength (length left : Nat)
  | emptyTpdu
  | cotpIndicator (indicator : Nat)
deriving DecidableEq, Repr

namespace ExtractionError

/-- The layer at which the error arises. -/
def layer : ExtractionError → Layer
  | .shortEthernetHeader | .shortVlanTag | .shortLoopbackHeader => .link
  | .shortIpv4Header | .ipv4HeaderLength _ _ => .ip
  | .shortTcpHeader | .tcpDataOffset _ => .tcp
  | .shortTpktHeader _ | .tpktVersion _ | .tpktLength _ _ => .tpkt
  | .emptyTpdu | .cotpIndicator _ => .cotp

/-- The error as it is printed. -/
def message : ExtractionError → String
  | .shortEthernetHeader => "frame too small for Ethernet header"
  | .shortVlanTag => "frame too small for VLAN tag"
  | .shortLoopbackHeader => "frame too small for Loopback header"
  | .shortIpv4Header => "frame too small for IPv4 header"
  | .ipv4HeaderLength length total => s!"bad IPv4 header length {length} (total {total})"
  | .shortTcpHeader => "datagram too small for TCP header"
  | .tcpDataOffset offset => s!"bad TCP data offset {offset}"
  | .shortTpktHeader left => s!"{left} bytes left, too small for TPKT header"
  | .tpktVersion version => s!"unexpected TPKT version {version}"
  | .tpktLength length left => s!"TPKT length {length} exceeds {left} captured bytes"
  | .emptyTpdu => "empty COTP TPDU"
  | .cotpIndicator indicator => s!"COTP length indicator {indicator} exceeds the TPDU"

end ExtractionError

/-- What looking for something in a frame comes to. -/
inductive Extraction (α : Type) where
  | found (value : α)
  /-- The frame carries something else. -/
  | absent
  | damaged (error : ExtractionError)
deriving DecidableEq, Repr

namespace Extraction

instance : Monad Extraction where
  pure := .found
  bind extraction next :=
    match extraction with
    | .found value => next value
    | .absent => .absent
    | .damaged error => .damaged error

/-- Goes on only if the frame is still of interest. -/
def require (condition : Bool) : Extraction Unit :=
  if condition then .found () else .absent

/-- Goes on only if the frame is sound. -/
def check (condition : Bool) (error : ExtractionError) : Extraction Unit :=
  if condition then .found () else .damaged error

end Extraction

end ProfinetRsi

import ProfinetRsi.Pdu.Header
import ProfinetRsi.Pdu.Opnum

/-!
# `ProfinetRsi.Pdu.Block`: the blocks of requests and responses

A block has fixed fields, carried by the first fragment of a message only, and
an application payload behind them. `RsiBlock` is the typed content of the fixed
fields; `Fragment` is what decides whether a PDU carries any payload.
-/

set_option autoImplicit false

namespace ProfinetRsi

/-- The identity of an RSI instance. -/
structure Endpoint where
  vendorId : UInt16
  deviceId : UInt16
  instanceId : UInt16
  rsiInterface : UInt8
deriving DecidableEq, Repr

/-- The outcome of a call; all four bytes are zero on success. -/
structure PnioStatus where
  errorCode : UInt8
  errorDecode : UInt8
  errorCode1 : UInt8
  errorCode2 : UInt8
deriving DecidableEq, Repr

namespace PnioStatus

/-- The number of bytes of a status. -/
def size : Nat := 4

/-- The four bytes as they are sent. -/
def bytes (status : PnioStatus) : Bytes :=
  [status.errorCode, status.errorDecode, status.errorCode1, status.errorCode2]

/-- The status as one number. -/
def number (status : PnioStatus) : Nat :=
  Bytes.bigEndian status.bytes

/-- Whether the call succeeded. -/
def isOk (status : PnioStatus) : Bool :=
  status.bytes.all (· == 0)

end PnioStatus

/-- The fixed fields of a block. They are absent in all fragments but the first. -/
inductive RsiBlock where
  | connection (rspMaxLength : Option UInt32) (endpoint : Option Endpoint)
  | service (rspMaxLength : Option UInt32)
  | securityAssociationControl (rspMaxLength : Option UInt32) (endpoint : Option Endpoint)
  | response (status : Option PnioStatus)
deriving DecidableEq, Repr

/-- The layout of a request's block. -/
inductive RequestLayout where
  | connection
  | service
  | securityAssociationControl
deriving DecidableEq, Repr

namespace RequestLayout

/-- The layout of a request for `opnum`. The destination alone tells the two
layouts of a connect request apart. No layout belongs to a reserved number. -/
def ofOpnum? (opnum : Opnum) (destination : UInt16) : Option RequestLayout :=
  match opnum with
  | .connect =>
    if destination = AccessPoints.connectionPoint then some .service else some .connection
  | .readImplicit | .readConnectionless => some .connection
  | .securityAssociationControl => some .securityAssociationControl
  | .reserved _ => none
  | _ => some .service

/-- Whether an endpoint identity belongs to the fixed fields. A security
association names its endpoint only towards the connection access point. -/
def hasEndpoint (layout : RequestLayout) (destination : UInt16) : Bool :=
  match layout with
  | .connection => true
  | .service => false
  | .securityAssociationControl => destination == AccessPoints.connectionPoint

/-- The search key of the block's node. -/
def key : RequestLayout → String
  | .connection => "pn_rsi.conn_block"
  | .service => "pn_rsi.svcs_block"
  | .securityAssociationControl => "pn_rsi.security_association_control"

/-- The label of the block's node. -/
def label : RequestLayout → String
  | .connection => "RSI CONN Block"
  | .service => "RSI SVCS Block"
  | .securityAssociationControl => "RSI Security Association Control"

/-- The remark of a last fragment, whose fixed fields came with the first. -/
def laterFragmentText : RequestLayout → String
  | .connection => ", RSI Header of CONN is at first segment"
  | .service => ", RSI Header of SVCS is at first segment"
  | .securityAssociationControl =>
    ", RSI Header of SecurityAssociationControl is at first segment"

/-- The block with these fixed fields. -/
def block (layout : RequestLayout) (rspMaxLength : Option UInt32) (endpoint : Option Endpoint) :
    RsiBlock :=
  match layout with
  | .connection => .connection rspMaxLength endpoint
  | .service => .service rspMaxLength
  | .securityAssociationControl => .securityAssociationControl rspMaxLength endpoint

end RequestLayout

/-- The place of one PDU in its message. -/
structure Fragment where
  varPartLength : UInt16
  /-- Further fragments of the message follow. -/
  moreFragments : Bool
  word : OpnumWord
  kind : MessageKind
deriving DecidableEq, Repr

namespace Fragment

/-- The place of the PDU with `header` and `word`. -/
def ofHeader (header : Header) (word : OpnumWord) (kind : MessageKind) : Fragment where
  varPartLength := header.varPartLength
  moreFragments := header.addFlags.moreFragments
  word
  kind

/-- The fragment's offset plus its variable part, less the FOpnumOffset word and
four bytes of block header. A value that is not positive means no payload. -/
def payloadLength (fragment : Fragment) : Int :=
  (fragment.word.offset : Int) + fragment.varPartLength.toNat - 4 - 4

/-- Whether the fixed fields of the block are in this fragment. -/
def isFirst (fragment : Fragment) : Bool :=
  fragment.word.offset == 0

end Fragment

end ProfinetRsi

import ProfinetRsi.Field.Security

/-!
# `ProfinetRsi.Pdu.Security`: the security envelope

A secured PDU has eight bytes of metadata in front. In authentication-only mode
the PDU itself stays readable and a checksum of sixteen bytes follows it; in
authenticated encryption everything behind the access points is opaque.
-/

set_option autoImplicit false

namespace ProfinetRsi

/-- What the envelope protects. -/
inductive ProtectionMode where
  | authenticationOnly
  | authenticatedEncryption
deriving DecidableEq, Repr

/-- The lowest bit of the security information selects the mode. -/
def ProtectionMode.ofByte (byte : UInt8) : ProtectionMode :=
  if byte.toNat % 2 = 0 then .authenticationOnly else .authenticatedEncryption

/-- The typed content of the security metadata. -/
structure SecurityMetadata where
  protectionMode : ProtectionMode
  generationNumber : UInt8
  sequenceCounter : UInt32
  securityLength : UInt16
deriving DecidableEq, Repr

namespace SecurityMetadata

/-- The number of bytes of the metadata. -/
def size : Nat := 8

/-- The number of bytes of the checksum behind an authenticated PDU. -/
def checksumSize : Nat := 16

/-- The metadata held by the four words of the envelope. -/
def ofWords (information control : UInt8) (sequenceCounter : UInt32) (length : UInt16) :
    SecurityMetadata where
  protectionMode := .ofByte information
  generationNumber := UInt8.ofNat (Fields.generationNumber.extract control.toNat)
  sequenceCounter
  securityLength := UInt16.ofNat (Fields.securityLengthLength.extract length.toNat)

end SecurityMetadata

/-- Whether a PDU is sent as it is or inside the security envelope. -/
inductive Envelope where
  | plain
  | secured
deriving DecidableEq, Repr

namespace Envelope

/-- The protocol's short name. -/
def protocol : Envelope → String
  | .plain => "PNIO-RSI"
  | .secured => "PNIO-RSIsec"

/-- The label of the tree's root. -/
def rootLabel : Envelope → String
  | .plain => "PROFINET IO RSI"
  | .secured => "PROFINET IO RSI with Security"

end Envelope

end ProfinetRsi

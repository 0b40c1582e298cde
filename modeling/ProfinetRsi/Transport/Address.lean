import ProfinetRsi.Bytes
import ProfinetRsi.Text.Hex

/-!
# `ProfinetRsi.Transport.Address`: network addresses

An address is the number that its bytes spell, so that comparing bytes from the
left is comparing numbers. Addresses of different families are ordered by
family: no address, IPv4, IPv6, then Ethernet.

IPv6 text follows the canonical form: lower-case groups without leading zeros,
and `::` for the first of the longest runs of two or more zero groups. An
address that maps an IPv4 address keeps the dotted form at its end.
-/

set_option autoImplicit false

namespace ProfinetRsi

/-- The network address of a frame's sender or receiver. -/
inductive Address where
  | none
  | ipv4 (address : BitVec 32)
  | ipv6 (address : BitVec 128)
  | ether (address : BitVec 48)
deriving DecidableEq, Repr

namespace Address

/-- The position of the address's family in the order of families. -/
def family : Address → Nat
  | .none => 0
  | .ipv4 _ => 1
  | .ipv6 _ => 2
  | .ether _ => 3

/-- The address as a number, within its family. -/
def number : Address → Nat
  | .none => 0
  | .ipv4 address => address.toNat
  | .ipv6 address => address.toNat
  | .ether address => address.toNat

/-- Family and number together determine the address. -/
theorem eq_of_family_of_number {a b : Address} (family : a.family = b.family)
    (number : a.number = b.number) : a = b := by
  cases a <;> cases b <;> simp_all [Address.family, Address.number, BitVec.toNat_eq]

/-- The IPv4 address with these four bytes. -/
def ofIpv4 (bytes : Bytes) : Address :=
  .ipv4 (BitVec.ofNat 32 (Bytes.bigEndian bytes))

/-- The IPv6 address with these sixteen bytes. -/
def ofIpv6 (bytes : Bytes) : Address :=
  .ipv6 (BitVec.ofNat 128 (Bytes.bigEndian bytes))

/-- The Ethernet address with these six bytes. -/
def ofEther (bytes : Bytes) : Address :=
  .ether (BitVec.ofNat 48 (Bytes.bigEndian bytes))

/-- The four low bytes of a number, in decimal with dots between them. -/
def dotted (number : Nat) : String :=
  ".".intercalate ((Bytes.ofBigEndian 4 number).map fun byte => toString byte.toNat)

/-- The eight groups of 16 bits of an IPv6 address, highest first. -/
def groups (address : BitVec 128) : List Nat :=
  (List.range 8).map fun index => address.toNat >>> (16 * (7 - index)) % 65536

/-- The number of zero groups from `start` on. -/
def zeroRun (groups : List Nat) (start : Nat) : Nat :=
  ((groups.drop start).takeWhile (· == 0)).length

/-- The start of the first of the longest runs of zero groups. -/
def longestZeroRun (groups : List Nat) : Nat :=
  (List.range groups.length).foldl
    (fun best start => if zeroRun groups best < zeroRun groups start then start else best) 0

/-- Hexadecimal groups with colons between them. -/
def colonGroups (groups : List Nat) : String :=
  ":".intercalate (groups.map fun group => String.ofList (Nat.toDigits 16 group))

/-- The canonical text of an IPv6 address. -/
def ipv6Text (address : BitVec 128) : String :=
  if address.toNat >>> 32 = 0xFFFF then "::ffff:" ++ dotted address.toNat
  else
    let parts := groups address
    let start := longestZeroRun parts
    let run := zeroRun parts start
    if run < 2 then colonGroups parts
    else colonGroups (parts.take start) ++ "::" ++ colonGroups (parts.drop (start + run))

/-- The address as it is printed. -/
def text : Address → String
  | .none => "-"
  | .ipv4 address => dotted address.toNat
  | .ipv6 address => ipv6Text address
  | .ether address =>
    ":".intercalate ((Bytes.ofBigEndian 6 address.toNat).map fun byte => Hex.encode [byte])

-- The first of two runs of zero groups is left out; a run of one group is kept.
example : (Address.ipv6 0#128).text = "::" := by decide
example : (Address.ipv6 0x20010db8000000000001000000000001#128).text = "2001:db8::1:0:0:1" := by
  decide
example : (Address.ipv6 0x00010002000300040005000600000008#128).text = "1:2:3:4:5:6:0:8" := by
  decide
example : (Address.ipv6 0xffffc0a80001#128).text = "::ffff:192.168.0.1" := by decide

end Address

end ProfinetRsi

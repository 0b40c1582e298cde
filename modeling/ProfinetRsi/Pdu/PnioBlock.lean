import ProfinetRsi.Field.Pnio
import ProfinetRsi.Tree

/-!
# `ProfinetRsi.Pdu.PnioBlock`: the blocks of an application payload

An application payload is a run of PNIO blocks: a type, a length, a version of
two bytes and a body. The length counts the version and the body. `splitAll`
takes blocks from the front as long as they fit; what is left is the tail that
cannot be decoded. `tiles` are the nodes of both, laid out without a gap.
-/

set_option autoImplicit false

namespace ProfinetRsi

/-- A PNIO block. -/
structure PnioBlock where
  type : UInt16
  versionHigh : UInt8
  versionLow : UInt8
  body : Bytes
deriving DecidableEq, Repr

namespace PnioBlock

/-- The number of bytes in front of a block's body. -/
def headerSize : Nat := 6

/-- The number of bytes of the block. -/
def size (block : PnioBlock) : Nat :=
  headerSize + block.body.length

/-- What the block's length field says. -/
def lengthField (block : PnioBlock) : Nat :=
  block.body.length + 2

/-- The block as it is sent. -/
def bytes (block : PnioBlock) : Bytes :=
  Bytes.ofBigEndian 2 block.type.toNat
    ++ Bytes.ofBigEndian 2 block.lengthField
    ++ [block.versionHigh, block.versionLow]
    ++ block.body

/-- The first block of `bytes` and what follows it. There is none if the header
or the body does not fit, or if the length does not even cover the version. -/
def split? : Bytes → Option (PnioBlock × Bytes)
  | type1 :: type0 :: length1 :: length0 :: high :: low :: rest =>
    let length := Bytes.bigEndian [length1, length0]
    if 2 ≤ length ∧ length - 2 ≤ rest.length then
      some (⟨UInt16.ofNat (Bytes.bigEndian [type1, type0]), high, low, rest.take (length - 2)⟩,
        rest.drop (length - 2))
    else none
  | _ => none

/-- A block and what follows it are as long as the whole. -/
theorem length_of_split? {bytes rest : Bytes} {block : PnioBlock}
    (h : split? bytes = some (block, rest)) : bytes.length = block.size + rest.length := by
  unfold split? at h
  split at h
  case h_1 =>
    dsimp only at h
    split at h
    case isTrue hfits =>
      obtain ⟨rfl, rfl⟩ := Prod.mk.inj (Option.some.inj h)
      simp only [size, headerSize, List.length_cons, List.length_take, List.length_drop]
      omega
    case isFalse => simp at h
  case h_2 => simp at h

/-- The blocks at the front of `bytes`, and the tail that holds no further one. -/
def splitAll (bytes : Bytes) : List PnioBlock × Bytes :=
  match _h : split? bytes with
  | none => ([], bytes)
  | some (block, rest) =>
    let (blocks, tail) := splitAll rest
    (block :: blocks, tail)
termination_by bytes.length
decreasing_by
  have := length_of_split? _h
  simp only [size, headerSize] at this
  omega

/-- The node of a block that starts at `offset`. -/
def node (offset : Nat) (block : PnioBlock) : FieldNode :=
  let type := Numeral.hexadecimal 4 block.type.toNat
  let header : FieldNode :=
    { FieldNode.subtree "pn_io.block_header" "BlockHeader" offset headerSize with
      children := [
        .uint Fields.blockType offset block.type.toNat,
        .uint Fields.blockLength (offset + 2) block.lengthField,
        .uint Fields.blockVersionHigh (offset + 4) block.versionHigh.toNat,
        .uint Fields.blockVersionLow (offset + 5) block.versionLow.toNat] }
  let body :=
    if block.body.isEmpty then []
    else [FieldNode.ofBytes "pn_io.block_data" "BlockData" (offset + headerSize) block.body]
  { FieldNode.subtree "pn_io.block"
      s!"Block: {type}, Version: {block.versionHigh.toNat}.{block.versionLow.toNat}"
      offset block.size with
    children := header :: body }

/-- The node of bytes that cannot be decoded, if there are any. -/
def undecoded (offset : Nat) (bytes : Bytes) : List FieldNode :=
  if bytes.isEmpty then [] else [.ofBytes "pn_io.data" "Undecoded Data" offset bytes]

/-- The nodes of consecutive blocks from `offset` on, and of the tail behind. -/
def layOut (offset : Nat) : List PnioBlock → (tail : Bytes) → List FieldNode
  | [], tail => undecoded offset tail
  | block :: blocks, tail => node offset block :: layOut (offset + block.size) blocks tail

/-- The nodes of a payload that starts at `offset`. -/
def tiles (offset : Nat) (bytes : Bytes) : List FieldNode :=
  let (blocks, tail) := splitAll bytes
  layOut offset blocks tail

end PnioBlock

end ProfinetRsi

import ProfinetRsi.Bytes.Lemmas
import ProfinetRsi.Decoder.Pdu
import ProfinetRsi.Proofs.Tree

/-!
# `ProfinetRsi.Proofs.Account`: the bytes that a tree accounts for

A tree is an account of the bytes it was decoded from. `Accounts` says what makes
a list of nodes a good one: each node that shows a number or bytes is *faithful*,
it shows what stands at its offset, and together they *cover* a range of positions
without a gap. Accounts of adjacent ranges join (`Accounts.append`).

* `accounts_uint`, `accounts_parts`, `accounts_bytes`: one field accounts for its
  own bytes.

`Bytes.HoldsAt` is what both rest on: a part of a byte string, and where it is.
-/

set_option autoImplicit false

namespace ProfinetRsi

/-! ### Parts of a byte string -/

namespace Bytes

/-- `part` stands in `buffer` at `offset`. -/
def HoldsAt (buffer : Bytes) (offset : Nat) (part : Bytes) : Prop :=
  ∃ before behind, buffer = before ++ part ++ behind ∧ before.length = offset

variable {buffer : Bytes} {offset : Nat} {part : Bytes}

theorem HoldsAt.bound (holds : buffer.HoldsAt offset part) :
    offset + part.length ≤ buffer.length := by
  obtain ⟨before, behind, rfl, rfl⟩ := holds
  simp

theorem HoldsAt.slice_eq (holds : buffer.HoldsAt offset part) :
    buffer.slice offset part.length = part := by
  obtain ⟨before, behind, rfl, rfl⟩ := holds
  simp [slice]

/-- The number that a part spells is the word at its offset. -/
theorem HoldsAt.wordAt_eq (holds : buffer.HoldsAt offset part) :
    buffer.wordAt offset part.length = bigEndian part := by
  rw [wordAt, holds.slice_eq]

theorem length_slice {width : Nat} (h : offset + width ≤ buffer.length) :
    (buffer.slice offset width).length = width := by
  rw [slice, List.length_take, List.length_drop]
  omega

/-- A slice and what is behind it. -/
theorem slice_append_drop (buffer : Bytes) (offset width : Nat) :
    buffer.slice offset width ++ buffer.drop (offset + width) = buffer.drop offset := by
  rw [slice, ← List.drop_drop, List.take_append_drop]

/-- Part of what is left of a buffer is part of the buffer. -/
theorem slice_drop (buffer : Bytes) (position offset width : Nat) :
    slice (buffer.drop position) offset width = buffer.slice (position + offset) width := by
  rw [slice, List.drop_drop, slice]

/-- A word in what is left of a buffer is a word in the buffer. -/
theorem wordAt_drop (buffer : Bytes) (position offset width : Nat) :
    wordAt (buffer.drop position) offset width = buffer.wordAt (position + offset) width := by
  rw [wordAt, slice_drop, wordAt]

/-- What stands in front of a cut stands in the buffer. -/
theorem wordAt_take {limit width : Nat} (h : offset + width ≤ limit) :
    wordAt (buffer.take limit) offset width = buffer.wordAt offset width := by
  rw [wordAt, slice, List.drop_take, List.take_take, Nat.min_eq_left (by omega)]
  rfl

/-- What stands at an offset is the slice there. -/
theorem holdsAt_slice {width : Nat} (h : offset + width ≤ buffer.length) :
    buffer.HoldsAt offset (buffer.slice offset width) := by
  refine ⟨buffer.take offset, (buffer.drop offset).drop width, ?_, ?_⟩
  · rw [slice, List.append_assoc, List.take_append_drop, List.take_append_drop]
  · rw [List.length_take]
    omega

/-- What stands at the end is all that is left there. -/
theorem holdsAt_drop (h : offset ≤ buffer.length) :
    buffer.HoldsAt offset (buffer.drop offset) := by
  refine ⟨buffer.take offset, [], ?_, ?_⟩
  · rw [List.append_nil, List.take_append_drop]
  · rw [List.length_take]
    omega

/-- The front of a part stands where the part does. -/
theorem HoldsAt.left {more : Bytes} (holds : buffer.HoldsAt offset (part ++ more)) :
    buffer.HoldsAt offset part := by
  obtain ⟨before, behind, hbuffer, hlength⟩ := holds
  exact ⟨before, more ++ behind, by simpa using hbuffer, hlength⟩

/-- The back of a part stands behind its front. -/
theorem HoldsAt.right {more : Bytes} (holds : buffer.HoldsAt offset (part ++ more)) :
    buffer.HoldsAt (offset + part.length) more := by
  obtain ⟨before, behind, hbuffer, hlength⟩ := holds
  exact ⟨before ++ part, behind, by simpa using hbuffer, by simp [hlength]⟩

/-- What stands in the front of a byte string stands in the string. -/
theorem HoldsAt.ofTake {count : Nat} (holds : Bytes.HoldsAt (buffer.take count) offset part) :
    buffer.HoldsAt offset part := by
  obtain ⟨before, behind, hbuffer, hlength⟩ := holds
  refine ⟨before, behind ++ buffer.drop count, ?_, hlength⟩
  rw [← List.append_assoc, ← hbuffer, List.take_append_drop]

end Bytes

/-! ### Nodes -/

/-- Every field with a description. -/
def Fields.all : List FieldSpec := [
  destinationAccessPoint, sourceAccessPoint, pduTypeType, pduTypeVersion, flagsWindowSize,
  flagsReservedLow, flagsTack, flagsMoreFragments, flagsNotification, flagsReservedHigh,
  sendSequenceNumber, ackSequenceNumber, varPartLength,
  opnumWord, opnumWordOffset, opnumWordOpnum, opnumWordCallSequence, rspMaxLength,
  vendorId, deviceId, instanceId, rsiInterface, numberOfEntries,
  errorCode, errorDecode, errorCode1, errorCode2,
  blockType, blockLength, blockVersionHigh, blockVersionLow,
  securityInformation, protectionMode, securityInformationReserved,
  securityControl, generationNumber, securityControlReserved, securitySequenceCounter,
  securityLength, securityLengthLength, securityLengthReserved]

namespace FieldNode

/-- A node that shows bytes shows those at its offset, and a node that shows a
number shows the part of the word at its offset that a field with its key has. -/
def IsFaithful (buffer : Bytes) (node : FieldNode) : Prop :=
  match node.value with
  | .bytes value =>
    node.offset + node.length ≤ buffer.length ∧ value = buffer.slice node.offset node.length
  | .uint value =>
    node.offset + node.length ≤ buffer.length
      ∧ ∃ spec ∈ Fields.all, spec.key = node.key ∧ spec.width = node.length
        ∧ value = spec.extract (buffer.wordAt node.offset node.length)
  | _ => True

/-- Whether the node shows a number or bytes. -/
def carriesValue (node : FieldNode) : Bool :=
  match node.value with
  | .uint _ | .bytes _ => true
  | _ => false

/-- What is faithful to the front of a byte string is faithful to the string. -/
theorem IsFaithful.ofTake {buffer : Bytes} {count : Nat} {node : FieldNode}
    (faithful : node.IsFaithful (buffer.take count)) : node.IsFaithful buffer := by
  have hslice : node.offset + node.length ≤ (buffer.take count).length →
      node.offset + node.length ≤ buffer.length
        ∧ Bytes.slice (buffer.take count) node.offset node.length
          = buffer.slice node.offset node.length := by
    intro hbound
    have hholds := (Bytes.holdsAt_slice hbound).ofTake
    have hlength := Bytes.length_slice hbound
    refine ⟨?_, ?_⟩
    · rw [← hlength]
      exact hholds.bound
    · rw [← hholds.slice_eq, hlength]
  -- Bytes, numbers and nodes without a value; only the first two say anything.
  unfold IsFaithful at faithful ⊢
  split at faithful
  · obtain ⟨hbound, hvalue⟩ := faithful
    rw [(hslice hbound).2] at hvalue
    exact ⟨(hslice hbound).1, hvalue⟩
  · obtain ⟨hbound, spec, hspec, hkey, hwidth, hvalue⟩ := faithful
    rw [Bytes.wordAt, (hslice hbound).2] at hvalue
    exact ⟨(hslice hbound).1, spec, hspec, hkey, hwidth, hvalue⟩
  · trivial

/-- The node shows the byte at `position`, as itself or as part of a number. -/
structure Covers (node : FieldNode) (position : Nat) : Prop where
  genuine : node.generated = false
  carries : node.carriesValue = true
  above : node.offset ≤ position
  below : position < node.offset + node.length

end FieldNode

/-- The nodes are an account of the bytes of `buffer` from `start` to `stop`. -/
structure Accounts (nodes : List FieldNode) (buffer : Bytes) (start stop : Nat) : Prop where
  faithful : ∀ node ∈ nodes, node.generated = false → node.IsFaithful buffer
  covers : ∀ position, start ≤ position → position < stop → ∃ node ∈ nodes, node.Covers position

namespace Accounts

variable {nodes more : List FieldNode} {buffer : Bytes} {start middle stop : Nat}

/-- No nodes account for no bytes. -/
theorem nil (buffer : Bytes) (start : Nat) : Accounts [] buffer start start where
  faithful := by simp
  covers position hstart hstop := by omega

/-- Accounts of adjacent ranges join. -/
theorem append (first : Accounts nodes buffer start middle)
    (second : Accounts more buffer middle stop) : Accounts (nodes ++ more) buffer start stop where
  faithful node hnode := by
    rcases List.mem_append.mp hnode with hnode | hnode
    · exact first.faithful node hnode
    · exact second.faithful node hnode
  covers position hstart hstop := by
    by_cases hmiddle : position < middle
    · obtain ⟨node, hnode, hcovers⟩ := first.covers position hstart hmiddle
      exact ⟨node, List.mem_append_left _ hnode, hcovers⟩
    · obtain ⟨node, hnode, hcovers⟩ := second.covers position (by omega) hstop
      exact ⟨node, List.mem_append_right _ hnode, hcovers⟩

/-- Nodes that account for some bytes account for fewer of them. -/
theorem mono {first last : Nat} (accounts : Accounts nodes buffer start stop)
    (h : ∀ position, first ≤ position → position < last → start ≤ position ∧ position < stop) :
    Accounts nodes buffer first last where
  faithful := accounts.faithful
  covers position hfirst hlast :=
    accounts.covers position (h position hfirst hlast).1 (h position hfirst hlast).2

/-- A node that shows nothing itself changes no account. -/
theorem cons {node : FieldNode} (silent : node.value = .none)
    (accounts : Accounts nodes buffer start stop) : Accounts (node :: nodes) buffer start stop where
  faithful other hother hgenerated := by
    rcases List.mem_cons.mp hother with rfl | hother
    · simp [FieldNode.IsFaithful, silent]
    · exact accounts.faithful other hother hgenerated
  covers position hstart hstop := by
    obtain ⟨other, hother, hcovers⟩ := accounts.covers position hstart hstop
    exact ⟨other, List.mem_cons_of_mem _ hother, hcovers⟩

/-- There is an account only of bytes that are there. -/
theorem bound (accounts : Accounts nodes buffer start stop) (h : start < stop) :
    stop ≤ buffer.length := by
  obtain ⟨node, hnode, hcovers⟩ := accounts.covers (stop - 1) (by omega) (by omega)
  have hfaithful := accounts.faithful node hnode hcovers.genuine
  have hcarries := hcovers.carries
  have hbelow := hcovers.below
  unfold FieldNode.IsFaithful at hfaithful
  unfold FieldNode.carriesValue at hcarries
  split at hcarries
  · rename_i hvalue
    rw [hvalue] at hfaithful
    have hbound := hfaithful.1
    omega
  · rename_i hvalue
    rw [hvalue] at hfaithful
    have hbound := hfaithful.1
    omega
  · cases hcarries

/-- An account of the front of a byte string is one of the string. -/
theorem ofTake {count : Nat} (accounts : Accounts nodes (buffer.take count) start stop) :
    Accounts nodes buffer start stop where
  faithful node hnode hgenerated := (accounts.faithful node hnode hgenerated).ofTake
  covers := accounts.covers

end Accounts

/-! ### Fields -/

section Fields

variable {buffer part : Bytes} {offset : Nat}

/-- A number of the width of its field, read where the node says, is shown
faithfully. -/
theorem isFaithful_uint (spec : FieldSpec) (holds : buffer.HoldsAt offset part)
    (known : spec ∈ Fields.all) (hwidth : part.length = spec.width) :
    (FieldNode.uint spec offset (Bytes.bigEndian part)).IsFaithful buffer := by
  refine ⟨?_, spec, known, rfl, rfl, ?_⟩
  · show offset + spec.width ≤ buffer.length
    rw [← hwidth]
    exact holds.bound
  · show spec.extract _ = spec.extract (buffer.wordAt offset spec.width)
    rw [← hwidth, holds.wordAt_eq]

/-- A numeric field accounts for its word. -/
theorem accounts_uint (spec : FieldSpec) (holds : buffer.HoldsAt offset part)
    (known : spec ∈ Fields.all) (hwidth : part.length = spec.width) :
    Accounts [FieldNode.uint spec offset (Bytes.bigEndian part)] buffer offset
      (offset + part.length) where
  faithful node hnode _ := by
    rw [List.mem_singleton.mp hnode]
    exact isFaithful_uint _ holds known hwidth
  covers position hstart hstop := by
    refine ⟨_, List.mem_singleton_self _, rfl, rfl, hstart, ?_⟩
    show position < offset + spec.width
    omega

/-- Several fields of one word account for it, if there is any. -/
theorem accounts_parts (holds : buffer.HoldsAt offset part) {specs : List FieldSpec}
    (some : specs ≠ []) (known : ∀ spec ∈ specs, spec ∈ Fields.all)
    (hwidth : ∀ spec ∈ specs, part.length = spec.width) :
    Accounts (specs.map fun spec => .uint spec offset (Bytes.bigEndian part)) buffer offset
      (offset + part.length) where
  faithful node hnode _ := by
    obtain ⟨spec, hspec, rfl⟩ := List.mem_map.mp hnode
    exact isFaithful_uint _ holds (known spec hspec) (hwidth spec hspec)
  covers position hstart hstop := by
    -- Every part is as wide as the word, so any one of them covers it.
    obtain ⟨spec, hspec⟩ := List.exists_mem_of_ne_nil specs some
    refine ⟨_, List.mem_map_of_mem hspec, rfl, rfl, hstart, ?_⟩
    show position < offset + spec.width
    rw [← hwidth spec hspec]
    exact hstop

/-- Bytes shown as they are account for themselves. -/
theorem accounts_bytes (holds : buffer.HoldsAt offset part) (key label : String) :
    Accounts [FieldNode.ofBytes key label offset part] buffer offset (offset + part.length) where
  faithful node hnode _ := by
    rw [List.mem_singleton.mp hnode]
    exact ⟨holds.bound, holds.slice_eq.symm⟩
  covers position hstart hstop := ⟨_, List.mem_singleton_self _, rfl, rfl, hstart, hstop⟩

end Fields

end ProfinetRsi

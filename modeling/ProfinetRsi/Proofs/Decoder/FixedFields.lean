import ProfinetRsi.Proofs.Decoder.Reads

/-!
# `ProfinetRsi.Proofs.Decoder.FixedFields`: the fields of fixed width

Each typed part of a PDU that has a fixed width, with the bytes that hold it: the
fixed header (`reads_header`), the FOpnumOffset word (`reads_opnumWord`), the
fixed fields of the blocks (`reads_pnioStatus`, `reads_endpoint`) and the security
envelope (`reads_securityMetadata`, `reads_securityChecksum`). `readAt` is the part
that stands at a position of a buffer.
-/

set_option autoImplicit false

namespace ProfinetRsi

/-! ### What stands at a position -/

def AccessPoints.readAt (buffer : Bytes) (position : Nat) : AccessPoints where
  destination := UInt16.ofNat (buffer.wordAt position 2)
  source := UInt16.ofNat (buffer.wordAt (position + 2) 2)

/-- The header whose fields behind the access points stand at `position`. -/
def Header.readBehind (accessPoints : AccessPoints) (buffer : Bytes) (position : Nat) :
    Header where
  accessPoints
  pduType := .ofByte (UInt8.ofNat (buffer.wordAt position 1))
  addFlags := .ofByte (UInt8.ofNat (buffer.wordAt (position + 1) 1))
  sendSequenceNumber := UInt16.ofNat (buffer.wordAt (position + 2) 2)
  ackSequenceNumber := UInt16.ofNat (buffer.wordAt (position + 4) 2)
  varPartLength := UInt16.ofNat (buffer.wordAt (position + 6) 2)

def Header.readAt (buffer : Bytes) (position : Nat) : Header :=
  .readBehind (.readAt buffer position) buffer (position + 4)

def OpnumWord.readAt (buffer : Bytes) (position : Nat) : OpnumWord :=
  .ofRaw (UInt32.ofNat (buffer.wordAt position 4))

def PnioStatus.ofBytes (bytes : Bytes) : PnioStatus :=
  ⟨bytes.getD 0 0, bytes.getD 1 0, bytes.getD 2 0, bytes.getD 3 0⟩

def PnioStatus.readAt (buffer : Bytes) (position : Nat) : PnioStatus :=
  .ofBytes (buffer.slice position PnioStatus.size)

def Endpoint.readAt (buffer : Bytes) (position : Nat) : Endpoint where
  vendorId := UInt16.ofNat (buffer.wordAt position 2)
  deviceId := UInt16.ofNat (buffer.wordAt (position + 2) 2)
  instanceId := UInt16.ofNat (buffer.wordAt (position + 4) 2)
  rsiInterface := UInt8.ofNat (buffer.wordAt (position + 6) 1)

def SecurityMetadata.readAt (buffer : Bytes) (position : Nat) : SecurityMetadata :=
  .ofWords (UInt8.ofNat (buffer.wordAt position 1)) (UInt8.ofNat (buffer.wordAt (position + 1) 1))
    (UInt32.ofNat (buffer.wordAt (position + 2) 4)) (UInt16.ofNat (buffer.wordAt (position + 6) 2))

/-- The number of bytes of an endpoint identity, with the padding behind it. -/
def Endpoint.size : Nat := 8

namespace Decoder

/-! ### The fixed header -/

theorem reads_accessPoints : Reads accessPoints 4 AccessPoints.readAt := by
  have destination := reads_uint Fields.destinationAccessPoint (by simp [Fields.all])
  have source := reads_uint Fields.sourceAccessPoint (by simp [Fields.all])
  unfold accessPoints
  exact .congr (.bind destination fun a => .bind source fun b => .pure _) rfl fun _ _ => rfl

theorem reads_pduType :
    Reads pduType 1 fun buffer position =>
      PduType.ofByte (UInt8.ofNat (buffer.wordAt position 1)) :=
  .map PduType.ofByte
    (reads_bytePieces (by decide) _ _ (by simp) (by simp [Fields.all]) (by decide))

theorem reads_addFlags :
    Reads addFlags 1 fun buffer position =>
      AddFlags.ofByte (UInt8.ofNat (buffer.wordAt position 1)) :=
  .map AddFlags.ofByte
    (reads_bytePieces (by decide) _ _ (by simp) (by simp [Fields.all]) (by decide))

theorem reads_headerBehind (accessPoints : AccessPoints) :
    Reads (headerBehind accessPoints) 8 (Header.readBehind accessPoints) := by
  have send := reads_uint Fields.sendSequenceNumber (by simp [Fields.all])
  have ack := reads_uint Fields.ackSequenceNumber (by simp [Fields.all])
  have length := reads_uint Fields.varPartLength (by simp [Fields.all])
  unfold headerBehind
  exact .congr (.bind reads_pduType fun a => .bind reads_addFlags fun b => .bind send fun c =>
    .bind ack fun d => .bind length fun e => .pure _) rfl fun _ _ => rfl

/-- The fixed header is twelve bytes. -/
theorem reads_header : Reads header Header.size Header.readAt :=
  .congr (.bind reads_accessPoints reads_headerBehind) rfl fun _ _ => rfl

/-! ### Requests and responses -/

/-- The FOpnumOffset word is four bytes. -/
theorem reads_opnumWord : Reads opnumWord 4 OpnumWord.readAt := by
  have raw := reads_word Fields.opnumWord
    [Fields.opnumWordOffset, Fields.opnumWordOpnum, Fields.opnumWordCallSequence]
    (by simp [Fields.all]) (by simp [Fields.all]) (by decide)
  unfold opnumWord
  exact .congr (.bind raw fun a => .pure _) rfl fun _ _ => rfl

/-- The nodes of a status, one for each of its bytes. -/
theorem preorder_statusNode (offset : Nat) (status : PnioStatus) :
    FieldNode.preorder (statusNode offset status) = [
      statusNode offset status,
      .uint Fields.errorCode offset status.errorCode.toNat,
      .uint Fields.errorDecode (offset + 1) status.errorDecode.toNat,
      .uint Fields.errorCode1 (offset + 2) status.errorCode1.toNat,
      .uint Fields.errorCode2 (offset + 3) status.errorCode2.toNat] := by
  rw [FieldNode.preorder_eq]
  rfl

/-- The four bytes of a status stand one behind the other. -/
theorem accounts_statusNode {buffer : Bytes} {offset : Nat} {a b c d : UInt8}
    (holds : buffer.HoldsAt offset [a, b, c, d]) :
    Accounts (FieldNode.preorder (statusNode offset ⟨a, b, c, d⟩)) buffer offset (offset + 4) := by
  have first : buffer.HoldsAt offset ([a] ++ ([b] ++ ([c] ++ [d]))) := holds
  have code := accounts_uint Fields.errorCode first.left (by simp [Fields.all]) rfl
  have decode := accounts_uint Fields.errorDecode first.right.left (by simp [Fields.all]) rfl
  have code1 := accounts_uint Fields.errorCode1 first.right.right.left (by simp [Fields.all]) rfl
  have code2 := accounts_uint Fields.errorCode2 first.right.right.right (by simp [Fields.all]) rfl
  rw [Bytes.bigEndian_singleton] at code decode code1 code2
  rw [preorder_statusNode]
  exact .cons rfl (code.append (decode.append (code1.append code2)))

theorem run_pnioStatus (buffer : Bytes) (position : Nat) :
    pnioStatus buffer position
      = if position + PnioStatus.size ≤ buffer.length then
          ({ nodes := [statusNode position (.readAt buffer position)] },
            .ok (.readAt buffer position, position + PnioStatus.size))
        else (∅, .error (.truncatedField position PnioStatus.size buffer.length)) := by
  by_cases h : position + PnioStatus.size ≤ buffer.length
  · simp only [pnioStatus, run_bind, run_pure, Decoder.position, take, showNodes, report,
      if_pos h, Findings.empty_append, Findings.append_empty]
    rfl
  · simp only [pnioStatus, run_bind, Decoder.position, take, if_neg h, Findings.empty_append]

/-- A status is four bytes, read at once and shown one by one. -/
theorem reads_pnioStatus : Reads pnioStatus PnioStatus.size PnioStatus.readAt := by
  refine .ofTake (fun offset bytes => [statusNode offset (.ofBytes bytes)]) PnioStatus.ofBytes
    (by decide) run_pnioStatus ?_ ?_
  · intro offset bytes node hnode
    rw [FieldNode.preorderAll_cons, preorder_statusNode] at hnode
    simp only [FieldNode.preorderAll_nil, List.append_nil, List.mem_cons, List.not_mem_nil,
      or_false] at hnode
    rcases hnode with rfl | rfl | rfl | rfl | rfl
    · show "pn_io.pnio_status" ∉ payloadKeys
      decide
    · exact (field_wellFormed Fields.errorCode (by simp [Fields.all])).1
    · exact (field_wellFormed Fields.errorDecode (by simp [Fields.all])).1
    · exact (field_wellFormed Fields.errorCode1 (by simp [Fields.all])).1
    · exact (field_wellFormed Fields.errorCode2 (by simp [Fields.all])).1
  · intro buffer offset bytes hlength hholds
    obtain ⟨a, b, c, d, rfl⟩ : ∃ a b c d, bytes = [a, b, c, d] := List.length_eq_four.mp hlength
    rw [FieldNode.preorderAll_cons, FieldNode.preorderAll_nil, List.append_nil]
    exact accounts_statusNode hholds

theorem reads_padding {count : Nat} (hcount : 0 < count) :
    Reads (padding count) count fun _ _ => () := by
  have bytes := reads_shownBytes "pn_io.padding" "Padding" count (by decide) hcount
  unfold padding
  exact .congr (.bind bytes fun a => .pure _) rfl fun _ _ => rfl

/-- An endpoint identity is eight bytes, the last of which means nothing. -/
theorem reads_endpoint : Reads endpoint Endpoint.size Endpoint.readAt := by
  have vendor := reads_uint Fields.vendorId (by simp [Fields.all])
  have device := reads_uint Fields.deviceId (by simp [Fields.all])
  have inst := reads_uint Fields.instanceId (by simp [Fields.all])
  have interface := reads_uint Fields.rsiInterface (by simp [Fields.all])
  have fields : Reads endpointFields 7 Endpoint.readAt := by
    unfold endpointFields
    exact .congr (.bind vendor fun a => .bind device fun b => .bind inst fun c =>
      .bind interface fun d => .pure _) rfl fun _ _ => rfl
  unfold endpoint
  exact .congr (.bind fields fun a => .bind (reads_padding Nat.one_pos) fun _ => .pure _) rfl
    fun _ _ => rfl

/-! ### The security envelope -/

theorem reads_securityMetadata :
    Reads securityMetadata SecurityMetadata.size SecurityMetadata.readAt := by
  have information := reads_word Fields.securityInformation
    [Fields.protectionMode, Fields.securityInformationReserved]
    (by simp [Fields.all]) (by simp [Fields.all]) (by decide)
  have control := reads_word Fields.securityControl
    [Fields.generationNumber, Fields.securityControlReserved]
    (by simp [Fields.all]) (by simp [Fields.all]) (by decide)
  have counter := reads_uint Fields.securitySequenceCounter (by simp [Fields.all])
  have length := reads_word Fields.securityLength
    [Fields.securityLengthLength, Fields.securityLengthReserved]
    (by simp [Fields.all]) (by simp [Fields.all]) (by decide)
  refine Reads.within ?_ (by decide) _ _
  exact .congr (.bind information fun a => .bind control fun b => .bind counter fun c =>
    .bind length fun d => .pure _) rfl fun _ _ => rfl

theorem reads_securityChecksum :
    Reads securityChecksum SecurityMetadata.checksumSize fun _ _ => () := by
  have bytes := reads_shownBytes "pn_rsi.security_checksum" "SecurityChecksum"
    SecurityMetadata.checksumSize (by decide) (by decide)
  unfold securityChecksum
  exact .congr (.bind bytes fun a => .pure _) rfl fun _ _ => rfl

end Decoder

end ProfinetRsi

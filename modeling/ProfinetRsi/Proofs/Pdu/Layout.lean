import ProfinetRsi.Proofs.Pdu.Encoding

/-!
# `ProfinetRsi.Proofs.Pdu.Layout`: the numbers that lay out a PDU

Four numbers in a PDU say which fields follow: its type, the access point it goes to, and
the offset and the opnum of its FOpnumOffset word. `PduLayout.readAt` takes them off the
bytes, whether or not there are enough of these.

* `PduLayout.rtaType_cases`, `PduLayout.request?_eq`, `PduLayout.hasEndpoint_eq`,
  `PduLayout.isFirst_eq`: the decoder takes the same turns.
-/

set_option autoImplicit false

namespace ProfinetRsi

/-- The numbers of a PDU that say which fields it has. -/
structure PduLayout where
  /-- The low nibble of the type byte. -/
  type : Nat
  /-- The destination access point. -/
  destination : Nat
  /-- The low 24 bits of the FOpnumOffset word. -/
  offset : Nat
  /-- The five bits above. -/
  opnum : Nat
deriving DecidableEq, Repr

namespace PduLayout

/-- The numbers of the PDU at `start`. -/
def readAt (buffer : Bytes) (start : Nat) : PduLayout where
  type := buffer.wordAt (start + 4) 1 % 16
  destination := buffer.wordAt start 2
  offset := buffer.wordAt (start + 12) 4 % 2 ^ 24
  opnum := buffer.wordAt (start + 12) 4 / 2 ^ 24 % 32

/-- The layout of the block, if the PDU is a request. No layout belongs to the opnum 1 and
to those above 10. -/
def request? (layout : PduLayout) : Option RequestLayout :=
  if layout.opnum = 5 ∨ layout.opnum = 6 ∨ layout.opnum = 0 ∧ layout.destination ≠ 0xFFFF then
    some .connection
  else if layout.opnum = 10 then some .securityAssociationControl
  else if layout.opnum = 0 ∨ layout.opnum ∈ [2, 3, 4, 7, 8, 9] then some .service
  else none

/-- Whether the fixed fields of a block with this layout name an endpoint. -/
def hasEndpoint (layout : PduLayout) : RequestLayout → Bool
  | .connection => true
  | .service => false
  | .securityAssociationControl => layout.destination = 0xFFFF

variable {buffer : Bytes} {start : Nat}

/-- The opnum is one of 32. -/
theorem opnum_lt (buffer : Bytes) (start : Nat) : (readAt buffer start).opnum < 32 :=
  Nat.mod_lt _ (by decide)

/-- A request has a layout unless its opnum is reserved. -/
theorem isSome_request?_iff {layout : PduLayout} :
    layout.request?.isSome ↔ layout.opnum ≠ 1 ∧ layout.opnum < 11 := by
  unfold request?
  simp only [List.mem_cons, List.not_mem_nil, or_false]
  split_ifs
  all_goals
    simp only [Option.isSome_some, Option.isSome_none, Bool.false_eq_true, true_iff, false_iff]
    omega

/-- The kind of the PDU is what its type says. -/
theorem rtaType_cases (buffer : Bytes) (start : Nat) :
    let type := (readAt buffer start).type
    let kind := (Header.readAt buffer start).pduType.rtaType
    type = 3 ∧ kind = .ack ∨ type = 4 ∧ kind = .err ∨ type = 5 ∧ kind = .freq
      ∨ type = 6 ∧ kind = .frsp
      ∨ (type ≠ 4 ∧ type ≠ 5 ∧ type ≠ 6) ∧ type ≠ 3 ∧ kind = .reserved (UInt8.ofNat type) := by
  intro type kind
  have hbyte : (UInt8.ofNat (buffer.wordAt (start + 4) 1)).toNat = buffer.wordAt (start + 4) 1 :=
    UInt8.toNat_ofNat_of_lt' (Bytes.wordAt_lt _ _ 1)
  have hkind : kind = RtaType.ofByte (UInt8.ofNat (buffer.wordAt (start + 4) 1)) := rfl
  have htype : type = buffer.wordAt (start + 4) 1 % 16 := rfl
  rw [RtaType.ofByte, hbyte, ← htype] at hkind
  clear_value type kind
  subst hkind
  split
  · exact .inl ⟨rfl, rfl⟩
  · exact .inr (.inl ⟨rfl, rfl⟩)
  · exact .inr (.inr (.inl ⟨rfl, rfl⟩))
  · exact .inr (.inr (.inr (.inl ⟨rfl, rfl⟩)))
  · exact .inr (.inr (.inr (.inr ⟨⟨‹_›, ‹_›, ‹_›⟩, ‹_›, rfl⟩)))

/-- The decoder looks for the destination where it stands. -/
theorem destination_eq :
    (Header.readAt buffer start).accessPoints.destination
      = UInt16.ofNat (readAt buffer start).destination :=
  rfl

/-- It is the connection access point if the number says so. -/
theorem destination_eq_connectionPoint_iff (buffer : Bytes) (start : Nat) :
    UInt16.ofNat (readAt buffer start).destination = AccessPoints.connectionPoint
      ↔ (readAt buffer start).destination = 0xFFFF := by
  have hnumber : (UInt16.ofNat (readAt buffer start).destination).toNat
      = (readAt buffer start).destination := UInt16.toNat_ofNat_of_lt' (Bytes.wordAt_lt _ _ 2)
  rw [← UInt16.toNat_inj, hnumber]
  rfl

/-- The raw value of the FOpnumOffset word. -/
theorem raw_eq :
    (OpnumWord.readAt buffer (start + 12)).raw.toNat = buffer.wordAt (start + 12) 4 :=
  UInt32.toNat_ofNat_of_lt' (Bytes.wordAt_lt _ _ 4)

/-- The offset of a fragment is the one in the word. -/
theorem offset_eq :
    (OpnumWord.readAt buffer (start + 12)).offset = (readAt buffer start).offset := by
  show Fields.opnumWordOffset.extract (OpnumWord.readAt buffer (start + 12)).raw.toNat = _
  rw [raw_eq, FieldSpec.extract_eq _ 0 24 (by decide) (by decide) (by decide), Nat.pow_zero,
    Nat.div_one]
  rfl

/-- The service is the one whose number is in the word. -/
theorem opnum_eq :
    (OpnumWord.readAt buffer (start + 12)).opnum
      = .ofByte (UInt8.ofNat (readAt buffer start).opnum) := by
  show Opnum.ofByte (UInt8.ofNat
    (Fields.opnumWordOpnum.extract (OpnumWord.readAt buffer (start + 12)).raw.toNat)) = _
  rw [raw_eq, FieldSpec.extract_eq _ 24 5 (by decide) (by decide) (by decide)]
  rfl

/-- A fragment is the first if the offset is zero. -/
theorem isFirst_eq (header : Header) (kind : MessageKind) :
    (Fragment.ofHeader header (OpnumWord.readAt buffer (start + 12)) kind).isFirst
      = decide ((readAt buffer start).offset = 0) := by
  rw [← offset_eq]
  rfl

/-- The decoder routes a request as its numbers say. -/
theorem request?_eq :
    RequestLayout.ofOpnum? (OpnumWord.readAt buffer (start + 12)).opnum
        (Header.readAt buffer start).accessPoints.destination
      = (readAt buffer start).request? := by
  have hpoint := destination_eq_connectionPoint_iff buffer start
  have hopnum := opnum_lt buffer start
  rw [opnum_eq, destination_eq]
  unfold request?
  -- Each opnum is looked up on both sides; only the first depends on the destination.
  generalize (readAt buffer start).opnum = opnum at hopnum ⊢
  generalize hdestination : UInt16.ofNat (readAt buffer start).destination = destination at hpoint ⊢
  by_cases hconnection : destination = AccessPoints.connectionPoint
  · rw [hconnection]
    simp only [hpoint.mp hconnection]
    interval_cases opnum <;> rfl
  · have hnumber : (readAt buffer start).destination ≠ 0xFFFF := fun h => hconnection (hpoint.mpr h)
    simp only [ne_eq, hnumber, not_false_eq_true, and_true]
    interval_cases opnum
    · exact if_neg hconnection
    all_goals rfl

/-- The decoder looks for an endpoint where the numbers say that there is one. -/
theorem hasEndpoint_eq (request : RequestLayout) :
    request.hasEndpoint (Header.readAt buffer start).accessPoints.destination
      = (readAt buffer start).hasEndpoint request := by
  cases request with
  | connection => rfl
  | service => rfl
  | securityAssociationControl =>
      show decide (UInt16.ofNat (readAt buffer start).destination = AccessPoints.connectionPoint)
        = decide _
      simp only [destination_eq_connectionPoint_iff]

end PduLayout

end ProfinetRsi

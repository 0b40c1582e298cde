import ProfinetRsi.Bytes.Lemmas
import ProfinetRsi.Proofs.Capture.Passes

/-!
# `ProfinetRsi.Proofs.Capture.Records`: a TCP payload is a run of records, or nothing

A TCP payload is taken apart record by record, and every length in it comes from the sender.
`TpktRecord.Spell records payload` is the grammar: the records stand one behind another in
the payload and fill it, and each of them is `WellFormed`, so its length fits 16 bits and its
length indicator names a header that is not empty and ends within the TPDU.

* `split_eq_ok_iff`: one step of the loop. It takes a well-formed record off the front or
  fails, and there is only one record that it can take.
* `splitAll_eq_ok_iff`: the whole loop. It succeeds exactly on what the grammar accepts, with
  the records of the grammar.
* `layer_of_splitAll`: a payload that is refused is refused as TPKT or as COTP.
* `ofFrame_allOrNothing`: what that means for a frame. Either all its records count and give
  their PDUs in order, or no PDU of the frame is decoded in either pass.
-/

set_option autoImplicit false

namespace ProfinetRsi

namespace Extraction

variable {α β : Type} {condition : Bool}

/-- What was found goes on to the next layer. -/
theorem found_bind (value : α) (next : α → Extraction β) : (found value >>= next) = next value :=
  rfl

/-- A frame that is of no interest is looked at no further. -/
theorem absent_bind (next : α → Extraction β) : ((absent : Extraction α) >>= next) = absent :=
  rfl

/-- A damaged frame is looked at no further. -/
theorem damaged_bind (error : ExtractionError) (next : α → Extraction β) :
    ((damaged error : Extraction α) >>= next) = damaged error :=
  rfl

/-- A test that is passed changes nothing. -/
theorem check_bind (h : condition = true) (error : ExtractionError) (next : Unit → Extraction α) :
    (check condition error >>= next) = next () := by
  rw [check, if_pos h, found_bind]

/-- A frame that is still of interest is looked at further. -/
theorem require_bind (h : condition = true) (next : Unit → Extraction α) :
    (require condition >>= next) = next () := by
  rw [require, if_pos h, found_bind]

/-- A frame that turns out to be of no interest is looked at no further. -/
theorem require_bind_of_not (h : condition = false) (next : Unit → Extraction α) :
    (require condition >>= next) = absent := by
  rw [require, h, if_neg Bool.false_ne_true, absent_bind]

end Extraction

/-! ### The grammar -/

namespace TpktRecord

/-- The record can be sent and read: its length fits 16 bits, and the header of its TPDU is
not empty and ends within the TPDU. -/
structure WellFormed (record : TpktRecord) : Prop where
  length : headerSize + 1 + record.tpdu.length < 65536
  header_pos : 1 ≤ record.indicator.toNat
  header_le : record.indicator.toNat ≤ record.tpdu.length

/-- The payload consists of these records, all of them well-formed. -/
def Spell (records : List TpktRecord) (payload : Bytes) : Prop :=
  (∀ record ∈ records, record.WellFormed) ∧ payload = records.flatMap bytes

/-- What the record carries behind the header of a data TPDU, if that is not all of it. -/
def userData (record : TpktRecord) : Option Bytes :=
  if record.tpdu.headD 0 &&& 0xF0 = 0xF0 ∧ record.indicator.toNat < record.tpdu.length then
    some (record.tpdu.drop record.indicator.toNat)
  else none

/-- The high nibble of a byte, once shifted down and once left in its place. -/
theorem shiftRight_eq_dataCode_iff (byte : UInt8) :
    byte >>> 4 = dataCode ↔ byte &&& 0xF0 = 0xF0 := by
  have hall : ∀ number : Fin 256,
      UInt8.ofNat number >>> 4 = dataCode ↔ UInt8.ofNat number &&& 0xF0 = 0xF0 := by
    decide +kernel
  have hbyte := hall ⟨byte.toNat, byte.toNat_lt⟩
  rwa [UInt8.ofNat_toNat] at hbyte

/-- The PDU of a record is its user data. -/
theorem pdu?_eq_userData (record : TpktRecord) : record.pdu? = record.userData := by
  simp only [pdu?, userData, shiftRight_eq_dataCode_iff]

/-! ### One record -/

/-- A record as it is sent, byte by byte up to the TPDU. -/
theorem bytes_append (record : TpktRecord) (rest : Bytes) :
    record.bytes ++ rest
      = version :: record.reserved :: UInt8.ofNat ((headerSize + 1 + record.tpdu.length) / 256)
          :: UInt8.ofNat (headerSize + 1 + record.tpdu.length)
          :: (record.indicator :: record.tpdu ++ rest) := by
  simp [bytes, Bytes.ofBigEndian]

/-- The TPDU of a record is accepted exactly if its header is not empty and ends within it. -/
theorem ofTpdu_eq_ok_iff {reserved : UInt8} {tpdu : Bytes} {record : TpktRecord} :
    ofTpdu reserved tpdu = .ok record
      ↔ record.reserved = reserved ∧ tpdu = record.indicator :: record.tpdu
        ∧ 1 ≤ record.indicator.toNat ∧ record.indicator.toNat ≤ record.tpdu.length := by
  obtain ⟨own, ownIndicator, ownTpdu⟩ := record
  cases tpdu with
  | nil => simp [ofTpdu]
  | cons indicator tpdu =>
      have hzero : indicator = 0 ↔ indicator.toNat = 0 := by
        rw [← UInt8.toNat_inj]
        rfl
      simp only [ofTpdu, hzero]
      split
      case isTrue h =>
        constructor
        · intro herror
          cases herror
        · rintro ⟨-, heq, hpos, hle⟩
          obtain ⟨rfl, rfl⟩ := List.cons.inj heq
          omega
      case isFalse h =>
        simp only [Except.ok.injEq, TpktRecord.mk.injEq, List.cons.injEq]
        constructor
        · rintro ⟨rfl, rfl, rfl⟩
          exact ⟨rfl, ⟨rfl, rfl⟩, by omega, by omega⟩
        · rintro ⟨rfl, ⟨rfl, rfl⟩, -, -⟩
          exact ⟨rfl, rfl, rfl⟩

/-- A well-formed record is taken off the front of a payload. -/
theorem split_bytes_append {record : TpktRecord} (wellFormed : record.WellFormed)
    (rest : Bytes) : split (record.bytes ++ rest) = .ok (record, rest) := by
  have hbound := wellFormed.length
  have hlength : Bytes.bigEndian [UInt8.ofNat ((headerSize + 1 + record.tpdu.length) / 256),
      UInt8.ofNat (headerSize + 1 + record.tpdu.length)]
        = headerSize + 1 + record.tpdu.length := by
    have hword := Bytes.bigEndian_ofBigEndian 2 (headerSize + 1 + record.tpdu.length)
    rw [Nat.mod_eq_of_lt (by omega)] at hword
    exact hword
  have htpdu : headerSize + 1 + record.tpdu.length - headerSize
      = (record.indicator :: record.tpdu).length := by
    rw [List.length_cons]
    omega
  have haccepted : ofTpdu record.reserved (record.indicator :: record.tpdu) = .ok record :=
    ofTpdu_eq_ok_iff.mpr ⟨rfl, rfl, wellFormed.header_pos, wellFormed.header_le⟩
  rw [bytes_append]
  simp only [split, hlength]
  rw [if_neg (fun h => h rfl), if_neg, htpdu, List.take_left, List.drop_left, haccepted]
  · rfl
  · rw [List.length_append, List.length_cons]
    omega

/-- What is taken off the front of a payload is a well-formed record that stands there. -/
theorem of_split_eq_ok {payload rest : Bytes} {record : TpktRecord}
    (h : split payload = .ok (record, rest)) :
    record.WellFormed ∧ payload = record.bytes ++ rest := by
  unfold split at h
  split at h
  case h_2 => cases h
  case h_1 first reserved length1 length0 behind =>
    have hsmall : Bytes.bigEndian [length1, length0] < 256 ^ 2 := Bytes.bigEndian_lt _
    have hword := Bytes.ofBigEndian_bigEndian [length1, length0]
    dsimp only at h
    generalize hlength : Bytes.bigEndian [length1, length0] = length at h hsmall hword
    split at h
    case isTrue => cases h
    case isFalse hversion =>
      split at h
      case isTrue => cases h
      case isFalse hfits =>
        cases htpdu : ofTpdu reserved (behind.take (length - headerSize)) with
        | error error =>
            rw [htpdu] at h
            cases h
        | ok accepted =>
            rw [htpdu] at h
            cases h
            obtain ⟨hreserved, hbody, hpos, hle⟩ := ofTpdu_eq_ok_iff.mp htpdu
            -- The TPDU is as long as the length field says, because the payload is no shorter.
            have hcount : headerSize + 1 + record.tpdu.length = length := by
              have hbodyLength := congrArg List.length hbody
              rw [List.length_take, List.length_cons] at hbodyLength
              omega
            refine ⟨⟨?_, hpos, hle⟩, ?_⟩
            · rw [hcount]
              omega
            · have hheader : [version, record.reserved]
                    ++ Bytes.ofBigEndian 2 (headerSize + 1 + record.tpdu.length)
                  = [first, reserved, length1, length0] := by
                rw [hcount, hreserved, Classical.not_not.mp hversion]
                exact congrArg _ hword
              rw [bytes, hheader, ← hbody, List.append_assoc, List.take_append_drop]
              rfl

/-- One step of the loop takes a well-formed record off the front, and there is only one
that it can take. -/
theorem split_eq_ok_iff {payload rest : Bytes} {record : TpktRecord} :
    split payload = .ok (record, rest)
      ↔ record.WellFormed ∧ payload = record.bytes ++ rest := by
  constructor
  · exact of_split_eq_ok
  · rintro ⟨wellFormed, rfl⟩
    exact split_bytes_append wellFormed rest

/-! ### All records -/

/-- Nothing is left behind the last record. -/
theorem splitAll_nil : splitAll [] = .ok [] := by
  rw [splitAll]
  rfl

/-- The loop goes on behind the record that was taken off. -/
theorem splitAll_of_split {payload rest : Bytes} {record : TpktRecord}
    (h : split payload = .ok (record, rest)) :
    splitAll payload = (splitAll rest).map (record :: ·) := by
  have hlonger := length_lt_of_split h
  have hsome : payload.isEmpty = false := by
    cases payload with
    | nil => simp at hlonger
    | cons => rfl
  rw [splitAll, hsome, if_neg Bool.false_ne_true]
  split
  case h_1 error herror =>
    rw [h] at herror
    cases herror
  case h_2 own behind hown =>
    rw [h] at hown
    cases hown
    rfl

/-- The loop stops where no record can be taken off. -/
theorem splitAll_of_split_error {payload : Bytes} {error : ExtractionError} (some : payload ≠ [])
    (h : split payload = .error error) : splitAll payload = .error error := by
  rw [splitAll, if_neg (by simpa using some)]
  split
  case h_1 own hown =>
    rw [h] at hown
    cases hown
    rfl
  case h_2 record rest hrest =>
    rw [h] at hrest
    cases hrest

/-- **The loop accepts exactly the grammar**, and finds the records of the grammar. -/
theorem splitAll_eq_ok_iff {payload : Bytes} {records : List TpktRecord} :
    splitAll payload = .ok records ↔ Spell records payload := by
  -- The loop runs over the payload, and each step is `split_eq_ok_iff`.
  induction hlength : payload.length using Nat.strongRecOn generalizing payload records with
  | ind count ih =>
    constructor
    · intro h
      by_cases hempty : payload = []
      · subst hempty
        rw [splitAll_nil] at h
        cases h
        exact ⟨nofun, rfl⟩
      · cases hsplit : split payload with
        | error error =>
            rw [splitAll_of_split_error hempty hsplit] at h
            cases h
        | ok step =>
            obtain ⟨record, rest⟩ := step
            have hshorter := length_lt_of_split hsplit
            rw [splitAll_of_split hsplit] at h
            cases hrest : splitAll rest with
            | error error =>
                rw [hrest] at h
                cases h
            | ok others =>
                rw [hrest] at h
                cases h
                obtain ⟨wellFormed, hpayload⟩ := of_split_eq_ok hsplit
                obtain ⟨hothers, hspelled⟩ := (ih _ (hlength ▸ hshorter) rfl).mp hrest
                refine ⟨List.forall_mem_cons.mpr ⟨wellFormed, hothers⟩, ?_⟩
                rw [List.flatMap_cons, ← hspelled]
                exact hpayload
    · rintro ⟨hrecords, hpayload⟩
      cases records with
      | nil =>
          rw [hpayload]
          exact splitAll_nil
      | cons record others =>
          obtain ⟨wellFormed, hothers⟩ := List.forall_mem_cons.mp hrecords
          rw [List.flatMap_cons] at hpayload
          have hsplit : split payload = .ok (record, others.flatMap bytes) :=
            split_eq_ok_iff.mpr ⟨wellFormed, hpayload⟩
          have hshorter := length_lt_of_split hsplit
          have hrest := (ih _ (hlength ▸ hshorter) rfl).mpr ⟨hothers, rfl⟩
          rw [splitAll_of_split hsplit, hrest]
          rfl

/-- A record that cannot be taken off is at fault in its TPKT header or in its TPDU. -/
theorem layer_of_split {payload : Bytes} {error : ExtractionError}
    (h : split payload = .error error) : error.layer = .tpkt ∨ error.layer = .cotp := by
  unfold split at h
  split at h
  case h_2 =>
    cases h
    exact Or.inl rfl
  case h_1 first reserved length1 length0 behind =>
    dsimp only at h
    split at h
    case isTrue =>
      cases h
      exact Or.inl rfl
    case isFalse =>
      split at h
      case isTrue =>
        cases h
        exact Or.inl rfl
      case isFalse =>
        cases htpdu : ofTpdu reserved
            (behind.take (Bytes.bigEndian [length1, length0] - headerSize)) with
        | ok record =>
            rw [htpdu] at h
            cases h
        | error own =>
            rw [htpdu] at h
            cases h
            unfold ofTpdu at htpdu
            split at htpdu
            · cases htpdu
              exact Or.inr rfl
            · split at htpdu
              · cases htpdu
                exact Or.inr rfl
              · cases htpdu

/-- A payload that is refused is refused as TPKT or as COTP. -/
theorem layer_of_splitAll {payload : Bytes} {error : ExtractionError}
    (h : splitAll payload = .error error) : error.layer = .tpkt ∨ error.layer = .cotp := by
  induction hlength : payload.length using Nat.strongRecOn generalizing payload with
  | ind count ih =>
    by_cases hempty : payload = []
    · subst hempty
      rw [splitAll_nil] at h
      cases h
    · cases hsplit : split payload with
      | error own =>
          rw [splitAll_of_split_error hempty hsplit] at h
          cases h
          exact layer_of_split hsplit
      | ok step =>
          obtain ⟨record, rest⟩ := step
          have hshorter := length_lt_of_split hsplit
          rw [splitAll_of_split hsplit] at h
          cases hrest : splitAll rest with
          | ok others =>
              rw [hrest] at h
              cases h
          | error own =>
              rw [hrest] at h
              cases h
              exact ih _ (hlength ▸ hshorter) hrest rfl

end TpktRecord

/-! ### What a frame carries -/

namespace CaptureFile

/-- A frame that carries PDUs is a frame of the file in which they were found. -/
theorem exists_of_mem_rsiFrames {file : CaptureFile} {ports : List UInt16} {rsi : RsiFrame}
    (h : rsi ∈ file.rsiFrames ports) :
    ∃ frame ∈ file.frames, rsi.number = frame.number
      ∧ RsiSegment.ofFrame file.linkType file.order ports frame.data = .found rsi.segment := by
  obtain ⟨⟨frame, extraction⟩, hmem, hfound⟩ := List.mem_filterMap.mp h
  obtain ⟨own, hown, heq⟩ := List.mem_map.mp hmem
  obtain ⟨rfl, hextraction⟩ := Prod.mk.inj heq
  rw [← hextraction] at hfound
  refine ⟨own, hown, ?_⟩
  cases hframe : RsiSegment.ofFrame file.linkType file.order ports own.data with
  | found segment =>
      simp only [hframe] at hfound
      cases hfound
      exact ⟨rfl, rfl⟩
  | absent => simp [hframe] at hfound
  | damaged error => simp [hframe] at hfound

/-- A damaged frame is not among the frames over which the two passes go. -/
theorem number_ne_of_damaged {file : CaptureFile} {options : CaptureOptions}
    {frame : CapturedFrame} {error : ExtractionError} (numbered : file.Numbered)
    (hframe : frame ∈ file.frames)
    (damaged : RsiSegment.ofFrame file.linkType file.order options.ports frame.data
      = .damaged error) {rsi : RsiFrame} (hrsi : rsi ∈ (CaptureRun.ofFile options file).frames) :
    rsi.number ≠ frame.number := by
  intro hnumber
  obtain ⟨own, hown, hnumberOwn, hfound⟩ := exists_of_mem_rsiFrames hrsi
  -- Two frames of one number are one frame, and it cannot be both sound and damaged.
  have hdistinct : (file.frames.map (·.number)).Nodup :=
    List.pairwise_map.mpr (numbered.imp fun hlt => Nat.ne_of_lt hlt)
  have hsame : own = frame := by
    refine List.inj_on_of_nodup_map hdistinct hown hframe ?_
    rw [← hnumberOwn, hnumber]
  rw [hsame, damaged] at hfound
  cases hfound

end CaptureFile

namespace RsiSegment

/-- The PDUs of a TCP segment, if there are any. -/
def ofSegment (source destination : BitVec 32) (segment : Segment) : Extraction RsiSegment := do
  let pdus ← TpktRecord.pdus segment.payload
  Extraction.require !pdus.isEmpty
  return {
    source
    destination
    sourcePort := segment.sourcePort
    destinationPort := segment.destinationPort
    pdus }

section Layers

variable {linkType : LinkType} {order : ByteOrder} {ports : List UInt16} {data packet : Bytes}
  {datagram : Datagram} {segment : Segment}

/-- Where all three layers are sound, their payload decides. -/
theorem ofFrame_of_found (link : linkType.packet order data = .found packet)
    (network : Datagram.ofPacket packet = .found datagram)
    (transport : Segment.ofBytes ports datagram.segment = .found segment) :
    ofFrame linkType order ports data
      = ofSegment datagram.source datagram.destination segment := by
  unfold ofFrame
  rw [link, Extraction.found_bind, network, Extraction.found_bind, transport,
    Extraction.found_bind]
  rfl

/-- A segment with a payload of well-formed records gives what the records carry. -/
theorem ofSegment_of_spell {records : List TpktRecord} (source destination : BitVec 32)
    (spell : TpktRecord.Spell records segment.payload) :
    ofSegment source destination segment
      = if records.filterMap TpktRecord.userData = [] then .absent
        else .found {
          source
          destination
          sourcePort := segment.sourcePort
          destinationPort := segment.destinationPort
          pdus := records.filterMap TpktRecord.userData } := by
  have hpdus : TpktRecord.pdus segment.payload
      = .found (records.filterMap TpktRecord.userData) := by
    have hall := TpktRecord.splitAll_eq_ok_iff.mpr spell
    rw [TpktRecord.pdus, hall, ← funext TpktRecord.pdu?_eq_userData]
  unfold ofSegment
  rw [hpdus, Extraction.found_bind]
  cases records.filterMap TpktRecord.userData with
  | nil => rw [Extraction.require_bind_of_not (by rfl), if_pos rfl]
  | cons pdu pdus =>
      rw [Extraction.require_bind (by rfl), if_neg (List.cons_ne_nil pdu pdus)]
      rfl

/-- A segment with any other payload is damaged, as TPKT or as COTP. -/
theorem ofSegment_of_not_spell (source destination : BitVec 32)
    (refused : ¬ ∃ records, TpktRecord.Spell records segment.payload) :
    ∃ error, ofSegment source destination segment = .damaged error
      ∧ (error.layer = .tpkt ∨ error.layer = .cotp) := by
  cases hsplit : TpktRecord.splitAll segment.payload with
  | ok records => exact absurd ⟨records, TpktRecord.splitAll_eq_ok_iff.mp hsplit⟩ refused
  | error error =>
      refine ⟨error, ?_, TpktRecord.layer_of_splitAll hsplit⟩
      have hpdus : TpktRecord.pdus segment.payload = .damaged error := by
        rw [TpktRecord.pdus, hsplit]
      rw [ofSegment, hpdus, Extraction.damaged_bind]

/-- **A TCP payload is a run of records, or nothing.** Take a frame whose link, IPv4 and TCP
headers are sound and one of whose ports is listed. If its payload is a run of well-formed
records, it is so in one way only, and the frame gives what those records carry, in their
order. Otherwise the frame is damaged at TPKT or at COTP, and in no file that holds it is it
among the frames over which the two passes go, so none of its PDUs is decoded. -/
theorem ofFrame_allOrNothing (link : linkType.packet order data = .found packet)
    (network : Datagram.ofPacket packet = .found datagram)
    (transport : Segment.ofBytes ports datagram.segment = .found segment) :
    (∀ records, TpktRecord.Spell records segment.payload →
      (∀ others, TpktRecord.Spell others segment.payload → others = records)
        ∧ ofFrame linkType order ports data
          = if records.filterMap TpktRecord.userData = [] then .absent
            else .found {
              source := datagram.source
              destination := datagram.destination
              sourcePort := segment.sourcePort
              destinationPort := segment.destinationPort
              pdus := records.filterMap TpktRecord.userData })
    ∧ ((¬ ∃ records, TpktRecord.Spell records segment.payload) →
      ∃ error, ofFrame linkType order ports data = .damaged error
        ∧ (error.layer = .tpkt ∨ error.layer = .cotp)
        ∧ ∀ (file : CaptureFile) (options : CaptureOptions), file.linkType = linkType →
          file.order = order → options.ports = ports → file.Numbered →
          ∀ frame ∈ file.frames, frame.data = data →
          ∀ rsi ∈ (CaptureRun.ofFile options file).frames, rsi.number ≠ frame.number) := by
  rw [ofFrame_of_found link network transport]
  constructor
  · intro records spell
    refine ⟨fun others hothers => ?_, ofSegment_of_spell _ _ spell⟩
    -- Both are what the loop finds.
    have hrecords := TpktRecord.splitAll_eq_ok_iff.mpr spell
    rw [TpktRecord.splitAll_eq_ok_iff.mpr hothers] at hrecords
    exact Except.ok.inj hrecords
  · intro refused
    obtain ⟨error, hdamaged, hlayer⟩ := ofSegment_of_not_spell datagram.source
      datagram.destination refused
    refine ⟨error, hdamaged, hlayer, ?_⟩
    rintro file options rfl rfl rfl numbered frame hframe rfl rsi hrsi
    have hframeDamaged : ofFrame file.linkType file.order options.ports frame.data
        = .damaged error := by
      rw [ofFrame_of_found link network transport]
      exact hdamaged
    exact CaptureFile.number_ne_of_damaged numbered hframe hframeDamaged hrsi

/-- Of a data TPDU, another TPDU and a data TPDU that carries nothing, the first gives a PDU.
With an empty record behind them, none does. -/
theorem ofFrame_allOrNothing_threeRecords :
    let records : List TpktRecord :=
      [⟨0, 2, [0xF0, 0x80, 0xAA]⟩, ⟨9, 2, [0x80, 0]⟩, ⟨0, 2, [0xF0, 0x80]⟩]
    let whole : Segment := ⟨4096, 102, records.flatMap TpktRecord.bytes⟩
    let cut : Segment := { whole with payload := whole.payload ++ [3, 0, 0, 4] }
    let tcp (segment : Segment) : Bytes :=
      [0x10, 0, 0, 102, 0, 0, 0, 0, 0, 0, 0, 0, 0x50, 0x10, 0, 0, 0, 0, 0, 0] ++ segment.payload
    let packet (segment : Segment) : Bytes :=
      [0x45, 0, 0, UInt8.ofNat (20 + (tcp segment).length), 0, 0, 0, 0, 64, 6, 0, 0,
        10, 0, 0, 1, 10, 0, 0, 2] ++ tcp segment
    (∀ segment ∈ [whole, cut],
      Datagram.ofPacket (packet segment) = .found ⟨0x0A000001, 0x0A000002, tcp segment⟩
        ∧ Segment.ofBytes [102] (tcp segment) = .found segment)
      ∧ TpktRecord.Spell records whole.payload
      ∧ ofFrame .raw .little [102] (packet whole)
        = .found ⟨0x0A000001, 0x0A000002, 4096, 102, [[0xAA]]⟩
      ∧ (¬ ∃ others, TpktRecord.Spell others cut.payload)
      ∧ ∃ error, ofFrame .raw .little [102] (packet cut) = .damaged error
        ∧ (error.layer = .tpkt ∨ error.layer = .cotp) := by
  intro records whole cut tcp packet
  have hlayers : ∀ segment ∈ [whole, cut],
      Datagram.ofPacket (packet segment) = .found ⟨0x0A000001, 0x0A000002, tcp segment⟩
        ∧ Segment.ofBytes [102] (tcp segment) = .found segment := by
    decide +kernel
  obtain ⟨hnetwork, htransport⟩ := hlayers whole (by decide)
  obtain ⟨hcutNetwork, hcutTransport⟩ := hlayers cut (by decide)
  have hspell : TpktRecord.Spell records whole.payload :=
    TpktRecord.splitAll_eq_ok_iff.mp (by decide +kernel)
  have hrefused : ¬ ∃ others, TpktRecord.Spell others cut.payload := by
    rintro ⟨others, hothers⟩
    have hfailed : TpktRecord.splitAll cut.payload = .error .emptyTpdu := by decide +kernel
    rw [TpktRecord.splitAll_eq_ok_iff.mpr hothers] at hfailed
    cases hfailed
  have hlink : ∀ data : Bytes, LinkType.raw.packet .little data = .found data := fun _ => rfl
  obtain ⟨hwhole, -⟩ := ofFrame_allOrNothing (hlink _) hnetwork htransport
  obtain ⟨-, hcut⟩ := ofFrame_allOrNothing (hlink _) hcutNetwork hcutTransport
  obtain ⟨error, hdamaged, hlayer, -⟩ := hcut hrefused
  refine ⟨hlayers, hspell, (hwhole records hspell).2, hrefused, error, hdamaged, hlayer⟩

end Layers

end RsiSegment

end ProfinetRsi

import ProfinetRsi.Proofs.Decoder.Handover

/-!
# `ProfinetRsi.Proofs.Decoder.Payload`: the payload that a PDU hands over

Which PDUs have a payload for reassembly, and where in the PDU it is.

* `handsOver_requestBlock`, `handsOver_responseBlock`: a block hands over its
  payload if its fixed fields are there and its lengths leave room for any.
* `handsOver_body`: requests for a service and responses hand over what their block
  does; no other PDU hands over anything.
* `handsOver_pdu`: the same for a whole PDU in either envelope. `pduFragment?` names
  the fragment that it hands over, and the number of bytes of its fixed fields.
-/

set_option autoImplicit false

namespace ProfinetRsi

/-- The number of bytes in front of a block: the header and the FOpnumOffset word,
with the metadata of a secured PDU. -/
def Envelope.lead : Envelope → Nat
  | .plain => Header.size + 4
  | .secured => SecurityMetadata.size + Header.size + 4

/-- The number of bytes behind the payload. -/
def Envelope.tail : Envelope → Nat
  | .plain => 0
  | .secured => SecurityMetadata.checksumSize

namespace Decoder

/-! ### Bodies without a payload -/

theorem silent_inform (info : String) : Silent (inform info) :=
  ⟨fun _ _ => ⟨rfl, rfl⟩, .report rfl⟩

theorem silent_note (severity : Severity) (message : String) : Silent (note severity message) :=
  ⟨fun _ _ => ⟨rfl, rfl⟩, fun buffer position => .bare rfl buffer position⟩

theorem silent_remaining : Silent remaining :=
  ⟨fun _ _ => ⟨rfl, rfl⟩, fun buffer position => .bare rfl buffer position⟩

theorem silent_pure : Silent (pure ()) :=
  ⟨fun _ _ => ⟨rfl, rfl⟩, .pure ()⟩

/-- Bytes shown as they are, however many. -/
theorem silent_shownBytes (key label : String) (width : Nat)
    (hkey : key ≠ FieldNode.messageKey) : Silent (shownBytes key label width) where
  unpaid buffer position := by
    rw [run_shownBytes]
    split <;> exact ⟨rfl, rfl⟩
  accountable := by
    refine .ofTake (fun offset bytes => { nodes := [.ofBytes key label offset bytes] }) id
      (run_shownBytes key label width) fun buffer offset bytes _ hholds => ?_
    refine ⟨accounts_bytes hholds key label, fun node hnode => ?_⟩
    rw [FieldNode.preorderAll_cons, FieldNode.preorder_ofBytes] at hnode
    rw [List.mem_singleton.mp hnode]
    exact hkey

theorem run_undecoded (buffer : Bytes) (position : Nat) :
    undecoded buffer position
      = ({ nodes := PnioBlock.undecoded position (buffer.drop position) },
          .ok ((), max position buffer.length)) := by
  simp only [undecoded, run_bind, Decoder.position, rest, showNodes, report,
    Findings.empty_append]

theorem silent_undecoded : Silent undecoded where
  unpaid buffer position := by
    rw [run_undecoded]
    exact ⟨rfl, rfl⟩
  accountable := by
    refine .ofRest (fun offset bytes => { nodes := PnioBlock.undecoded offset bytes })
      (fun _ => ()) run_undecoded (fun buffer offset bytes hholds => ?_) fun _ => rfl
    exact ⟨PnioBlock.accounts_undecoded hholds,
      fun _ h => (PnioBlock.isPart_of_mem_undecoded h).messageless⟩

theorem silent_ackBody (header : Header) : Silent (ackBody header) := by
  unfold ackBody
  refine (silent_inform _).bind fun _ => ?_
  by_cases h : header.addFlags.notification
  · rw [if_pos h]
    exact silent_inform _
  · rw [if_neg h]
    exact silent_pure

theorem silent_errBody (envelope : Envelope) : Silent (errBody envelope) := by
  have hvendor := (reads_uint Fields.vendorId (by simp [Fields.all])).silent
  have hdevice := (reads_uint Fields.deviceId (by simp [Fields.all])).silent
  unfold errBody
  refine (silent_inform _).bind fun _ => reads_pnioStatus.silent.bind fun _ =>
    silent_remaining.bind fun left => ?_
  -- Only a secured error may go on behind the status, and then without a payload.
  by_cases h : envelope = .secured ∧ 0 < left
  · rw [if_pos h]
    exact hvendor.bind fun _ => hdevice.bind fun _ => silent_remaining.bind fun _ =>
      (silent_shownBytes _ _ _ (by decide)).bind fun _ => silent_pure
  · rw [if_neg h]
    exact silent_pure

/-! ### Blocks -/

/-- The fixed fields of a request, which come with the first fragment. -/
def requestFields (layout : RequestLayout) (destination : UInt16) (fragment : Fragment) :
    Decoder Unit := do
  if fragment.isFirst then
    let rspMaxLength ← uint Fields.rspMaxLength
    let endpoint ← if layout.hasEndpoint destination then some <$> endpoint else pure none
    report { block := layout.block (some (UInt32.ofNat rspMaxLength)) endpoint }
  else
    if !fragment.moreFragments then remark layout.laterFragmentText
    report { block := layout.block none none }

/-- The fixed fields of a response, which come with the first fragment. -/
def responseFields (fragment : Fragment) : Decoder Unit := do
  if fragment.isFirst then
    let status ← pnioStatus
    report { block := some (.response (some status)) }
  else
    if !fragment.moreFragments then remark ", RSI Header of RSP is at first fragmented frame"
    report { block := some (.response none) }

/-- The payload of a request is decoded behind the fixed fields. -/
theorem requestBlock_eq (layout : RequestLayout) (destination : UInt16) (fragment : Fragment)
    (outcome : Outcome) :
    requestBlock layout destination fragment outcome
      = spanning layout.key layout.label
          (requestFields layout destination fragment >>= fun _ =>
            payloadIfAny fragment outcome) := by
  unfold requestBlock requestFields
  by_cases hfirst : fragment.isFirst
  · by_cases hendpoint : layout.hasEndpoint destination <;> simp [hfirst, hendpoint]
  · by_cases hmore : fragment.moreFragments <;> simp [hfirst, hmore]

/-- The payload of a response is decoded behind the fixed fields. -/
theorem responseBlock_eq (fragment : Fragment) (outcome : Outcome) :
    responseBlock fragment outcome
      = responseFields fragment >>= fun _ => payloadIfAny fragment outcome := by
  unfold responseBlock responseFields
  by_cases hfirst : fragment.isFirst
  · simp [hfirst]
  · by_cases hmore : fragment.moreFragments <;> simp [hfirst, hmore]

/-- A last fragment may say where the fixed fields are, and settles a block without
any. -/
theorem settles_later (text : String) (last : Bool) {block : RsiBlock}
    (hsize : block.fixedSize = 0) :
    Settles (do
      if last then remark text
      report { block }) 0 := by
  have hremark : Reads (if last then remark text else pure ()) 0 fun _ _ => () := by
    cases last
    · exact .pure ()
    · exact .report ⟨⟨rfl, rfl, by simp⟩, rfl⟩ rfl
  have hsettles := hremark.settles (fun _ => block) fun _ _ => hsize
  cases last <;> simpa using hsettles

/-- The endpoint identity, if one belongs to the fixed fields. -/
theorem reads_endpointIf (present : Bool) :
    Reads (if present then some <$> endpoint else pure none) (if present then Endpoint.size else 0)
      fun buffer position => if present then some (.readAt buffer position) else none := by
  cases present
  · exact .pure none
  · exact .map some reads_endpoint

/-- The block of a first fragment has fixed fields of the layout's size. -/
theorem fixedSize_block (layout : RequestLayout) (destination : UInt16) (rspMaxLength : UInt32)
    (endpoint : Endpoint) :
    (layout.block (some rspMaxLength)
        (if layout.hasEndpoint destination then some endpoint else none)).fixedSize
      = layout.fixedSize destination := by
  unfold RequestLayout.fixedSize
  cases layout with
  | connection => rfl
  | service => rfl
  | securityAssociationControl =>
      cases h : RequestLayout.securityAssociationControl.hasEndpoint destination <;>
        simp [RequestLayout.block, RsiBlock.fixedSize]

theorem settles_requestFields (layout : RequestLayout) (destination : UInt16)
    (fragment : Fragment) :
    Settles (requestFields layout destination fragment)
      (if fragment.isFirst then layout.fixedSize destination else 0) := by
  by_cases hfirst : fragment.isFirst
  · -- Read as one decoder of pairs, whose answer is then reported.
    have hfields := Reads.bind (reads_uint Fields.rspMaxLength (by simp [Fields.all])) fun raw =>
      Reads.bind (reads_endpointIf (layout.hasEndpoint destination)) fun endpoint =>
        .pure (UInt32.ofNat raw, endpoint)
    have hsettles := hfields.settles (fun a => layout.block (some a.1) a.2)
      fun buffer position => fixedSize_block layout destination _ _
    simp only [bind_assoc, pure_bind] at hsettles
    have hsame : requestFields layout destination fragment
        = uint Fields.rspMaxLength >>= fun raw =>
          (if layout.hasEndpoint destination then some <$> endpoint else pure none) >>=
            fun endpoint => report { block := some (layout.block (some (UInt32.ofNat raw)) endpoint) } := by
      by_cases hendpoint : layout.hasEndpoint destination <;>
        simp [requestFields, hfirst, hendpoint]
    rw [hsame, if_pos hfirst]
    exact hsettles
  · simp only [requestFields, hfirst, Bool.false_eq_true, if_false]
    exact settles_later _ _ (by cases layout <;> rfl)

theorem settles_responseFields (fragment : Fragment) :
    Settles (responseFields fragment) (if fragment.isFirst then PnioStatus.size else 0) := by
  unfold responseFields
  by_cases hfirst : fragment.isFirst
  · simp only [hfirst, if_true]
    exact reads_pnioStatus.settles (fun status => .response (some status)) fun _ _ => rfl
  · simp only [hfirst, Bool.false_eq_true, if_false]
    exact settles_later _ _ rfl

theorem handsOver_requestBlock (layout : RequestLayout) (destination : UInt16)
    (fragment : Fragment) :
    HandsOver (requestBlock layout destination fragment) 0 0
      (blockFragment? fragment
        (if fragment.isFirst then layout.fixedSize destination else 0)) := by
  have hands := HandsOver.ofSettles (settles_requestFields layout destination fragment) fragment
  have hkey : layout.key ∉ payloadKeys := by
    cases layout <;> decide
  have hsame : requestBlock layout destination fragment = _ :=
    funext (requestBlock_eq layout destination fragment)
  rw [hsame]
  exact hands.spanning hkey layout.label

theorem handsOver_responseBlock (fragment : Fragment) :
    HandsOver (responseBlock fragment) 0 0
      (blockFragment? fragment (if fragment.isFirst then PnioStatus.size else 0)) := by
  have hsame : responseBlock fragment = _ := funext (responseBlock_eq fragment)
  rw [hsame]
  exact HandsOver.ofSettles (settles_responseFields fragment) fragment

/-! ### Bodies -/

/-- The fragment that a request hands over, behind its FOpnumOffset word. -/
def requestFragment? (header : Header) (word : OpnumWord) (buffer : Bytes) (position : Nat) :
    Option (Fragment × Nat) :=
  let destination := header.accessPoints.destination
  let fragment := Fragment.ofHeader header word .request
  match RequestLayout.ofOpnum? word.opnum destination with
  | some layout =>
    blockFragment? fragment (if fragment.isFirst then layout.fixedSize destination else 0)
      buffer position
  | none => none

/-- The fragment that a response hands over, behind its FOpnumOffset word. -/
def responseFragment? (header : Header) (word : OpnumWord) (buffer : Bytes) (position : Nat) :
    Option (Fragment × Nat) :=
  let fragment := Fragment.ofHeader header word .response
  blockFragment? fragment (if fragment.isFirst then PnioStatus.size else 0) buffer position

/-- The fragment that a PDU with `header` hands over. -/
def bodyFragment? (header : Header) (buffer : Bytes) (position : Nat) : Option (Fragment × Nat) :=
  let word := OpnumWord.readAt buffer position
  if Fits buffer position 4 then
    match header.pduType.rtaType with
    | .freq => requestFragment? header word buffer (position + 4)
    | .frsp => responseFragment? header word buffer (position + 4)
    | _ => none
  else none

theorem handsOver_requestBody (header : Header) :
    HandsOver (requestBody header) 4 0 fun buffer position =>
      if Fits buffer position 4 then
        requestFragment? header (.readAt buffer position) buffer (position + 4)
      else none := by
  have hbehind : ∀ word : OpnumWord, HandsOver (fun outcome => do
      inform (requestInfo word.opnum)
      match RequestLayout.ofOpnum? word.opnum header.accessPoints.destination with
      | some layout =>
        requestBlock layout header.accessPoints.destination (.ofHeader header word .request) outcome
      | none =>
        note .note s!"Reserved opnum {word.opnum.value.toNat}"
        undecoded) 0 0 (requestFragment? header word) := by
    intro word
    refine HandsOver.reporting ?_ ⟨⟨rfl, rfl, by simp⟩, rfl⟩ rfl
    unfold requestFragment?
    dsimp only
    -- A reserved opnum has no layout, and its body is not looked at.
    cases RequestLayout.ofOpnum? word.opnum header.accessPoints.destination with
    | some layout => exact handsOver_requestBlock layout _ _
    | none => exact .ofSilent ((silent_note _ _).bind fun _ => silent_undecoded) 0 0
  exact HandsOver.after reads_opnumWord hbehind

theorem handsOver_responseBody (header : Header) :
    HandsOver (responseBody header) 4 0 fun buffer position =>
      if Fits buffer position 4 then
        responseFragment? header (.readAt buffer position) buffer (position + 4)
      else none := by
  have hbehind : ∀ word : OpnumWord, HandsOver (fun outcome => do
      inform (responseInfo word.opnum)
      responseBlock (.ofHeader header word .response) outcome) 0 0
      (responseFragment? header word) := fun word =>
    HandsOver.reporting (handsOver_responseBlock _) ⟨⟨rfl, rfl, by simp⟩, rfl⟩ rfl
  exact HandsOver.after reads_opnumWord hbehind

/-- Requests and responses alone hand over a payload. -/
theorem handsOver_body (envelope : Envelope) (header : Header) :
    HandsOver (body envelope header) 4 0 (bodyFragment? header) := by
  unfold body bodyFragment?
  cases header.pduType.rtaType with
  | ack => simpa using HandsOver.ofSilent (silent_ackBody header) 4 0
  | err => simpa using HandsOver.ofSilent (silent_errBody envelope) 4 0
  | freq => exact handsOver_requestBody header
  | frsp => exact handsOver_responseBody header
  | reserved value =>
      simpa using HandsOver.ofSilent ((silent_note _ _).bind fun _ => silent_undecoded) 4 0

/-! ### PDUs -/

/-- The fragment that a PDU hands over whose header stands at `position` behind the
access points. -/
def headerFragment? (accessPoints : AccessPoints) (buffer : Bytes) (position : Nat) :
    Option (Fragment × Nat) :=
  if Fits buffer position 8 then
    bodyFragment? (.readBehind accessPoints buffer position) buffer (position + 8)
  else none

/-- The fragment that the readable part of a secured PDU hands over, behind the
access points. An encrypted PDU has no readable part. -/
def securedFragment? (mode : ProtectionMode) (accessPoints : AccessPoints) (buffer : Bytes)
    (position : Nat) : Option (Fragment × Nat) :=
  match mode with
  | .authenticationOnly =>
    headerFragment? accessPoints
      (buffer.take (max (buffer.length - SecurityMetadata.checksumSize) position)) position
  | .authenticatedEncryption => none

/-- The fragment that the PDU at `start` hands over. -/
def pduFragment? (envelope : Envelope) (buffer : Bytes) (start : Nat) : Option (Fragment × Nat) :=
  match envelope with
  | .plain =>
    if Fits buffer start Header.size then
      bodyFragment? (.readAt buffer start) buffer (start + Header.size)
    else none
  | .secured =>
    if Fits buffer start SecurityMetadata.size then
      let position := start + SecurityMetadata.size
      if Fits buffer position 4 then
        securedFragment? (SecurityMetadata.readAt buffer start).protectionMode
          (.readAt buffer position) buffer (position + 4)
      else none
    else none

theorem handsOver_headerBehind (accessPoints : AccessPoints) (envelope : Envelope) :
    HandsOver (fun outcome => do
        let header ← headerBehind accessPoints
        report { header }
        body envelope header outcome) 12 0 (headerFragment? accessPoints) :=
  .after (reads_headerBehind accessPoints) fun header =>
    .reporting (handsOver_body envelope header) ⟨⟨rfl, rfl, by simp⟩, rfl⟩ rfl

/-- The node of a ciphertext, if there is any. -/
def ciphertextNodes (offset : Nat) (bytes : Bytes) : List FieldNode :=
  if bytes.isEmpty then [] else [.ofBytes "pn_rsi.security_data" "SecurityData" offset bytes]

theorem run_securityData (buffer : Bytes) (position : Nat) :
    securityData buffer position
      = ({ nodes := ciphertextNodes position (buffer.drop position) },
          .ok ((buffer.drop position).length, max position buffer.length)) := by
  by_cases hempty : (buffer.drop position).isEmpty
  · simp only [securityData, shownRest, ciphertextNodes, run_bind, run_pure, Decoder.position,
      rest, hempty, Bool.not_true, Bool.false_eq_true, if_false, if_true, Findings.empty_append]
    rfl
  · simp only [securityData, shownRest, ciphertextNodes, run_bind, run_pure, Decoder.position,
      rest, hempty, Bool.not_false, Bool.false_eq_true, if_false, if_true, showNodes, report,
      Findings.empty_append, Findings.append_empty]

theorem silent_securityData : Silent securityData where
  unpaid buffer position := by
    rw [run_securityData]
    exact ⟨rfl, rfl⟩
  accountable := by
    refine .ofRest (fun offset bytes => { nodes := ciphertextNodes offset bytes }) List.length
      run_securityData (fun buffer offset bytes hholds => ?_) fun _ => rfl
    cases bytes with
    | nil => exact .bare rfl buffer offset
    | cons byte bytes =>
        refine ⟨accounts_bytes hholds "pn_rsi.security_data" "SecurityData", fun node hnode => ?_⟩
        rw [List.mem_singleton.mp hnode]
        show "pn_rsi.security_data" ≠ FieldNode.messageKey
        decide

/-- Behind the metadata and the access points of a secured PDU. -/
theorem handsOver_securedBehind (mode : ProtectionMode) (accessPoints : AccessPoints) :
    HandsOver (fun outcome => do
        match mode with
        | .authenticationOnly =>
          withoutLast SecurityMetadata.checksumSize do
            let header ← headerBehind accessPoints
            report { header }
            body .secured header outcome
          securityChecksum
        | .authenticatedEncryption =>
          let length ← securityData
          inform (encryptedInfo accessPoints length)) 12 SecurityMetadata.checksumSize
      (securedFragment? mode accessPoints) := by
  cases mode with
  | authenticationOnly =>
      exact (handsOver_headerBehind accessPoints .secured).authenticated (by decide)
  | authenticatedEncryption =>
      exact .ofSilent (silent_securityData.bind fun _ => silent_inform _) 12 _

theorem handsOver_securedPdu :
    HandsOver securedPdu (Envelope.lead .secured) (Envelope.tail .secured)
      (pduFragment? .secured) := by
  exact .after reads_securityMetadata fun security =>
    .reporting (.after reads_accessPoints fun accessPoints =>
      handsOver_securedBehind security.protectionMode accessPoints) ⟨⟨rfl, rfl, by simp⟩, rfl⟩ rfl

/-- **The payload of a PDU.** A PDU hands over a payload exactly if `pduFragment?`
names its fragment, and its own bytes alone settle everything but what is shown of
that payload. -/
theorem handsOver_pdu (envelope : Envelope) :
    HandsOver (pdu envelope) envelope.lead envelope.tail (pduFragment? envelope) := by
  cases envelope with
  | plain =>
      exact .after reads_header fun header =>
        .reporting (handsOver_body .plain header) ⟨⟨rfl, rfl, by simp⟩, rfl⟩ rfl
  | secured => exact handsOver_securedPdu

end Decoder

end ProfinetRsi

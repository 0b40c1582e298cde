import ProfinetRsi.Proofs.Coverage
import ProfinetRsi.Proofs.Decoder.Confined
import ProfinetRsi.Proofs.Decoder.Secured
import ProfinetRsi.Proofs.Session.Effect

/-!
# `ProfinetRsi.Proofs.Session.Protection`: what the two modes of the envelope let through

The lowest bit of a secured PDU selects its mode. Behind the access points an encrypted PDU
is one string of bytes, of which nothing but the length has any part in what is found out.
An authenticated PDU is read up to where its body ends, which is in front of the last
sixteen bytes, and its checksum stands there.

* `Dissection.veiled`: a dissection without the bytes of the ciphertext.
* `Dissection.IsEncrypted`, `Dissection.EndsInChecksum`: what the dissections of the two
  kinds of PDUs say.
* `protection_exclusive`: the mode decides between the two.
-/

set_option autoImplicit false

namespace ProfinetRsi

/-- The key of the node of a ciphertext. -/
def ciphertextKey : String := "pn_rsi.security_data"

/-- The key of the node of a checksum. -/
def checksumKey : String := "pn_rsi.security_checksum"

/-- The keys of the fields of a header behind its access points. -/
def headerKeys : List String :=
  ["pn_rsi.pdu_type", "pn_rsi.add_flags"] ++ [
    Fields.pduTypeType, Fields.pduTypeVersion, Fields.flagsWindowSize, Fields.flagsReservedLow,
    Fields.flagsTack, Fields.flagsMoreFragments, Fields.flagsNotification,
    Fields.flagsReservedHigh, Fields.sendSequenceNumber, Fields.ackSequenceNumber,
    Fields.varPartLength].map (·.key)

/-- The node without its value, if it shows a ciphertext. -/
def FieldNode.veiled (node : FieldNode) : FieldNode :=
  if node.key = ciphertextKey then { node with value := .none } else node

/-- No node with another key is found among nodes with these. -/
theorem FieldNode.filter_key_eq_nil {nodes : List FieldNode} {keys : List String} {key : String}
    (h : ∀ node ∈ nodes, node.key ∈ keys) (other : key ∉ keys) :
    nodes.filter (·.key = key) = [] := by
  rw [List.filter_eq_nil_iff]
  intro node hnode hkey
  exact other (of_decide_eq_true hkey ▸ h node hnode)

namespace Decoder

variable {buffer : Bytes} {start : Nat}

/-! ### The front -/

/-- The keys that the front of a secured PDU shows are none of a header's, and neither the
one of a ciphertext nor the one of a checksum. -/
theorem filter_securedFront {key : String} (h : key ∈ ciphertextKey :: checksumKey :: headerKeys) :
    (FieldNode.preorderAll (securedFront buffer start).nodes).filter (·.key = key) = [] := by
  refine FieldNode.filter_key_eq_nil (fun node hnode => key_of_mem_securedFront hnode) ?_
  revert key
  decide

/-- The front is the same in buffers that agree on it. -/
theorem securedFront_congr {other : Bytes}
    (h : other.take (start + 12) = buffer.take (start + 12)) :
    securedFront other start = securedFront buffer start := by
  rw [← securedFront_take other, h, securedFront_take]

/-! ### Encryption -/

/-- What is found out about an encrypted PDU. -/
def encryptedFindings (buffer : Bytes) (start : Nat) : Findings :=
  securedFront buffer start ++ {
    nodes := ciphertextNodes (start + 12) (buffer.drop (start + 12))
    info := encryptedInfo (.readAt buffer (start + 8)) (buffer.drop (start + 12)).length }

/-- Behind the access points of an encrypted PDU everything is taken as it is. -/
theorem run_encrypted (held : start + 12 ≤ buffer.length)
    (mode : (buffer.getD start 0).toNat % 2 = 1) (outcome : Outcome) :
    securedPdu outcome buffer start
      = (encryptedFindings buffer start, .ok ((), buffer.length)) := by
  have hmode : ProtectionMode.ofByte (buffer.getD start 0) = .authenticatedEncryption :=
    if_neg (by omega)
  have hstop : max (start + 12) buffer.length = buffer.length := Nat.max_eq_right held
  rw [run_securedPdu held, hmode, securedBehind, run_bind, run_securityData]
  simp only [inform, report, hstop]
  simp only [encryptedFindings, Findings.append_def, List.append_nil, String.empty_append,
    Option.or_none]

/-- The node of a ciphertext without its value depends on its length alone. -/
theorem veiled_ciphertextNodes (offset : Nat) {bytes other : Bytes}
    (h : other.length = bytes.length) :
    (ciphertextNodes offset other).map FieldNode.veiled
      = (ciphertextNodes offset bytes).map FieldNode.veiled := by
  unfold ciphertextNodes
  by_cases hempty : bytes = []
  · rw [hempty, List.length_nil, List.length_eq_zero_iff] at h
    rw [h, hempty]
  · have hother : other ≠ [] := by
      rintro rfl
      exact hempty (List.length_eq_zero_iff.mp h.symm)
    simp only [List.isEmpty_iff, hempty, hother, if_false, List.map_cons, List.map_nil,
      FieldNode.veiled, FieldNode.ofBytes, ciphertextKey, if_true, h]

/-! ### Authentication -/

/-- An authenticated PDU has its front, and behind it a readable part and the checksum. -/
theorem run_authenticated (held : start + 12 ≤ buffer.length)
    (mode : (buffer.getD start 0).toNat % 2 = 0) (outcome : Outcome) :
    let inner := authenticated (.readAt buffer (start + 8)) outcome buffer (start + 12)
    (∃ found error, inner = (found, .error error)
        ∧ securedPdu outcome buffer start = (securedFront buffer start ++ found, .error error))
      ∨ ∃ found stop, inner = (found, .ok ((), stop))
        ∧ stop + SecurityMetadata.checksumSize ≤ buffer.length
        ∧ securedPdu outcome buffer start
          = (securedFront buffer start ++ (found ++ { nodes := [checksumNode buffer stop] }),
              .ok ((), stop + SecurityMetadata.checksumSize)) := by
  have hmode : ProtectionMode.ofByte (buffer.getD start 0) = .authenticationOnly := if_pos mode
  rw [run_securedPdu held, hmode]
  obtain ⟨found, error, hinner, hbehind⟩ | ⟨found, stop, hinner, hheld, hbehind⟩ :=
    run_securedBehind_authenticated (.readAt buffer (start + 8)) outcome buffer (start + 12)
  · exact .inl ⟨found, error, hinner, by rw [hbehind]⟩
  · exact .inr ⟨found, stop, hinner, hheld, by rw [hbehind]⟩

/-- What is in front of the checksum has none of the keys of the envelope. -/
theorem key_of_mem_authenticated {accessPoints : AccessPoints} {outcome : Outcome}
    {position : Nat} {found : Findings} {result : Except DecodeError (Unit × Nat)}
    (run : authenticated accessPoints outcome buffer position = (found, result)) {node : FieldNode}
    (h : node ∈ FieldNode.preorderAll found.nodes) : node.key ∈ requestKeys ++ bodyKeys := by
  rw [authenticated_eq] at run
  have hfound : (readable .secured accessPoints outcome
      (buffer.take (max (buffer.length - 16) position)) position).1 = found :=
    congrArg Prod.fst run
  rw [← hfound] at h
  exact (confined_readable .secured accessPoints outcome).keyed _ position node h

end Decoder

namespace Dissection

variable {buffer : Bytes} {start : Nat} {outcome : Outcome}

/-! ### Encrypted PDUs -/

/-- The dissection without the bytes of the ciphertext. -/
def veiled (dissection : Dissection) : Dissection :=
  { dissection with
    tree := { dissection.tree with children := dissection.tree.children.map FieldNode.veiled } }

/-- The dissection is one of an encrypted PDU at `start`. It has neither a header nor a
block nor a segment status, and shows what is behind the access points, if anything, as one
string of bytes, and no field of a header. -/
structure IsEncrypted (dissection : Dissection) (buffer : Bytes) (start : Nat) : Prop where
  header : dissection.header = none
  block : dissection.block = none
  segment : dissection.segment = none
  stop : dissection.endOffset = buffer.length
  shown : dissection.tree.children = (Decoder.securedFront buffer start).nodes
    ++ Decoder.ciphertextNodes (start + 12) (buffer.drop (start + 12))
  ciphertext : dissection.tree.findAll ciphertextKey
    = Decoder.ciphertextNodes (start + 12) (buffer.drop (start + 12))
  headerless : ∀ key ∈ headerKeys, dissection.tree.findAll key = []

/-- The dissection of an encrypted PDU. -/
theorem ofPdu_encrypted (held : start + 12 ≤ buffer.length)
    (mode : (buffer.getD start 0).toNat % 2 = 1) (outcome : Outcome) :
    ofPdu .secured outcome buffer start
      = (Decoder.encryptedFindings buffer start).toDissection .secured start buffer.length :=
  ofPdu_of_ok (Decoder.run_encrypted held mode outcome)

theorem isEncrypted_ofPdu (held : start + 12 ≤ buffer.length)
    (mode : (buffer.getD start 0).toNat % 2 = 1) (outcome : Outcome) :
    (ofPdu .secured outcome buffer start).IsEncrypted buffer start := by
  have hnodes : (Decoder.encryptedFindings buffer start).nodes
      = (Decoder.securedFront buffer start).nodes
        ++ Decoder.ciphertextNodes (start + 12) (buffer.drop (start + 12)) := rfl
  have hciphertext : ∀ key, (FieldNode.preorderAll
        (Decoder.ciphertextNodes (start + 12) (buffer.drop (start + 12)))).filter (·.key = key)
      = if key = ciphertextKey then
          Decoder.ciphertextNodes (start + 12) (buffer.drop (start + 12))
        else [] := by
    intro key
    rw [Decoder.ciphertextNodes]
    by_cases hempty : (buffer.drop (start + 12)).isEmpty
    · simp [hempty]
    · rw [if_neg hempty, FieldNode.preorderAll_cons, FieldNode.preorder_ofBytes,
        FieldNode.preorderAll_nil, List.append_nil, List.filter_singleton]
      simp [FieldNode.ofBytes, ciphertextKey, eq_comm]
  rw [ofPdu_encrypted held mode]
  refine ⟨rfl, rfl, rfl, rfl, rfl, ?_, fun key hkey => ?_⟩
  · rw [Findings.findAll_toDissection _ _ _ _ (by decide), hnodes, FieldNode.preorderAll_append,
      List.filter_append, Decoder.filter_securedFront (by decide), hciphertext, if_pos rfl]
    rfl
  · have hroot : ∀ key ∈ headerKeys, key ≠ "pn_rsi" ∧ key ≠ ciphertextKey := by
      decide
    rw [Findings.findAll_toDissection _ _ _ _ (hroot key hkey).1, hnodes,
      FieldNode.preorderAll_append, List.filter_append,
      Decoder.filter_securedFront (by simp [hkey]), hciphertext, if_neg (hroot key hkey).2]
    rfl

/-- Of two ciphertexts of the same length nothing but the bytes themselves is different. -/
theorem veiled_ofPdu_encrypted {other : Bytes} (held : start + 12 ≤ buffer.length)
    (mode : (buffer.getD start 0).toNat % 2 = 1) (hlength : other.length = buffer.length)
    (hfront : other.take (start + 12) = buffer.take (start + 12)) (outcome another : Outcome) :
    (ofPdu .secured another other start).veiled = (ofPdu .secured outcome buffer start).veiled := by
  have hword : ∀ offset width, offset + width ≤ start + 12 →
      other.wordAt offset width = buffer.wordAt offset width := by
    intro offset width h
    rw [← Bytes.wordAt_take h, hfront, Bytes.wordAt_take h]
  have hbyte : other.getD start 0 = buffer.getD start 0 := by
    rw [← Bytes.ofNat_wordAt_one, ← Bytes.ofNat_wordAt_one, hword _ _ (by omega)]
  have hpoints : AccessPoints.readAt other (start + 8) = .readAt buffer (start + 8) := by
    rw [AccessPoints.readAt, AccessPoints.readAt, hword _ _ (by omega), hword _ _ (by omega)]
  have hdrop : (other.drop (start + 12)).length = (buffer.drop (start + 12)).length := by
    rw [List.length_drop, List.length_drop, hlength]
  rw [ofPdu_encrypted held mode, ofPdu_encrypted (by omega) (by rw [hbyte, mode]), hlength,
    Decoder.encryptedFindings, Decoder.encryptedFindings, Decoder.securedFront_congr hfront,
    hpoints, hdrop]
  have hnodes := Decoder.veiled_ciphertextNodes (start + 12) hdrop
  simp only [veiled, Findings.toDissection, Findings.fill, FieldNode.withChildren,
    FieldNode.withText, Findings.nodes_append, List.map_append, hnodes]
  rfl

/-! ### Authenticated PDUs -/

/-- The dissection is one of an authenticated PDU whose body was decoded up to `stop`. The
checksum stands there and is shown once, and the dissection ends behind it. No other node
reaches into the last sixteen bytes, unless it does not come from bytes of this PDU or shows
a message of several. -/
structure EndsInChecksum (dissection : Dissection) (buffer : Bytes) (stop : Nat) : Prop where
  complete : dissection.isTruncated = false
  held : stop + 16 ≤ buffer.length
  checksum : ∃ node, dissection.tree.findAll checksumKey = [node]
    ∧ node.offset = stop ∧ node.length = 16 ∧ node.value = .bytes (buffer.slice stop 16)
  stop : dissection.endOffset = stop + 16
  inside : ∀ node ∈ FieldNode.surfaceAll dissection.tree.children, node.generated = false →
    node.key ≠ FieldNode.messageKey → node.key ≠ checksumKey →
      node.offset + node.length ≤ buffer.length - 16

/-- Neither the front of an authenticated PDU nor what is decoded behind it shows a
ciphertext or a checksum. -/
theorem filter_authenticated {key : String} (h : key ∈ [ciphertextKey, checksumKey])
    {found : Findings} {result : Except DecodeError (Unit × Nat)}
    (run : Decoder.authenticated (.readAt buffer (start + 8)) outcome buffer (start + 12)
      = (found, result)) (more : List FieldNode) :
    (FieldNode.preorderAll
        ((Decoder.securedFront buffer start).nodes ++ (found.nodes ++ more))).filter (·.key = key)
      = (FieldNode.preorderAll more).filter (·.key = key) := by
  have hfront : key ∈ ciphertextKey :: checksumKey :: headerKeys :=
    List.mem_append_left headerKeys h
  have hother : key ∉ requestKeys ++ bodyKeys := by
    revert key
    decide
  have hfound : (FieldNode.preorderAll found.nodes).filter (·.key = key) = [] := by
    exact FieldNode.filter_key_eq_nil
      (fun node hnode => Decoder.key_of_mem_authenticated run hnode) hother
  rw [FieldNode.preorderAll_append, FieldNode.preorderAll_append, List.filter_append,
    List.filter_append, Decoder.filter_securedFront hfront, hfound, List.nil_append,
    List.nil_append]

/-- An authenticated PDU of which a field was cut off shows neither. -/
theorem findAll_of_cutOff {found : Findings} {error : DecodeError}
    (inner : Decoder.authenticated (.readAt buffer (start + 8)) outcome buffer (start + 12)
      = (found, .error error))
    (run : Decoder.securedPdu outcome buffer start
      = (Decoder.securedFront buffer start ++ found, .error error))
    {key : String} (h : key ∈ [ciphertextKey, checksumKey]) :
    (ofPdu .secured outcome buffer start).tree.findAll key = [] := by
  have hother : key ≠ "pn_rsi" ∧ key ∉ bodyKeys := by
    revert key
    decide
  have hrest : (FieldNode.preorderAll (PnioBlock.undecoded (error.position start)
      (buffer.drop (error.position start)))).filter (·.key = key) = [] :=
    FieldNode.filter_key_eq_nil (fun node hnode => PnioBlock.key_of_mem_undecoded _ _ hnode)
      hother.2
  have hdissection : ofPdu .secured outcome buffer start
      = ((Decoder.securedFront buffer start ++ found).cutOff buffer start error).toDissection
          .secured start (max buffer.length start) := by
    simp only [ofPdu, show Decoder.pdu .secured outcome buffer start = _ from run]
  rw [hdissection, Findings.findAll_toDissection _ _ _ _ hother.1, Findings.cutOff,
    Findings.nodes_append, Findings.nodes_append, List.append_assoc, filter_authenticated h inner,
    hrest]

/-- An authenticated PDU that was decoded to the end shows its checksum there. -/
theorem endsInChecksum_of_ok {found : Findings} {stop : Nat}
    (inner : Decoder.authenticated (.readAt buffer (start + 8)) outcome buffer (start + 12)
      = (found, .ok ((), stop)))
    (held : stop + 16 ≤ buffer.length)
    (run : Decoder.securedPdu outcome buffer start
      = (Decoder.securedFront buffer start
          ++ (found ++ { nodes := [Decoder.checksumNode buffer stop] }), .ok ((), stop + 16))) :
    let dissection := ofPdu .secured outcome buffer start
    dissection.tree.children = (Decoder.securedFront buffer start).nodes
        ++ (found.nodes ++ [Decoder.checksumNode buffer stop])
      ∧ dissection.tree.findAll ciphertextKey = []
      ∧ dissection.EndsInChecksum buffer stop := by
  intro dissection
  have hdissection : dissection = (Decoder.securedFront buffer start
      ++ (found ++ { nodes := [Decoder.checksumNode buffer stop] })).toDissection .secured start
        (stop + 16) := ofPdu_of_ok run
  have hcomplete : dissection.isTruncated = false := by
    rw [Bool.eq_false_iff, ne_eq, show dissection.isTruncated = true ↔ _ from isTruncated_iff,
      show Decoder.pdu .secured outcome buffer start = _ from run]
    rintro ⟨error, h⟩
    cases h
  have hchildren : dissection.tree.children = (Decoder.securedFront buffer start).nodes
      ++ (found.nodes ++ [Decoder.checksumNode buffer stop]) := by
    rw [hdissection]
    rfl
  have hchecksum : FieldNode.preorderAll [Decoder.checksumNode buffer stop]
      = [Decoder.checksumNode buffer stop] := rfl
  have hfind : ∀ key ∈ [ciphertextKey, checksumKey], dissection.tree.findAll key
      = [Decoder.checksumNode buffer stop].filter (·.key = key) := by
    intro key hkey
    have hroot : key ≠ "pn_rsi" := by
      revert key
      decide
    rw [hdissection, Findings.findAll_toDissection _ _ _ _ hroot, ← hchecksum]
    exact filter_authenticated hkey inner _
  refine ⟨hchildren, ?_, hcomplete, held, ⟨Decoder.checksumNode buffer stop, ?_, rfl, ?_, rfl⟩, ?_,
    ?_⟩
  · rw [hfind _ (by simp)]
    rfl
  · rw [hfind _ (by simp)]
    rfl
  · exact Bytes.length_slice held
  · rw [hdissection]
    rfl
  · -- The front ends where the body starts, and the body ends at `stop`.
    intro node hnode hgenerated hmessage hother
    obtain ⟨hadvances, hbody⟩ :=
      (Decoder.confined_readable .secured (.readAt buffer (start + 8)) outcome).inside inner
    have hfront : ∀ other ∈ FieldNode.preorderAll (Decoder.securedFront buffer start).nodes,
        other.key ≠ FieldNode.messageKey := by
      intro other hmem hkey
      have hother := Decoder.key_of_mem_securedFront hmem
      rw [hkey] at hother
      exact absurd hother (by decide)
    rw [hchildren, FieldNode.surfaceAll_append, FieldNode.surfaceAll_append, List.mem_append,
      List.mem_append, FieldNode.surfaceAll_eq _ hfront] at hnode
    rcases hnode with hnode | hnode | hnode
    · have hend := Decoder.le_of_mem_securedFront hnode
      omega
    · -- A node of the body that reaches further is generated or shows a message.
      rcases hbody node hnode with h | h | h
      · exact absurd (hgenerated.symm.trans h) (by decide)
      · exact absurd h hmessage
      · omega
    · change node ∈ [Decoder.checksumNode buffer stop] at hnode
      rw [List.mem_singleton.mp hnode] at hother
      exact absurd rfl hother

end Dissection

namespace Session

/-- **The mode of a secured PDU decides what can be told of it.** Of an encrypted one, that
is its metadata, its access points and the length of what is behind them: it has neither a
header nor a block nor a segment status, leaves the session as it is, and another ciphertext
of the same length makes no difference but in the node that shows its bytes. An
authenticated one shows no ciphertext. Either a field was cut off, and it shows no checksum,
or its checksum is the sixteen bytes where its body ended, and nothing else that is read
from this PDU reaches into the last sixteen bytes of the buffer. -/
theorem protection_exclusive (session : Session) (frame : Frame) (buffer : Bytes) (start : Nat)
    (held : start + 12 ≤ buffer.length) :
    let answer := session.dissect .secured frame buffer start
    let mode := (buffer.getD start 0).toNat % 2
    (mode = 1 →
        answer.1.IsEncrypted buffer start ∧ answer.2 = session
          ∧ ∀ (session' : Session) (frame' : Frame) (other : Bytes),
              other.length = buffer.length →
              other.take (start + 12) = buffer.take (start + 12) →
              (session'.dissect .secured frame' other start).1.veiled = answer.1.veiled)
      ∧ (mode = 0 →
          answer.1.tree.findAll ciphertextKey = []
            ∧ (answer.1.isTruncated = true ∧ answer.1.tree.findAll checksumKey = []
              ∨ ∃ outcome found stop,
                  Decoder.authenticated (.readAt buffer (start + 8)) outcome buffer (start + 12)
                    = (found, .ok ((), stop))
                  ∧ answer.1.tree.children = (Decoder.securedFront buffer start).nodes
                      ++ (found.nodes ++ [Decoder.checksumNode buffer stop])
                  ∧ answer.1.EndsInChecksum buffer stop)) := by
  intro answer mode
  obtain ⟨outcome, hdissection⟩ := session.exists_ofPdu .secured frame buffer start
  have hanswer : answer.1 = .ofPdu .secured outcome buffer start := hdissection
  refine ⟨fun hmode => ?_, fun hmode => ?_⟩
  · refine ⟨?_, ?_, fun session' frame' other hlength hfront => ?_⟩
    · rw [hanswer]
      exact Dissection.isEncrypted_ofPdu held hmode outcome
    · have hpayload : Dissection.payload? .secured buffer start = none := by
        rw [Dissection.payload?,
          show Decoder.pdu .secured .standalone buffer start = _ from
            Decoder.run_encrypted held hmode .standalone]
        rfl
      simp only [answer, dissect, hpayload]
    · obtain ⟨another, hother⟩ := session'.exists_ofPdu .secured frame' other start
      rw [hanswer, hother]
      exact Dissection.veiled_ofPdu_encrypted held hmode hlength hfront outcome another
  · rw [hanswer]
    obtain ⟨found, error, hinner, hrun⟩ | ⟨found, stop, hinner, hheld, hrun⟩ :=
      Decoder.run_authenticated held hmode outcome
    · refine ⟨Dissection.findAll_of_cutOff hinner hrun (by simp), .inl ⟨?_, ?_⟩⟩
      · exact Dissection.isTruncated_iff.mpr ⟨error, congrArg Prod.snd hrun⟩
      · exact Dissection.findAll_of_cutOff hinner hrun (by simp)
    · obtain ⟨hchildren, hciphertext, hauthenticated⟩ :=
        Dissection.endsInChecksum_of_ok hinner hheld hrun
      exact ⟨hciphertext, .inr ⟨outcome, found, stop, hinner, hchildren, hauthenticated⟩⟩

/-- The same bytes in the two modes. Encrypted, they could be any others. Authenticated, they
are an acknowledgement with a checksum behind it, and three bytes behind that. -/
theorem protection_exclusive_ack :
    let secured (mode : UInt8) : Bytes := [mode, 0, 0, 0, 0, 1, 0, 0, 0, 1, 0, 2,
      0x13, 0, 0, 1, 0, 0, 0, 0] ++ List.replicate 19 0xee
    let other : Bytes := [1, 0, 0, 0, 0, 1, 0, 0, 0, 1, 0, 2] ++ List.replicate 27 0xaa
    let answer (buffer : Bytes) := (({} : Session).dissect .secured { number := 1 } buffer 0).1
    (answer (secured 1)).IsEncrypted (secured 1) 0
      ∧ (answer other).veiled = (answer (secured 1)).veiled
      ∧ (answer (secured 0)).EndsInChecksum (secured 0) 20 := by
  intro secured other answer
  obtain ⟨hencrypted, -, hblind⟩ :=
    (protection_exclusive {} { number := 1 } (secured 1) 0 (by decide)).1 (by decide)
  have hcomplete : (answer (secured 0)).isTruncated = false := by decide +kernel
  have hstop : (answer (secured 0)).endOffset = 20 + 16 := by decide +kernel
  refine ⟨hencrypted, hblind {} { number := 1 } other (by decide) (by decide), ?_⟩
  obtain ⟨-, ⟨htruncated, -⟩ | ⟨outcome, found, stop, -, -, hchecksum⟩⟩ :=
    (protection_exclusive {} { number := 1 } (secured 0) 0 (by decide)).2 (by decide)
  · exact absurd (hcomplete.symm.trans htruncated) (by decide)
  · have hsame : stop + 16 = 20 + 16 := hchecksum.stop.symm.trans hstop
    rw [Nat.add_right_cancel hsame] at hchecksum
    exact hchecksum

end Session

end ProfinetRsi

import ProfinetRsi.Proofs.Reassembly.Segmentation
import ProfinetRsi.Proofs.Session.Route
import ProfinetRsi.Proofs.Session.Sending

/-!
# `ProfinetRsi.Proofs.Session.Fragmentation`: fragments make their message

* `Delivers.exists_piece`: what the fragments of a message hand over is one piece of the
  arrivals of their stream.
* `dissectionsOn_of_delivers`: what is shown of them, in a session in which nothing waits
  on their route.
* `fragments_reassemble`: a payload that is sent in fragments is shown as the payload that
  it was.
-/

set_option autoImplicit false

namespace ProfinetRsi

namespace Delivers

variable {chunks : List Bytes} {calls : List Call}

theorem length_eq (delivers : Delivers chunks calls) : calls.length = chunks.length := by
  induction delivers with
  | last first payload => rfl
  | more first payload delivers ih => rw [List.length_cons, List.length_cons, ih]

/-- Every call hands over its payload for the first time. -/
theorem first_isPaid (delivers : Delivers chunks calls) :
    ∀ call ∈ calls, call.frame.visited = false ∧ call.IsPaid := by
  induction delivers with
  | last first payload =>
      intro call hcall
      rw [List.mem_singleton.mp hcall]
      exact ⟨first, _, payload⟩
  | more first payload delivers ih =>
      intro call hcall
      rcases List.mem_cons.mp hcall with rfl | hcall
      · exact ⟨first, _, payload⟩
      · exact ih call hcall

/-- All but the last one announce that more fragments follow. -/
theorem exists_last (delivers : Delivers chunks calls) :
    ∃ earlier last, calls = earlier ++ [last]
      ∧ (∀ call ∈ earlier, ∃ chunk, call.payload? = some ⟨chunk, true⟩)
      ∧ ∃ chunk, last.payload? = some ⟨chunk, false⟩ := by
  induction delivers with
  | @last chunk call first payload => exact ⟨[], call, rfl, by simp, chunk, payload⟩
  | @more chunk chunks call calls first payload delivers ih =>
      obtain ⟨earlier, last, rfl, hmore, hlast⟩ := ih
      refine ⟨call :: earlier, last, rfl, fun other hother => ?_, hlast⟩
      rcases List.mem_cons.mp hother with rfl | hother
      · exact ⟨chunk, payload⟩
      · exact hmore other hother

/-- What arrives, joined, is what was split into chunks. -/
theorem flatMap_payload (delivers : Delivers chunks calls) (key : StreamKey) :
    (calls.map (·.arrivalIn key)).flatMap (·.payload) = chunks.flatten := by
  induction delivers with
  | last first payload => simp [Call.arrivalIn, Call.arrival, payload]
  | more first payload delivers ih =>
      rw [List.map_cons, List.flatMap_cons, ih, List.flatten_cons]
      simp [Call.arrivalIn, Call.arrival, payload]

end Delivers

/-- Fragments are one piece of their stream. -/
theorem Delivers.exists_piece {chunks : List Bytes} {calls : List Call}
    (delivers : Delivers chunks calls) (several : 2 ≤ chunks.length) (key : StreamKey) :
    ∃ piece : Piece, calls.map (·.arrivalIn key) = piece.arrivals
      ∧ (∀ arrival ∈ piece.earlier, arrival.moreFragments = true)
      ∧ piece.last.moreFragments = false ∧ piece.last.key = key ∧ piece.isWhole = false
      ∧ (piece.message key).data = chunks.flatten
      ∧ (piece.message key).fragments.length = chunks.length := by
  obtain ⟨earlier, last, rfl, hmore, hlast⟩ := delivers.exists_last
  have hlength := delivers.length_eq
  have hdata := delivers.flatMap_payload key
  have harrivals : (earlier ++ [last]).map (·.arrivalIn key)
      = (⟨earlier.map (·.arrivalIn key), last.arrivalIn key⟩ : Piece).arrivals := by
    simp [Piece.arrivals]
  refine ⟨_, harrivals, ?_, ?_, rfl, ?_, ?_, ?_⟩
  · intro arrival harrival
    obtain ⟨call, hcall, rfl⟩ := List.mem_map.mp harrival
    obtain ⟨chunk, hpayload⟩ := hmore call hcall
    simp [Call.arrivalIn, Call.arrival, hpayload]
  · obtain ⟨chunk, hpayload⟩ := hlast
    simp [Call.arrivalIn, Call.arrival, hpayload]
  · -- Of two or more fragments one at least is not the last.
    rw [List.length_append, List.length_singleton] at hlength
    cases earlier with
    | nil =>
        simp only [List.length_nil] at hlength
        omega
    | cons call earlier => rfl
  · rw [Piece.message, ← harrivals, hdata]
  · have hids := congrArg List.length
      (map_id_recordsFrom 0 ((earlier ++ [last]).map (·.arrivalIn key)))
    rw [List.length_map, List.length_map, List.length_map, hlength] at hids
    rw [Piece.message, ← harrivals]
    exact hids

/-- All fragments of a piece but the last one are shown as pending, and the last one as
what completed the message. -/
theorem Call.zipWith_dissection {earlier : List Call} {last : Call} {key : StreamKey}
    {piece : Piece} (split : piece.isWhole = false)
    (harrivals : (earlier ++ [last]).map (·.arrivalIn key) = piece.arrivals) :
    List.zipWith Call.dissection (earlier ++ [last]) (piece.outcomes key)
      = earlier.map (·.dissection .pending)
        ++ [last.dissection (.reassembled (piece.message key))] := by
  rw [List.map_append] at harrivals
  have hearlier : earlier.map (·.arrivalIn key) = piece.earlier :=
    (List.append_inj' harrivals rfl).1
  have hsame : earlier.length = (piece.earlier.map fun _ => Outcome.pending).length := by
    rw [← hearlier, List.length_map, List.length_map]
  have hpending : List.zipWith Call.dissection earlier (piece.earlier.map fun _ => .pending)
      = earlier.map (·.dissection .pending) := by
    rw [← hearlier, List.map_map, List.zipWith_map_right, List.zipWith_self]
    rfl
  rw [Piece.outcomes, split, if_neg (by simp), List.zipWith_append hsame, hpending]
  rfl

namespace Session

/-- What is shown of the fragments of a message, and what they leave behind: all but the
last one wait and show nothing, and the last one shows the message. -/
theorem dissectionsOn_of_delivers {session : Session} (valid : session.Valid)
    (reassemble : session.reassemble = true) {calls : List Call} {route : Route}
    {chunks : List Bytes} (delivers : Delivers chunks (calls.filter (·.IsOn route)))
    (several : 2 ≤ chunks.length) (idle : (session.record route).pending = none)
    (fresh : ∀ call ∈ calls, call.IsOn route →
      (session.record route).messageOf call.frame.id = none) :
    ∃ earlier last message, session.dissectionsOn route calls = earlier ++ [last]
      ∧ earlier.length + 1 = chunks.length
      ∧ (∀ dissection ∈ earlier, dissection.segment = some (.accumulated true)
        ∧ dissection.hasPayloadTree = false)
      ∧ last.segment = some (.reassembled message.data.length chunks.length)
      ∧ (∃ fragment, last.tree.find? FieldNode.messageKey
        = some (Decoder.messageNode fragment message))
      ∧ ((session.after calls).record route).messages
        = (session.record route).messages ++ [message]
      ∧ message.data = chunks.flatten := by
  -- The route sees its own arrivals alone, and these are one piece of its stream.
  have hpaid : ∀ call ∈ calls, call.IsOn route → call.IsPaid := fun call hcall hon =>
    (delivers.first_isPaid call (List.mem_filter.mpr ⟨hcall, by simpa using hon⟩)).2
  have hdissections := dissectionsOn_eq valid reassemble hpaid
  have hrecord := record_after valid reassemble calls route
  rw [Call.filterMap_arrivalOn? hpaid] at hrecord
  obtain ⟨piece, harrivals, hmore, hfinal, hkey, hsplit, hdata, hcount⟩ :=
    delivers.exists_piece several ⟨(session.after calls).number route, route.2⟩
  have hnew : ∀ arrival ∈ piece.arrivals, (session.record route).IsNew arrival := by
    intro arrival harrival
    rw [← harrivals] at harrival
    obtain ⟨call, hcall, rfl⟩ := List.mem_map.mp harrival
    obtain ⟨hmem, hon⟩ := List.mem_filter.mp hcall
    exact ⟨(delivers.first_isPaid call hcall).1, fresh call hmem (by simpa using hon)⟩
  obtain ⟨houtcomes, hmessages⟩ :=
    StreamRecord.outcomes_piece idle hnew hmore hfinal hkey hsplit
  rw [harrivals] at hdissections hrecord
  obtain ⟨earlier, last, hcalls, hwait, chunk, hlast⟩ := delivers.exists_last
  rw [hcalls] at harrivals
  rw [houtcomes, hcalls, Call.zipWith_dissection hsplit harrivals] at hdissections
  obtain ⟨hsegment, hnode⟩ := Dissection.ofPdu_reassembled hlast (piece.message
    ⟨(session.after calls).number route, route.2⟩)
  refine ⟨_, _, _, hdissections, ?_, ?_, ?_, hnode, ?_, hdata⟩
  · have hlength := delivers.length_eq
    rw [hcalls, List.length_append, List.length_singleton] at hlength
    rw [List.length_map]
    exact hlength
  · intro dissection hdissection
    obtain ⟨call, hcall, rfl⟩ := List.mem_map.mp hdissection
    obtain ⟨waiting, hpayload⟩ := hwait call hcall
    exact Dissection.ofPdu_pending hpayload
  · rw [← hcount]
    exact hsegment
  · rw [hrecord]
    exact hmessages

/-- **Fragmentation is transparent.** Let a session have decoded anything, with nothing
pending on `route`. Split a payload into two or more chunks, the first of which is not
empty, send it as the fragments of a request for a service or of a response, and decode
these for the first time, in order, with any PDUs of other routes between them. Then all
fragments but the last one wait and show no payload. The last one completes a new message
with the payload as its data, and shows it as the PNIO blocks that the payload is. -/
theorem fragments_reassemble (history : List Call) {operation : Operation}
    {fixed chunk : Bytes} {chunks : List Bytes}
    (size : operation.fixedSize? = some fixed.length) (proper : chunk ≠ []) (several : chunks ≠ [])
    {calls : List Call} {route : Route}
    (sends : Sends operation 0 ((fixed ++ chunk) :: chunks) (calls.filter (·.IsOn route)))
    (fresh : ∀ call ∈ calls, call.IsOn route → call.frame.id ∉ history.map (·.frame.id))
    (idle : ((({} : Session).after history).record route).pending = none) :
    let session := ({} : Session).after history
    let payload := (chunk :: chunks).flatten
    ∃ earlier last message, session.dissectionsOn route calls = earlier ++ [last]
      ∧ earlier.length = chunks.length
      ∧ (∀ dissection ∈ earlier, dissection.segment = some (.accumulated true)
        ∧ dissection.hasPayloadTree = false)
      ∧ last.segment = some (.reassembled payload.length (chunks.length + 1))
      ∧ (∃ node, last.tree.find? FieldNode.messageKey = some node
        ∧ node.children = PnioBlock.tiles 0 payload)
      ∧ ((session.after calls).record route).messages
        = (session.record route).messages ++ [message]
      ∧ message.data = payload := by
  intro session payload
  have hseveral : 2 ≤ (chunk :: chunks).length := by
    have hsome := List.length_pos_iff.mpr several
    rw [List.length_cons]
    omega
  have hunseen : ∀ call ∈ calls, call.IsOn route →
      (session.record route).messageOf call.frame.id = none := fun call hcall hon =>
    messageOf_after_new (fresh call hcall hon) route
  obtain ⟨earlier, last, message, hdissections, hlength, hwait, hsegment, ⟨fragment, hnode⟩,
      hmessages, hdata⟩ :=
    dissectionsOn_of_delivers (valid_after (valid_new true) history) (reassemble_after _ history)
      (sends.delivers size proper) hseveral idle hunseen
  rw [hdata] at hsegment
  refine ⟨earlier, last, message, hdissections, Nat.succ.inj hlength, hwait, hsegment,
    ⟨_, hnode, ?_⟩, hmessages, hdata⟩
  show PnioBlock.tiles 0 message.data = _
  rw [hdata]

/-- Three fragments of a read request, the second of them empty, with a PDU of the other
side between them. -/
theorem fragments_reassemble_three :
    let route : Route := (⟨.ported, ⟨.none, 1⟩, ⟨.none, 2⟩⟩, .forward)
    let header (flags : UInt8) (length : UInt16) : Header :=
      ⟨⟨0x1234, 1⟩, ⟨.freq, 1⟩, .ofByte flags, 1, 0, length⟩
    let word (offset : UInt32) : OpnumWord := .ofRaw (0x02000000 + offset)
    let call (number : Nat) (header : Header) (word : OpnumWord) (body : Bytes) : Call :=
      ⟨.plain, { number, sourcePort := 1, destinationPort := 2 }, pduBytes header word body, 0⟩
    let calls : List Call := [
      call 1 (header 0x21 10) (word 0) [0, 0, 16, 0, 1, 2],
      ⟨.plain, { number := 2, sourcePort := 2, destinationPort := 1 }, [0, 1, 0, 2], 0⟩,
      call 3 (header 0x21 4) (word 6) [],
      call 4 (header 1 7) (word 6) [3, 4, 5]]
    ∃ earlier last, ({} : Session).dissectionsOn route calls = earlier ++ [last]
      ∧ earlier.length = 2 ∧ last.segment = some (.reassembled 5 3)
      ∧ ∃ node, last.tree.find? FieldNode.messageKey = some node
        ∧ node.children = PnioBlock.tiles 0 [1, 2, 3, 4, 5] := by
  intro route header word call calls
  have hfirst : (call 1 (header 0x21 10) (word 0) [0, 0, 16, 0, 1, 2]).Carries
      ⟨.request, .read, 0x1234⟩ 0 true ([0, 0, 16, 0] ++ [1, 2]) :=
    ⟨rfl, rfl, header 0x21 10, word 0, ⟨⟨rfl, by decide, rfl⟩,
      ⟨by decide, rfl, by decide, by decide, by decide⟩, rfl, rfl, rfl, rfl, rfl, rfl⟩, rfl⟩
  have hsecond : (call 3 (header 0x21 4) (word 6) []).Carries
      ⟨.request, .read, 0x1234⟩ 6 true [] :=
    ⟨rfl, rfl, header 0x21 4, word 6, ⟨⟨rfl, by decide, rfl⟩,
      ⟨by decide, rfl, by decide, by decide, by decide⟩, rfl, rfl, rfl, rfl, rfl, rfl⟩, rfl⟩
  have hthird : (call 4 (header 1 7) (word 6) [3, 4, 5]).Carries
      ⟨.request, .read, 0x1234⟩ 6 false [3, 4, 5] :=
    ⟨rfl, rfl, header 1 7, word 6, ⟨⟨rfl, by decide, rfl⟩,
      ⟨by decide, rfl, by decide, by decide, by decide⟩, rfl, rfl, rfl, rfl, rfl, rfl⟩, rfl⟩
  have hfilter : calls.filter (·.IsOn route) = [
      call 1 (header 0x21 10) (word 0) [0, 0, 16, 0, 1, 2],
      call 3 (header 0x21 4) (word 6) [], call 4 (header 1 7) (word 6) [3, 4, 5]] := by
    decide +kernel
  have hsends : Sends ⟨.request, .read, 0x1234⟩ 0 [[0, 0, 16, 0] ++ [1, 2], [], [3, 4, 5]]
      (calls.filter (·.IsOn route)) := by
    rw [hfilter]
    exact .more hfirst (.more hsecond (.last hthird))
  obtain ⟨earlier, last, -, hdissections, hlength, -, hsegment, hnode, -⟩ :=
    fragments_reassemble [] (by decide) (by decide) (by decide) hsends (by simp) rfl
  exact ⟨earlier, last, hdissections, hlength, hsegment, hnode⟩

end Session

end ProfinetRsi

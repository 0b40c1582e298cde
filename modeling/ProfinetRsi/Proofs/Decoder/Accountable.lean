import ProfinetRsi.Dissection
import ProfinetRsi.Proofs.PnioBlock

/-!
# `ProfinetRsi.Proofs.Decoder.Accountable`: decoders that show every byte they read

A decoder is `Accountable` if its nodes are an account of all bytes from where it
started to where it stopped, or to the field that did not fit. Running one such
decoder after the other, gathering what it shows under a node, and hiding the end
of the buffer from it keep it so: `Accountable.bind`, `Accountable.spanning`,
`Accountable.withoutLast`.

The last fields of a PDU are bytes of no fixed number; `Accountable.ofRest` is the
lemma for those.
-/

set_option autoImplicit false

namespace ProfinetRsi

namespace Findings

/-- The findings show all bytes of `buffer` from `start` to `stop`, and no message
that was reassembled from elsewhere. -/
structure AccountFor (findings : Findings) (buffer : Bytes) (start stop : Nat) : Prop where
  accounts : Accounts (FieldNode.preorderAll findings.nodes) buffer start stop
  messageless : ∀ node ∈ FieldNode.preorderAll findings.nodes, node.key ≠ FieldNode.messageKey

namespace AccountFor

variable {a b : Findings} {buffer : Bytes} {start middle stop : Nat}

/-- Findings without nodes show no bytes. -/
theorem bare {findings : Findings} (hnodes : findings.nodes = []) (buffer : Bytes) (start : Nat) :
    findings.AccountFor buffer start start := by
  refine ⟨?_, ?_⟩
  · rw [hnodes]
    exact .nil buffer start
  · simp [hnodes]

theorem append (first : a.AccountFor buffer start middle)
    (second : b.AccountFor buffer middle stop) : (a ++ b).AccountFor buffer start stop where
  accounts := by
    rw [nodes_append, FieldNode.preorderAll_append]
    exact first.accounts.append second.accounts
  messageless node hnode := by
    rw [nodes_append, FieldNode.preorderAll_append, List.mem_append] at hnode
    rcases hnode with hnode | hnode
    · exact first.messageless node hnode
    · exact second.messageless node hnode

/-- Findings that show some bytes show fewer of them. -/
theorem mono {first last : Nat} (findings : a.AccountFor buffer start stop)
    (h : ∀ position, first ≤ position → position < last → start ≤ position ∧ position < stop) :
    a.AccountFor buffer first last :=
  ⟨findings.accounts.mono h, findings.messageless⟩

/-- Gathering findings under a node shows the same bytes. -/
theorem under (findings : a.AccountFor buffer start stop) {key : String}
    (hkey : key ≠ FieldNode.messageKey) (label : String) (offset length : Nat) :
    (a.under (.subtree key label offset length)).AccountFor buffer start stop := by
  have hnodes : FieldNode.preorderAll (a.under (.subtree key label offset length)).nodes
      = a.fill (.subtree key label offset length) :: FieldNode.preorderAll a.nodes := by
    simp [fill, FieldNode.preorder_eq, FieldNode.withChildren, FieldNode.withText,
      FieldNode.subtree]
  refine ⟨?_, ?_⟩
  · rw [hnodes]
    exact findings.accounts.cons rfl
  · intro node hnode
    rw [hnodes, List.mem_cons] at hnode
    rcases hnode with rfl | hnode
    · exact hkey
    · exact findings.messageless node hnode

end AccountFor

end Findings

namespace Decoder

variable {α β : Type}

/-- How far a decoder that started at `position` came: to where it stopped, or to
the field that did not fit. -/
def reach (position : Nat) : Except DecodeError (α × Nat) → Nat
  | .ok (_, stop) => stop
  | .error error => error.position position

/-- Whatever the buffer and the position, the findings show all bytes up to where the
decoder came. -/
def Accountable (decoder : Decoder α) : Prop :=
  ∀ buffer position, (decoder buffer position).1.AccountFor buffer position
    (reach position (decoder buffer position).2)

namespace Accountable

/-- A value without any field. -/
theorem pure (value : α) : Accountable (pure value) :=
  fun buffer position => .bare rfl buffer position

/-- Findings without nodes. -/
theorem report {findings : Findings} (bare : findings.nodes = []) :
    Accountable (report findings) :=
  fun buffer position => .bare bare buffer position

/-- One decoder after the other. If the second gives up without naming a field, it
accounts for nothing, and what the first read does not count. -/
theorem bind {decoder : Decoder α} {next : α → Decoder β} (first : Accountable decoder)
    (second : ∀ a, Accountable (next a)) : Accountable (decoder >>= next) := by
  intro buffer position
  have hfirst := first buffer position
  rw [run_bind]
  rcases hrun : decoder buffer position with ⟨findings, error | ⟨value, middle⟩⟩
  · rw [hrun] at hfirst
    exact hfirst
  · have hsecond := second value buffer middle
    rcases hnext : next value buffer middle with ⟨others, error | ⟨answer, stop⟩⟩
    · rw [hrun] at hfirst
      rw [hnext] at hsecond
      simp only [hnext]
      have hboth := hfirst.append hsecond
      -- An unsupported version names no field, so it reaches back to the very start.
      cases error with
      | truncatedField offset size available => exact hboth
      | unsupportedVersion high low =>
          refine hboth.mono fun other hfirst hlast => ?_
          exact absurd hlast (Nat.not_lt.mpr hfirst)
    · rw [hrun] at hfirst
      rw [hnext] at hsecond
      simp only [hnext]
      exact hfirst.append hsecond

/-- Gathering what a decoder shows under a node. -/
theorem spanning {decoder : Decoder α} (accountable : Accountable decoder) {key : String}
    (hkey : key ≠ FieldNode.messageKey) (label : String) :
    Accountable (spanning key label decoder) :=
  fun buffer position => (accountable buffer position).under hkey label _ _

/-- Gathering what a decoder shows under a node of a length known beforehand. -/
theorem within {decoder : Decoder α} (accountable : Accountable decoder) {key : String}
    (hkey : key ≠ FieldNode.messageKey) (label : String) (length : Nat) :
    Accountable (within key label length decoder) :=
  fun buffer position => (accountable buffer position).under hkey label _ _

/-- Hiding the end of the buffer. -/
theorem withoutLast {decoder : Decoder α} (accountable : Accountable decoder) (count : Nat) :
    Accountable (withoutLast count decoder) :=
  fun _ position => ⟨(accountable _ position).accounts.ofTake, (accountable _ position).messageless⟩

/-- Everything up to the end of the buffer, in findings that account for it. If the
position is behind the end, nothing is read and nothing is to be shown. -/
theorem ofRest {decoder : Decoder α} (shown : Nat → Bytes → Findings) (value : Bytes → α)
    (runs : ∀ buffer position, decoder buffer position
      = (shown position (buffer.drop position),
          .ok (value (buffer.drop position), max position buffer.length)))
    (accounts : ∀ (buffer : Bytes) (offset : Nat) (bytes : Bytes), buffer.HoldsAt offset bytes →
      (shown offset bytes).AccountFor buffer offset (offset + bytes.length))
    (bare : ∀ offset, (shown offset []).nodes = []) : Accountable decoder := by
  intro buffer position
  rw [runs]
  by_cases hbound : position ≤ buffer.length
  · have haccounts := accounts buffer position _ (Bytes.holdsAt_drop hbound)
    have hstop : position + (buffer.drop position).length = max position buffer.length := by
      rw [List.length_drop]
      omega
    rw [hstop] at haccounts
    exact haccounts
  · have hnil : buffer.drop position = [] := List.drop_eq_nil_of_le (by omega)
    have hstop : max position buffer.length = position := by omega
    rw [hnil, hstop]
    exact .bare (bare position) buffer position

/-- A field of `width` bytes, in findings that account for it. -/
theorem ofTake {decoder : Decoder α} {width : Nat} (shown : Nat → Bytes → Findings)
    (value : Bytes → α)
    (runs : ∀ buffer position, decoder buffer position
      = if position + width ≤ buffer.length then
          (shown position (buffer.slice position width),
            .ok (value (buffer.slice position width), position + width))
        else (∅, .error (.truncatedField position width buffer.length)))
    (accounts : ∀ (buffer : Bytes) (offset : Nat) (bytes : Bytes), bytes.length = width →
      buffer.HoldsAt offset bytes →
      (shown offset bytes).AccountFor buffer offset (offset + bytes.length)) :
    Accountable decoder := by
  intro buffer position
  rw [runs]
  split
  · rename_i hbound
    have hwidth := Bytes.length_slice hbound
    have haccounts := accounts buffer position _ hwidth (Bytes.holdsAt_slice hbound)
    rw [hwidth] at haccounts
    exact haccounts
  · exact .bare rfl buffer position

end Accountable

end Decoder

end ProfinetRsi

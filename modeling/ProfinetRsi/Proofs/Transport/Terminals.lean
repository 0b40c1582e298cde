import Mathlib
import ProfinetRsi.Transport.Frame

/-!
# `ProfinetRsi.Proofs.Transport.Terminals`: what a conversation key tells of a frame

A conversation key holds two terminals in order, and the direction tells which of them sent
the frame. Nothing of the frame's addressing is lost that way and nothing is added, because
the order of terminals is total and antisymmetric (`Terminal.precedes_total`,
`Terminal.precedes_antisymm`).

`Frame.sender`, `Frame.receiver` and `Frame.transport` are the addressing of a frame, and
`Frame.ends` is what is left of it when sender and receiver are not told apart.

* `terminals?_eq`: a frame with addressing has these terminals.
* `key_eq_iff`: two frames are of one conversation exactly if they have the same ends.
* `conversation?_eq_iff`: they also travel in one direction exactly if sender and receiver
  are the same.
* `conversation?_reversed`: a frame and its reversal are of one conversation, in opposite
  directions unless the frame travels from a terminal to itself.
-/

set_option autoImplicit false

namespace ProfinetRsi

/-! ### The order of terminals -/

namespace Terminal

variable {a b : Terminal}

/-- What it means that one terminal comes before another, or is the same. -/
theorem precedes_iff : a.precedes b = true
    ↔ a.address.family < b.address.family
      ∨ a.address.family = b.address.family
        ∧ (a.address.number < b.address.number
          ∨ a.address.number = b.address.number ∧ a.id.toNat ≤ b.id.toNat) := by
  simp [precedes, UInt16.le_iff_toNat_le]

/-- Of two terminals one comes first. -/
theorem precedes_total (a b : Terminal) : a.precedes b = true ∨ b.precedes a = true := by
  rw [precedes_iff, precedes_iff]
  omega

/-- Two terminals that come before each other are the same. -/
theorem precedes_antisymm (h : a.precedes b = true) (hback : b.precedes a = true) : a = b := by
  rw [precedes_iff] at h hback
  have hfamily : a.address.family = b.address.family := by omega
  have hnumber : a.address.number = b.address.number := by omega
  have hid : a.id.toNat = b.id.toNat := by omega
  obtain ⟨address, id⟩ := a
  obtain ⟨otherAddress, otherId⟩ := b
  rw [Terminal.mk.injEq]
  exact ⟨Address.eq_of_family_of_number hfamily hnumber, UInt16.toNat_inj.mp hid⟩

end Terminal

/-- A key is its transport and its two terminals. -/
theorem ConversationKey.ext {key other : ConversationKey} (transport : key.transport = other.transport)
    (low : key.low = other.low) (high : key.high = other.high) : key = other := by
  obtain ⟨_, _, _⟩ := key
  cases transport
  cases low
  cases high
  rfl

/-! ### The addressing of a frame -/

namespace Frame

/-- The frame travels between TCP ports: both of them are set. -/
def Ported (frame : Frame) : Prop :=
  frame.sourcePort ≠ 0 ∧ frame.destinationPort ≠ 0

instance (frame : Frame) : Decidable frame.Ported :=
  inferInstanceAs (Decidable (_ ∧ _))

/-- The kind of the frame's identifiers. -/
def transport (frame : Frame) : Transport :=
  if frame.Ported then .ported else .referenced

/-- The terminal that sent the frame. -/
def sender (frame : Frame) : Terminal :=
  ⟨frame.source, if frame.Ported then frame.sourcePort else frame.sourceRef⟩

/-- The terminal to which the frame travels. -/
def receiver (frame : Frame) : Terminal :=
  ⟨frame.destination, if frame.Ported then frame.destinationPort else frame.destinationRef⟩

/-- The two terminals of the frame, in no order, and the kind of their identifiers. -/
def ends (frame : Frame) : Transport × Sym2 Terminal :=
  (frame.transport, s(frame.sender, frame.receiver))

/-- Two frames travel from the same sender to the same receiver, by the same transport. -/
structure SameAddressing (frame other : Frame) : Prop where
  transport : frame.transport = other.transport
  sender : frame.sender = other.sender
  receiver : frame.receiver = other.receiver

/-- The frame on its way back: addresses, ports and references swapped. -/
def reversed (frame : Frame) : Frame :=
  { frame with
    source := frame.destination
    destination := frame.source
    sourcePort := frame.destinationPort
    destinationPort := frame.sourcePort
    sourceRef := frame.destinationRef
    destinationRef := frame.sourceRef }

variable {frame other : Frame} {key otherKey : ConversationKey} {direction otherDirection : Direction}

theorem ported_reversed (frame : Frame) : frame.reversed.Ported ↔ frame.Ported :=
  and_comm

theorem transport_reversed (frame : Frame) : frame.reversed.transport = frame.transport := by
  simp only [transport, ported_reversed]

theorem sender_reversed (frame : Frame) : frame.reversed.sender = frame.receiver := by
  simp only [sender, receiver, ported_reversed]
  rfl

theorem receiver_reversed (frame : Frame) : frame.reversed.receiver = frame.sender := by
  simp only [sender, receiver, ported_reversed]
  rfl

/-- The terminals of a frame that has any. -/
theorem terminals?_eq (addressed : frame.terminals?.isSome) :
    frame.terminals? = some (frame.transport, frame.sender, frame.receiver) := by
  unfold terminals? at addressed ⊢
  by_cases hports : frame.sourcePort ≠ 0 ∧ frame.destinationPort ≠ 0
  · have hported : frame.Ported := hports
    simp [transport, sender, receiver, hported, hports]
  · have hported : ¬ frame.Ported := hports
    rw [if_neg hports] at addressed ⊢
    split at addressed
    case isTrue hrefs =>
      rw [if_pos hrefs]
      simp only [transport, sender, receiver, hported, if_false]
    case isFalse => cases addressed

/-- The key and the direction of a frame, in terms of its addressing: the sender comes first
in the key, or it comes last and the frame travels against the key's order. -/
theorem conversation?_cases (h : frame.conversation? = some (key, direction)) :
    (key = ⟨frame.transport, frame.sender, frame.receiver⟩ ∧ direction = .forward
        ∧ frame.sender.precedes frame.receiver = true)
      ∨ (key = ⟨frame.transport, frame.receiver, frame.sender⟩ ∧ direction = .reverse
        ∧ frame.sender.precedes frame.receiver = false) := by
  obtain ⟨terminals, hterminals, hkey⟩ := Option.map_eq_some_iff.mp h
  have haddressed : frame.terminals?.isSome := by
    rw [hterminals]
    rfl
  rw [terminals?_eq haddressed] at hterminals
  cases hterminals
  cases hprecedes : frame.sender.precedes frame.receiver with
  | true =>
      simp only [hprecedes, if_true] at hkey
      cases hkey
      exact Or.inl ⟨rfl, rfl, rfl⟩
  | false =>
      simp only [hprecedes, Bool.false_eq_true, if_false] at hkey
      cases hkey
      exact Or.inr ⟨rfl, rfl, rfl⟩

/-- The ends of a frame are the two terminals of its key. -/
theorem ends_eq (h : frame.conversation? = some (key, direction)) :
    frame.ends = (key.transport, s(key.low, key.high)) := by
  rcases conversation?_cases h with ⟨rfl, -, -⟩ | ⟨rfl, -, -⟩
  · rfl
  · exact Prod.ext rfl Sym2.eq_swap

/-- The terminals of a key stand in order. -/
theorem precedes_of_conversation? (h : frame.conversation? = some (key, direction)) :
    key.low.precedes key.high = true := by
  rcases conversation?_cases h with ⟨rfl, -, hprecedes⟩ | ⟨rfl, -, hprecedes⟩
  · exact hprecedes
  · -- The receiver comes first because the sender does not.
    rcases Terminal.precedes_total frame.receiver frame.sender with hback | hforth
    · exact hback
    · rw [hprecedes] at hforth
      cases hforth

/-- **Two frames are of one conversation exactly if they have the same ends.** -/
theorem key_eq_iff (h : frame.conversation? = some (key, direction))
    (hother : other.conversation? = some (otherKey, otherDirection)) :
    key = otherKey ↔ frame.ends = other.ends := by
  rw [ends_eq h, ends_eq hother, Prod.mk.injEq, Sym2.eq_iff]
  constructor
  · rintro rfl
    exact ⟨rfl, Or.inl ⟨rfl, rfl⟩⟩
  · rintro ⟨htransport, ⟨hlow, hhigh⟩ | ⟨hlow, hhigh⟩⟩
    · exact ConversationKey.ext htransport hlow hhigh
    · -- Both pairs stand in order, so the swapped ones are one terminal each.
      have horder := precedes_of_conversation? h
      have hotherOrder := precedes_of_conversation? hother
      rw [hlow, hhigh] at horder
      have hsame := Terminal.precedes_antisymm horder hotherOrder
      exact ConversationKey.ext htransport (hlow.trans hsame) (hhigh.trans hsame.symm)

/-- The direction is forward exactly if the sender comes first. -/
theorem direction_eq_forward_iff (h : frame.conversation? = some (key, direction)) :
    direction = .forward ↔ frame.sender.precedes frame.receiver = true := by
  rcases conversation?_cases h with ⟨-, rfl, hprecedes⟩ | ⟨-, rfl, hprecedes⟩
  · simp [hprecedes]
  · simp [hprecedes]

/-- **Key and direction are the addressing of a frame.** -/
theorem conversation?_eq_iff (h : frame.conversation? = some (key, direction))
    (hother : other.conversation? = some (otherKey, otherDirection)) :
    key = otherKey ∧ direction = otherDirection ↔ frame.SameAddressing other := by
  constructor
  · rintro ⟨hkey, hdirection⟩
    rcases conversation?_cases h with ⟨rfl, rfl, -⟩ | ⟨rfl, rfl, -⟩ <;>
      rcases conversation?_cases hother with ⟨rfl, rfl, -⟩ | ⟨rfl, rfl, -⟩
    · -- Both travel forward.
      obtain ⟨htransport, hsender, hreceiver⟩ := ConversationKey.mk.inj hkey
      exact ⟨htransport, hsender, hreceiver⟩
    · cases hdirection
    · cases hdirection
    · -- Both travel back.
      obtain ⟨htransport, hreceiver, hsender⟩ := ConversationKey.mk.inj hkey
      exact ⟨htransport, hsender, hreceiver⟩
  · rintro ⟨htransport, hsender, hreceiver⟩
    have hends : frame.ends = other.ends := by
      rw [ends, ends, htransport, hsender, hreceiver]
    have hforward := direction_eq_forward_iff h
    rw [hsender, hreceiver, ← direction_eq_forward_iff hother] at hforward
    refine ⟨(key_eq_iff h hother).mpr hends, ?_⟩
    cases direction <;> cases otherDirection <;> simp_all

/-- **A frame and its reversal** are of one conversation, and travel in opposite directions
unless the frame travels from a terminal to itself. -/
theorem conversation?_reversed (h : frame.conversation? = some (key, direction))
    (hother : other.conversation? = some (otherKey, otherDirection))
    (back : frame.reversed.SameAddressing other) :
    otherKey = key ∧ (otherDirection = direction ↔ frame.sender = frame.receiver) := by
  obtain ⟨htransport, hsender, hreceiver⟩ := back
  rw [transport_reversed] at htransport
  rw [sender_reversed] at hsender
  rw [receiver_reversed] at hreceiver
  have hends : other.ends = frame.ends := by
    rw [ends, ends, htransport, hsender, hreceiver]
    exact Prod.ext rfl Sym2.eq_swap
  have hforward := direction_eq_forward_iff h
  have hotherForward := direction_eq_forward_iff hother
  rw [← hsender, ← hreceiver] at hotherForward
  refine ⟨(key_eq_iff hother h).mpr hends, ?_, ?_⟩
  · rintro rfl
    -- Terminals that came before each other would be the same, and one of the two does.
    rcases Terminal.precedes_total frame.sender frame.receiver with hforth | hback
    · exact Terminal.precedes_antisymm hforth (hotherForward.mp (hforward.mpr hforth))
    · exact Terminal.precedes_antisymm (hforward.mp (hotherForward.mpr hback)) hback
  · intro hself
    have hloop : frame.sender.precedes frame.receiver = true := by
      rw [hself]
      exact or_self_iff.mp (Terminal.precedes_total _ _)
    rw [hforward.mpr hloop]
    rw [hself] at hloop hotherForward
    exact hotherForward.mpr hloop

end Frame

end ProfinetRsi

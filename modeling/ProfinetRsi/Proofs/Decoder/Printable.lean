import ProfinetRsi.Instances
import ProfinetRsi.Proofs.Decoder.Confined
import ProfinetRsi.Proofs.Tree.Lines

/-!
# `ProfinetRsi.Proofs.Decoder.Printable`: what a decoder writes

Labels and remarks are put together from fixed texts, names of values and numbers, none of
which holds a line feed. The one exception are the texts that a device sends, which
`FieldNode.ofText` copies into the label as they are.

`Printable good decoder` says that the decoder shows `good` nodes and makes unbroken remarks,
wherever it is run and however far it gets.

* `Printable.bind`, `Printable.spanning`: how it carries over.
* `printable_pdu`: a PDU is shown by nodes whose labels and remarks stand on their line.
* `printable_deviceInstances`: and so is a PDRsiInstances block, except for its texts.
-/

set_option autoImplicit false

namespace ProfinetRsi

/-! ### Fields -/

/-- The names of the values. -/
def ValueNames.texts : ValueNames → List String
  | .unnamed => []
  | .values table => table.map (·.2)
  | .ranges table => table.map (·.2.2)

/-- The name that is found for a value is one of them. -/
theorem ValueNames.mem_texts_of_lookup {names : ValueNames} {value : Nat} {name : String}
    (h : names.lookup value = some name) : name ∈ names.texts := by
  cases names with
  | unnamed => cases h
  | values table =>
      obtain ⟨before, behind, htable, -⟩ := List.lookup_eq_some_iff.mp h
      rw [texts, htable]
      simp
  | ranges table =>
      rw [lookup, Option.map_eq_some_iff] at h
      obtain ⟨entry, hentry, rfl⟩ := h
      exact List.mem_map_of_mem (List.mem_of_find?_eq_some hentry)

/-- No field has a line feed in its label or in the name of a value. -/
theorem field_unbroken :
    ∀ spec ∈ Fields.all, Unbroken spec.label ∧ ∀ name ∈ spec.names.texts, Unbroken name := by
  have hbytes : ∀ spec ∈ Fields.all, ∀ text ∈ spec.label :: spec.names.texts,
      (10 : UInt8) ∉ text.toUTF8.data.toList := by
    decide +kernel
  intro spec hspec
  refine ⟨.of_bytes (hbytes spec hspec _ List.mem_cons_self), fun name hname => .of_bytes ?_⟩
  exact hbytes spec hspec name (List.mem_cons_of_mem _ hname)

/-- A value is described on one line. -/
theorem FieldSpec.unbroken_describe {spec : FieldSpec} (known : spec ∈ Fields.all) (value : Nat) :
    Unbroken (spec.describe value) := by
  obtain ⟨hlabel, hnames⟩ := field_unbroken spec known
  have hnumber : Unbroken (Numeral.hexadecimal spec.hexDigits value) := .hexadecimal _ _
  have hcolon : Unbroken (spec.label ++ ": ") := hlabel.append (by decide)
  unfold describe
  cases hname : spec.names.lookup value with
  | none => exact hcolon.append hnumber
  | some name =>
      have hvalue := hcolon.append (hnames name (ValueNames.mem_texts_of_lookup hname))
      exact ((hvalue.append (by decide)).append hnumber).append (by decide)

/-! ### Nodes -/

namespace FieldNode

/-- The text that the node shows, if it shows one. -/
def text? (node : FieldNode) : Option String :=
  match node.value with
  | .text text => some text
  | _ => none

/-- The node is unbroken, and shows no text. -/
structure IsPlain (node : FieldNode) : Prop extends IsUnbroken node where
  textless : node.text? = none

/-- The node is unbroken, but for the text that it shows, if it shows one. -/
def IsPrintable (node : FieldNode) : Prop :=
  node.IsUnbroken ↔ ∀ text ∈ node.text?, Unbroken text

theorem IsPlain.printable {node : FieldNode} (plain : node.IsPlain) : node.IsPrintable := by
  rw [IsPrintable, plain.textless]
  exact ⟨fun _ => nofun, fun _ => plain.toIsUnbroken⟩

/-- A node with a label and no remarks. -/
theorem IsPlain.ofLabel {node : FieldNode} (label : Unbroken node.label) (text : node.text = [])
    (textless : node.text? = none) : node.IsPlain := by
  refine ⟨⟨label, ?_⟩, textless⟩
  rw [text]
  simp

theorem isPlain_uint {spec : FieldSpec} (known : spec ∈ Fields.all) (offset raw : Nat) :
    (uint spec offset raw).IsPlain :=
  .ofLabel (FieldSpec.unbroken_describe known _) rfl rfl

theorem isPlain_parts {parts : List FieldSpec} (known : ∀ part ∈ parts, part ∈ Fields.all)
    (offset raw : Nat) :
    ∀ node ∈ preorderAll (parts.map fun part => uint part offset raw), node.IsPlain := by
  intro node hnode
  rw [preorderAll_map_uint] at hnode
  obtain ⟨part, hpart, rfl⟩ := List.mem_map.mp hnode
  exact isPlain_uint (known part hpart) offset raw

theorem isPlain_ofBytes (key : String) {label : String} (h : Unbroken label) (offset : Nat)
    (bytes : Bytes) : (ofBytes key label offset bytes).IsPlain :=
  .ofLabel (((h.append (by decide)).append (.decimal _)).append (by decide)) rfl rfl

/-- The text is a part of the label, so a line feed in the one is a line feed in the other. -/
theorem isPrintable_ofText (key : String) {label : String} (h : Unbroken label)
    (offset length : Nat) (text : String) : (ofText key label offset length text).IsPrintable := by
  have hlabel : Unbroken (ofText key label offset length text).label ↔ Unbroken text := by
    show Unbroken (label ++ ": " ++ text) ↔ Unbroken text
    rw [Unbroken.append_iff]
    exact and_iff_right (h.append (by decide))
  constructor
  · rintro ⟨hnode, -⟩ shown hshown
    cases hshown
    exact hlabel.mp hnode
  · intro hshown
    exact ⟨hlabel.mpr (hshown text rfl), by simp [ofText]⟩

end FieldNode

namespace PnioBlock

theorem isPlain_of_mem_undecoded {offset : Nat} {bytes : Bytes} {found : FieldNode}
    (h : found ∈ FieldNode.preorderAll (undecoded offset bytes)) : found.IsPlain := by
  unfold undecoded at h
  split at h
  · simp at h
  · rw [FieldNode.preorderAll_cons, FieldNode.preorder_ofBytes] at h
    rw [List.mem_singleton.mp h]
    exact FieldNode.isPlain_ofBytes _ (by decide) _ _

/-- The fields in front of a block's body, and the body. -/
theorem isPlain_of_mem_header {offset : Nat} {block : PnioBlock} {found : FieldNode}
    (h : found ∈ fieldNodes offset block ++ bodyNodes offset block) : found.IsPlain := by
  rcases List.mem_append.mp h with h | h
  · simp only [fieldNodes, List.mem_cons, List.not_mem_nil, or_false] at h
    rcases h with rfl | rfl | rfl | rfl <;> exact FieldNode.isPlain_uint (by simp [Fields.all]) _ _
  · unfold bodyNodes at h
    split at h
    · simp at h
    · rw [List.mem_singleton.mp h]
      exact FieldNode.isPlain_ofBytes _ (by decide) _ _

/-- A block is written with its type and its version in front. -/
theorem isPlain_node (offset : Nat) (block : PnioBlock) : (node offset block).IsPlain := by
  have htype : Unbroken ("Block: " ++ Numeral.hexadecimal 4 block.type.toNat) :=
    .append (by decide) (.hexadecimal _ _)
  have hhigh : Unbroken (_ ++ ", Version: " ++ toString block.versionHigh.toNat) :=
    (htype.append (by decide)).append (.decimal _)
  have hlow : Unbroken (_ ++ "." ++ toString block.versionLow.toNat) :=
    (hhigh.append (by decide)).append (.decimal _)
  exact .ofLabel hlow rfl rfl

theorem isPlain_of_mem_node {offset : Nat} {block : PnioBlock} {found : FieldNode}
    (h : found ∈ FieldNode.preorder (node offset block)) : found.IsPlain := by
  have hnodes : FieldNode.preorderAll (node offset block).children
      = { FieldNode.subtree "pn_io.block_header" "BlockHeader" offset headerSize with
          children := fieldNodes offset block }
        :: (fieldNodes offset block ++ bodyNodes offset block) := by
    show FieldNode.preorderAll (_ :: bodyNodes offset block) = _
    have hbody : FieldNode.preorderAll (bodyNodes offset block) = bodyNodes offset block := by
      -- The body is one leaf, if there is one.
      unfold bodyNodes
      split <;> rfl
    rw [FieldNode.preorderAll_cons, hbody]
    rfl
  rw [FieldNode.preorder_eq, hnodes, List.mem_cons, List.mem_cons] at h
  rcases h with rfl | rfl | h
  · exact isPlain_node offset block
  · exact .ofLabel (show Unbroken "BlockHeader" by decide) rfl rfl
  · exact isPlain_of_mem_header h

/-- The walk over a payload shows blocks and what it cannot decode. -/
theorem isPlain_of_mem_tiles (offset : Nat) (bytes : Bytes) {found : FieldNode}
    (h : found ∈ FieldNode.preorderAll (tiles offset bytes)) : found.IsPlain := by
  induction bytes using splitAll.induct generalizing offset with
  | case1 bytes hsplit =>
      rw [tiles_of_none hsplit] at h
      exact isPlain_of_mem_undecoded h
  | case2 bytes block rest hsplit blocks tail hrest ih =>
      rw [tiles_of_some hsplit, FieldNode.preorderAll_cons, List.mem_append] at h
      rcases h with h | h
      · exact isPlain_of_mem_node h
      · exact ih _ h

end PnioBlock

namespace Findings

/-- Below a node that has nothing to show but the findings are the nodes that were found. -/
theorem preorder_fill_subtree (findings : Findings) (key label : String) (offset length : Nat) :
    FieldNode.preorder (findings.fill (.subtree key label offset length))
      = findings.fill (.subtree key label offset length)
        :: FieldNode.preorderAll findings.nodes :=
  preorder_fill findings _

/-- The nodes are good, and the remarks unbroken. -/
structure Printable (good : FieldNode → Prop) (findings : Findings) : Prop where
  nodes : ∀ node ∈ FieldNode.preorderAll findings.nodes, good node
  text : ∀ text ∈ findings.text, Unbroken text

namespace Printable

variable {good : FieldNode → Prop} {a b : Findings}

/-- Without nodes and remarks there is nothing to say. -/
theorem bare {findings : Findings} (nodes : findings.nodes = []) (text : findings.text = []) :
    findings.Printable good := by
  constructor
  · simp [nodes]
  · simp [text]

theorem append (ha : a.Printable good) (hb : b.Printable good) : (a ++ b).Printable good where
  nodes node hnode := by
    rw [nodes_append, FieldNode.preorderAll_append, List.mem_append] at hnode
    rcases hnode with hnode | hnode
    · exact ha.nodes node hnode
    · exact hb.nodes node hnode
  text text htext := by
    rcases List.mem_append.mp htext with htext | htext
    · exact ha.text text htext
    · exact hb.text text htext

/-- A node that is filled gets the remarks behind its own. -/
theorem isUnbroken_fill (printable : a.Printable good) {shell : FieldNode}
    (unbroken : shell.IsUnbroken) : (a.fill shell).IsUnbroken := by
  refine ⟨unbroken.label, fun text htext => ?_⟩
  rcases List.mem_append.mp htext with htext | htext
  · exact unbroken.text text htext
  · exact printable.text text htext

/-- A tree of findings below a node with an unbroken label is written line by line if the
findings are. -/
theorem lineByLine_fill_iff (printable : a.Printable good) (key : String) {label : String}
    (h : Unbroken label) (offset length : Nat) :
    (a.fill (.subtree key label offset length)).LineByLine
      ↔ ∀ node ∈ FieldNode.preorderAll a.nodes, node.IsUnbroken := by
  rw [FieldNode.lineByLine_iff, preorder_fill_subtree, List.forall_mem_cons]
  exact and_iff_right (printable.isUnbroken_fill ⟨h, nofun⟩)

/-- Findings that are gathered under a node with an unbroken label. -/
theorem under (printable : a.Printable FieldNode.IsPlain) (key : String) {label : String}
    (h : Unbroken label) (offset length : Nat) :
    (a.under (.subtree key label offset length)).Printable FieldNode.IsPlain where
  nodes := by
    rw [nodes_under, FieldNode.preorderAll_cons, FieldNode.preorderAll_nil, List.append_nil,
      preorder_fill_subtree, List.forall_mem_cons]
    exact ⟨⟨printable.isUnbroken_fill ⟨h, nofun⟩, rfl⟩, printable.nodes⟩
  text := nofun

end Printable

end Findings

namespace Decoder

variable {α β : Type}

/-! ### Decoders -/

/-- Wherever it is run, and however far it gets, the decoder shows good nodes and makes
unbroken remarks. -/
def Printable (good : FieldNode → Prop) (decoder : Decoder α) : Prop :=
  ∀ buffer position, (decoder buffer position).1.Printable good

namespace Printable

variable {good more : FieldNode → Prop} {decoder : Decoder α}

theorem mono (printable : Printable good decoder) (h : ∀ node, good node → more node) :
    Printable more decoder := fun buffer position =>
  ⟨fun node hnode => h node ((printable buffer position).nodes node hnode),
    (printable buffer position).text⟩

theorem pure (value : α) : Printable good (pure value) :=
  fun _ _ => .bare rfl rfl

theorem inform (info : String) : Printable good (inform info) :=
  fun _ _ => .bare rfl rfl

theorem note (severity : Severity) (message : String) : Printable good (note severity message) :=
  fun _ _ => .bare rfl rfl

theorem fail (error : DecodeError) : Printable good (fail error : Decoder α) :=
  fun _ _ => .bare rfl rfl

theorem position : Printable good position :=
  fun _ _ => .bare rfl rfl

theorem remaining : Printable good remaining :=
  fun _ _ => .bare rfl rfl

theorem rest : Printable good rest :=
  fun _ _ => .bare rfl rfl

theorem take (width : Nat) : Printable good (take width) := by
  intro buffer position
  unfold Decoder.take
  split <;> exact .bare rfl rfl

theorem report {findings : Findings} (printable : findings.Printable good) :
    Printable good (report findings) :=
  fun _ _ => printable

theorem showNodes {nodes : List FieldNode} (h : ∀ node ∈ FieldNode.preorderAll nodes, good node) :
    Printable good (showNodes nodes) :=
  .report ⟨h, by simp⟩

theorem remark {text : String} (h : Unbroken text) : Printable good (remark text) :=
  .report ⟨by simp, by simpa using h⟩

/-- One decoder after the other. -/
theorem bind {next : α → Decoder β} (first : Printable good decoder)
    (second : ∀ a, Printable good (next a)) : Printable good (decoder >>= next) := by
  intro buffer position
  have hfirst := first buffer position
  rw [run_bind]
  rcases hrun : decoder buffer position with ⟨findings, error | ⟨value, middle⟩⟩
  · rw [hrun] at hfirst
    exact hfirst
  · rw [hrun] at hfirst
    exact hfirst.append (second value buffer middle)

/-- A decoder whose answer is passed through a function. -/
theorem map (f : α → β) (printable : Printable good decoder) : Printable good (f <$> decoder) :=
  printable.bind fun a => pure (f a)

theorem withoutLast (printable : Printable good decoder) (count : Nat) :
    Printable good (withoutLast count decoder) :=
  fun buffer position =>
    printable (buffer.take (max (buffer.length - count) position)) position

theorem within (printable : Printable FieldNode.IsPlain decoder) (key : String) {label : String}
    (h : Unbroken label) (length : Nat) :
    Printable FieldNode.IsPlain (within key label length decoder) :=
  fun buffer position => (printable buffer position).under key h position length

theorem spanning (printable : Printable FieldNode.IsPlain decoder) (key : String) {label : String}
    (h : Unbroken label) : Printable FieldNode.IsPlain (spanning key label decoder) :=
  fun buffer position => (printable buffer position).under key h position _

end Printable

/-! ### Fields -/

theorem printable_number (width : Nat) {node : Nat → Nat → FieldNode}
    (holds : ∀ offset raw, ∀ found ∈ FieldNode.preorder (node offset raw), found.IsPlain) :
    Printable FieldNode.IsPlain (number width node) := by
  unfold number
  refine Printable.position.bind fun offset => (Printable.take width).bind fun bytes =>
    (Printable.showNodes fun found hfound => ?_).bind fun _ => .pure _
  rw [FieldNode.preorderAll_cons, FieldNode.preorderAll_nil, List.append_nil] at hfound
  exact holds offset _ found hfound

theorem printable_uint {spec : FieldSpec} (known : spec ∈ Fields.all) :
    Printable FieldNode.IsPlain (uint spec) := by
  refine printable_number _ fun offset raw found hfound => ?_
  rw [FieldNode.preorder_uint] at hfound
  rw [List.mem_singleton.mp hfound]
  exact FieldNode.isPlain_uint known offset raw

theorem printable_word {spec : FieldSpec} {parts : List FieldSpec} (known : spec ∈ Fields.all)
    (knownParts : ∀ part ∈ parts, part ∈ Fields.all) :
    Printable FieldNode.IsPlain (word spec parts) := by
  refine printable_number _ fun offset raw found hfound => ?_
  rw [FieldNode.preorder_eq, List.mem_cons] at hfound
  rcases hfound with rfl | hfound
  · exact .ofLabel (FieldSpec.unbroken_describe known _) rfl rfl
  · exact FieldNode.isPlain_parts knownParts offset raw found hfound

theorem printable_bytePieces (key : String) {label : String} (h : Unbroken label)
    {pieces : List FieldSpec} (known : ∀ piece ∈ pieces, piece ∈ Fields.all)
    {text : UInt8 → List String} (texts : ∀ byte, ∀ line ∈ text byte, Unbroken line) :
    Printable FieldNode.IsPlain (bytePieces key label pieces text) := by
  refine Printable.map UInt8.ofNat (printable_number _ fun offset raw found hfound => ?_)
  rw [FieldNode.preorder_eq, List.mem_cons] at hfound
  rcases hfound with rfl | hfound
  · exact ⟨⟨h, texts _⟩, rfl⟩
  · exact FieldNode.isPlain_parts known offset raw found hfound

theorem printable_shownBytes (key : String) {label : String} (h : Unbroken label) (width : Nat) :
    Printable FieldNode.IsPlain (shownBytes key label width) := by
  unfold shownBytes
  refine Printable.position.bind fun offset => (Printable.take width).bind fun bytes =>
    (Printable.showNodes fun found hfound => ?_).bind fun _ => .pure _
  rw [FieldNode.preorderAll_cons, FieldNode.preorder_ofBytes] at hfound
  rw [List.mem_singleton.mp hfound]
  exact FieldNode.isPlain_ofBytes key h offset bytes

theorem printable_accessPoints : Printable FieldNode.IsPlain accessPoints := by
  unfold accessPoints
  exact (printable_uint (by simp [Fields.all])).bind fun _ =>
    (printable_uint (by simp [Fields.all])).bind fun _ => .pure _

/-- The remark of the flags is made of two numbers. -/
theorem unbroken_addFlagsText (flags : AddFlags) : Unbroken (addFlagsText flags) := by
  have hwindow : Unbroken (", Window Size: " ++ toString flags.windowSize.toNat) :=
    .append (by decide) (.decimal _)
  exact ((hwindow.append (by decide)).append (.decimal _)).append (by decide)

theorem printable_headerBehind (accessPoints : AccessPoints) :
    Printable FieldNode.IsPlain (headerBehind accessPoints) := by
  have type : Printable FieldNode.IsPlain pduType :=
    .map _ (printable_bytePieces _ (by decide) (by simp [Fields.all]) (by simp))
  have flags : Printable FieldNode.IsPlain addFlags := by
    refine .map _ (printable_bytePieces _ (by decide) (by simp [Fields.all]) fun byte text h => ?_)
    rw [List.mem_singleton.mp h]
    exact unbroken_addFlagsText _
  unfold headerBehind
  exact type.bind fun _ => flags.bind fun _ =>
    (printable_uint (by simp [Fields.all])).bind fun _ =>
    (printable_uint (by simp [Fields.all])).bind fun _ =>
    (printable_uint (by simp [Fields.all])).bind fun _ => .pure _

theorem printable_opnumWord : Printable FieldNode.IsPlain opnumWord := by
  unfold opnumWord
  exact (printable_word (by simp [Fields.all]) (by simp [Fields.all])).bind fun _ => .pure _

theorem printable_securityMetadata : Printable FieldNode.IsPlain securityMetadata := by
  refine Printable.within ?_ _ (by decide) _
  exact (printable_word (by simp [Fields.all]) (by simp [Fields.all])).bind fun _ =>
    (printable_word (by simp [Fields.all]) (by simp [Fields.all])).bind fun _ =>
    (printable_uint (by simp [Fields.all])).bind fun _ =>
    (printable_word (by simp [Fields.all]) (by simp [Fields.all])).bind fun _ => .pure _

theorem isPlain_statusNode (offset : Nat) (status : PnioStatus) :
    (statusNode offset status).IsPlain := by
  refine .ofLabel ?_ rfl rfl
  show Unbroken (statusLabel status)
  unfold statusLabel
  split
  · decide
  · exact .append (by decide) (.hexadecimal _ _)

theorem printable_pnioStatus : Printable FieldNode.IsPlain pnioStatus := by
  unfold pnioStatus
  refine Printable.position.bind fun offset => (Printable.take _).bind fun bytes =>
    (Printable.showNodes fun found hfound => ?_).bind fun _ => .pure _
  rw [FieldNode.preorderAll_cons, FieldNode.preorderAll_nil, List.append_nil,
    preorder_statusNode] at hfound
  simp only [List.mem_cons, List.not_mem_nil, or_false] at hfound
  rcases hfound with rfl | rfl | rfl | rfl | rfl
  · exact isPlain_statusNode offset _
  all_goals exact FieldNode.isPlain_uint (by simp [Fields.all]) _ _

theorem printable_padding (count : Nat) : Printable FieldNode.IsPlain (padding count) :=
  (printable_shownBytes _ (by decide) count).bind fun _ => .pure _

theorem printable_endpointFields : Printable FieldNode.IsPlain endpointFields := by
  unfold endpointFields
  exact (printable_uint (by simp [Fields.all])).bind fun _ =>
    (printable_uint (by simp [Fields.all])).bind fun _ =>
    (printable_uint (by simp [Fields.all])).bind fun _ =>
    (printable_uint (by simp [Fields.all])).bind fun _ => .pure _

theorem printable_endpoint : Printable FieldNode.IsPlain endpoint :=
  printable_endpointFields.bind fun _ => (printable_padding 1).bind fun _ => .pure _

/-! ### Payloads -/

theorem unbroken_serviceText (opnum : Opnum) (kind : MessageKind) :
    Unbroken (serviceText opnum kind) := by
  have hopnum : Unbroken opnum.name := by
    cases opnum with
    | reserved value => exact (show Unbroken "Reserved" by decide)
    | _ => decide
  have hkind : Unbroken kind.name := by
    cases kind <;> decide
  have hservice : Unbroken (", " ++ opnum.name) := .append (by decide) hopnum
  exact (hservice.append (by decide)).append hkind

theorem isPlain_fragmentNode (fragment : FragmentRecord) : (fragmentNode fragment).IsPlain := by
  refine ⟨⟨.append (.append (by decide) (by decide)) (.decimal _), ?_⟩, rfl⟩
  intro text htext
  rw [List.mem_singleton.mp htext]
  have hrange : Unbroken (", payload: " ++ toString fragment.offset ++ "-"
      ++ toString (fragment.offset + fragment.length - 1)) :=
    ((Unbroken.append (by decide) (.decimal _)).append (by decide)).append (.decimal _)
  exact ((hrange.append (by decide)).append (.decimal _)).append (by decide)

theorem isPlain_count (key : String) {label : String} (h : Unbroken label) (number : Nat) :
    (FieldNode.count key label number).IsPlain :=
  .ofLabel ((h.append (by decide)).append (.decimal _)) rfl rfl

/-- The list of fragments is written with their number and the number of their bytes. -/
theorem isPlain_segmentsNode (message : Message) : (segmentsNode message).IsPlain := by
  have hnumber : Unbroken (toString message.fragments.length ++ " PN RSI Segments (") :=
    .append (.decimal _) (by decide)
  exact .ofLabel ((hnumber.append (.decimal _)).append (by decide)) rfl rfl

theorem isPlain_of_mem_segmentsNode {message : Message} {found : FieldNode}
    (h : found ∈ FieldNode.preorder (segmentsNode message)) : found.IsPlain := by
  -- Below the node itself there are leaves only.
  have hbelow : ∀ child ∈ (segmentsNode message).children,
      child.children = [] ∧ child.IsPlain := by
    intro child hchild
    rcases List.mem_append.mp hchild with hfragment | hnumber
    · obtain ⟨fragment, -, rfl⟩ := List.mem_map.mp hfragment
      exact ⟨rfl, isPlain_fragmentNode fragment⟩
    · simp only [List.mem_cons, List.not_mem_nil, or_false] at hnumber
      rcases hnumber with rfl | rfl
      · exact ⟨rfl, isPlain_count _ (by decide) _⟩
      · exact ⟨rfl, isPlain_count _ (by decide) _⟩
  rw [FieldNode.preorder_eq, FieldNode.preorderAll_of_leaves fun child h => (hbelow child h).1,
    List.mem_cons] at h
  rcases h with rfl | h
  · exact isPlain_segmentsNode message
  · exact (hbelow found h).2

/-- The payload of a message is written with its service behind the label. -/
theorem isPlain_messageNode (fragment : Fragment) (message : Message) :
    (messageNode fragment message).IsPlain := by
  refine ⟨⟨show Unbroken "PN IO RSI Data Payload" by decide, fun text htext => ?_⟩, rfl⟩
  rw [List.mem_singleton.mp htext]
  exact unbroken_serviceText _ _

theorem printable_payloadFindings (fragment : Fragment) (outcome : Outcome) (offset : Nat)
    (bytes : Bytes) :
    (payloadFindings fragment outcome offset bytes).Printable FieldNode.IsPlain := by
  cases outcome with
  | standalone => exact ⟨fun _ => PnioBlock.isPlain_of_mem_tiles offset bytes, nofun⟩
  | pending => exact .bare rfl rfl
  | reassembled message =>
      refine ⟨fun found h => ?_, nofun⟩
      rcases mem_preorder_reassembled_iff.mp h with h | rfl | h
      · exact isPlain_of_mem_segmentsNode h
      · exact isPlain_messageNode fragment message
      · exact PnioBlock.isPlain_of_mem_tiles 0 message.data h
  | reassembledIn frame length =>
      refine ⟨fun found h => ?_, nofun⟩
      rw [mem_preorder_reassembledIn_iff.mp h]
      exact .ofLabel (.append (.append (by decide) (by decide)) (.decimal _)) rfl rfl

theorem printable_payloadIfAny (fragment : Fragment) (outcome : Outcome) :
    Printable FieldNode.IsPlain (payloadIfAny fragment outcome) := by
  unfold payloadIfAny
  by_cases h : 0 < fragment.payloadLength
  · rw [if_pos h]
    exact Printable.position.bind fun offset => Printable.rest.bind fun bytes =>
      .report (printable_payloadFindings fragment outcome offset bytes)
  · rw [if_neg h]
    exact .pure ()

theorem printable_undecoded : Printable FieldNode.IsPlain undecoded := by
  unfold undecoded
  exact Printable.position.bind fun offset => Printable.rest.bind fun bytes =>
    .showNodes fun _ => PnioBlock.isPlain_of_mem_undecoded

/-! ### Blocks -/

/-- A later fragment shows no fixed fields, and the last one says where they are. -/
theorem printable_later {text : String} (h : Unbroken text) (last : Bool) (block : RsiBlock) :
    Printable FieldNode.IsPlain (do
      if last then remark text
      report { block }) := by
  cases last
  · exact .report (.bare rfl rfl)
  · exact (Printable.remark h).bind fun _ => .report (.bare rfl rfl)

theorem printable_requestFields (layout : RequestLayout) (destination : UInt16)
    (fragment : Fragment) :
    Printable FieldNode.IsPlain (requestFields layout destination fragment) := by
  have hlater : Unbroken layout.laterFragmentText := by
    cases layout <;> decide
  unfold requestFields
  by_cases hfirst : fragment.isFirst
  · simp only [hfirst, if_true]
    refine (printable_uint (by simp [Fields.all])).bind fun _ => ?_
    by_cases hendpoint : layout.hasEndpoint destination
    · simp only [hendpoint, if_true]
      exact (printable_endpoint.map some).bind fun _ => .report (.bare rfl rfl)
    · simp only [hendpoint]
      exact (Printable.pure none).bind fun _ => .report (.bare rfl rfl)
  · simp only [hfirst]
    exact printable_later hlater _ _

theorem printable_responseFields (fragment : Fragment) :
    Printable FieldNode.IsPlain (responseFields fragment) := by
  unfold responseFields
  by_cases hfirst : fragment.isFirst
  · simp only [hfirst, if_true]
    exact printable_pnioStatus.bind fun _ => .report (.bare rfl rfl)
  · simp only [hfirst]
    exact printable_later (by decide) _ _

theorem printable_requestBlock (layout : RequestLayout) (destination : UInt16) (fragment : Fragment)
    (outcome : Outcome) :
    Printable FieldNode.IsPlain (requestBlock layout destination fragment outcome) := by
  have hlabel : Unbroken layout.label := by
    cases layout <;> decide
  rw [requestBlock_eq]
  exact ((printable_requestFields layout destination fragment).bind fun _ =>
    printable_payloadIfAny fragment outcome).spanning _ hlabel

theorem printable_responseBlock (fragment : Fragment) (outcome : Outcome) :
    Printable FieldNode.IsPlain (responseBlock fragment outcome) := by
  rw [responseBlock_eq]
  exact (printable_responseFields fragment).bind fun _ => printable_payloadIfAny fragment outcome

/-! ### PDUs -/

theorem printable_ackBody (header : Header) : Printable FieldNode.IsPlain (ackBody header) := by
  unfold ackBody
  refine (Printable.inform _).bind fun _ => ?_
  split
  · exact .inform _
  · exact .pure ()

theorem printable_errBody (envelope : Envelope) :
    Printable FieldNode.IsPlain (errBody envelope) := by
  unfold errBody
  refine (Printable.inform _).bind fun _ => printable_pnioStatus.bind fun _ =>
    Printable.remaining.bind fun left => ?_
  by_cases h : envelope = .secured ∧ 0 < left
  · rw [if_pos h]
    exact (printable_uint (by simp [Fields.all])).bind fun _ =>
      (printable_uint (by simp [Fields.all])).bind fun _ => Printable.remaining.bind fun _ =>
      (printable_shownBytes _ (by decide) _).bind fun _ => .pure ()
  · rw [if_neg h]
    exact .pure ()

theorem printable_body (envelope : Envelope) (header : Header) (outcome : Outcome) :
    Printable FieldNode.IsPlain (body envelope header outcome) := by
  -- Reserved numbers are noted, and what is behind them is shown as it is.
  have hreserved : ∀ message : String, Printable FieldNode.IsPlain (do
      note .note message
      undecoded) := fun _ => (Printable.note _ _).bind fun _ => printable_undecoded
  unfold body
  split
  · exact printable_ackBody header
  · exact printable_errBody envelope
  · unfold requestBody
    refine printable_opnumWord.bind fun word => (Printable.inform _).bind fun _ => ?_
    split
    · exact printable_requestBlock _ _ _ outcome
    · exact hreserved _
  · unfold responseBody
    exact printable_opnumWord.bind fun _ => (Printable.inform _).bind fun _ =>
      printable_responseBlock _ outcome
  · exact hreserved _

theorem printable_readable (envelope : Envelope) (accessPoints : AccessPoints) (outcome : Outcome) :
    Printable FieldNode.IsPlain (readable envelope accessPoints outcome) :=
  (printable_headerBehind accessPoints).bind fun header => (Printable.report (.bare rfl rfl)).bind
    fun _ => printable_body envelope header outcome

theorem printable_securityData : Printable FieldNode.IsPlain securityData := by
  intro buffer position
  rw [run_securityData]
  refine ⟨fun found hfound => ?_, nofun⟩
  change found ∈ FieldNode.preorderAll (ciphertextNodes position (buffer.drop position)) at hfound
  unfold ciphertextNodes at hfound
  split at hfound
  · cases hfound
  · rw [FieldNode.preorderAll_cons, FieldNode.preorder_ofBytes] at hfound
    rw [List.mem_singleton.mp hfound]
    exact FieldNode.isPlain_ofBytes _ (by decide) _ _

theorem printable_securedBehind (mode : ProtectionMode) (accessPoints : AccessPoints)
    (outcome : Outcome) :
    Printable FieldNode.IsPlain (securedBehind mode accessPoints outcome) := by
  cases mode with
  | authenticationOnly =>
      exact ((printable_readable .secured accessPoints outcome).withoutLast _).bind fun _ =>
        (printable_shownBytes _ (by decide) _).bind fun _ => .pure ()
  | authenticatedEncryption => exact printable_securityData.bind fun length => .inform _

/-- **A PDU is shown by nodes whose labels and remarks stand on their line**, whatever its
bytes are and whatever became of its payload. -/
theorem printable_pdu (envelope : Envelope) (outcome : Outcome) :
    Printable FieldNode.IsPlain (pdu envelope outcome) := by
  cases envelope with
  | plain =>
      show Printable FieldNode.IsPlain (plainPdu outcome)
      rw [plainPdu_eq]
      exact printable_accessPoints.bind fun _ => printable_readable .plain _ outcome
  | secured =>
      show Printable FieldNode.IsPlain (securedPdu outcome)
      rw [securedPdu_eq]
      exact printable_securityMetadata.bind fun _ =>
        (Printable.report (.bare rfl rfl)).bind fun _ => printable_accessPoints.bind fun _ =>
        printable_securedBehind _ _ outcome

/-! ### PDRsiInstances blocks -/

theorem unbroken_instanceText (endpoint : Endpoint) : Unbroken (instanceText endpoint) := by
  have hvendor : Unbroken (": VendorID:" ++ toString endpoint.vendorId.toNat) :=
    .append (by decide) (.decimal _)
  have hdevice : Unbroken (_ ++ ", DeviceID:" ++ toString endpoint.deviceId.toNat ++ ", ") :=
    ((hvendor.append (by decide)).append (.decimal _)).append (by decide)
  have hinstance : Unbroken ("InstanceID:" ++ toString endpoint.instanceId.toNat) :=
    .append (by decide) (.decimal _)
  exact hdevice.append ((hinstance.append (by decide)).append (.decimal _))

theorem printable_instanceEntry : Printable FieldNode.IsPlain instanceEntry := by
  refine Printable.spanning ?_ _ (by decide)
  exact printable_endpointFields.bind fun endpoint =>
    (Printable.remark (unbroken_instanceText endpoint)).bind fun _ =>
      (printable_padding 1).bind fun _ => .pure _

theorem printable_times {good : FieldNode → Prop} {decoder : Decoder α}
    (printable : Printable good decoder) (count : Nat) : Printable good (times count decoder) := by
  induction count with
  | zero => exact .pure []
  | succ count ih => exact printable.bind fun _ => ih.bind fun _ => .pure _

/-- A text goes into the label as it is. -/
theorem printable_textField {field : TextField} (h : Unbroken field.label) :
    Printable FieldNode.IsPrintable (textField field) := by
  unfold textField
  refine Printable.position.bind fun offset => (Printable.take _).bind fun bytes =>
    (Printable.showNodes fun found hfound => ?_).bind fun _ => .pure _
  rw [FieldNode.preorderAll_cons, FieldNode.preorder_eq] at hfound
  rw [List.mem_singleton.mp hfound]
  exact FieldNode.isPrintable_ofText _ h _ _ _

/-- **Of a PDRsiInstances block only the texts can break a line**, whatever its bytes are and
wherever it is cut off. -/
theorem printable_deviceInstances (versionHigh versionLow : UInt8) :
    Printable FieldNode.IsPrintable (deviceInstances versionHigh versionLow) := by
  -- In front of the texts every node is plain.
  have hcount : Printable FieldNode.IsPrintable (uint Fields.numberOfEntries) :=
    (printable_uint (by simp [Fields.all])).mono fun _ => FieldNode.IsPlain.printable
  have hentries (count : Nat) : Printable FieldNode.IsPrintable (times count instanceEntry) :=
    (printable_times printable_instanceEntry count).mono fun _ => FieldNode.IsPlain.printable
  have hremark (count : Nat) : Unbroken (": NumberOfEntries:" ++ toString count) :=
    .append (by decide) (.decimal count)
  unfold deviceInstances
  split
  · refine hcount.bind fun count => (Printable.remark (hremark count)).bind fun _ =>
      (hentries count).bind fun _ => ?_
    exact (printable_textField (by decide)).bind fun _ =>
      (printable_textField (by decide)).bind fun _ =>
      (printable_textField (by decide)).bind fun _ =>
      (printable_textField (by decide)).bind fun _ =>
      (printable_textField (by decide)).bind fun _ =>
      (printable_textField (by decide)).bind fun _ => .pure _
  · exact (Printable.note _ _).bind fun _ => .fail _

end Decoder

end ProfinetRsi

import ProfinetRsi.Bytes.Lemmas
import ProfinetRsi.Instances
import ProfinetRsi.Main
import ProfinetRsi.Proofs.Reassembly.Segmentation
import ProfinetRsi.Proofs.Reassembly.FirstPass
import ProfinetRsi.Proofs.Decoder.Reads
import ProfinetRsi.Proofs.Account
import ProfinetRsi.Proofs.Decoder.Accountable
import ProfinetRsi.Proofs.Decoder.FixedFields
import ProfinetRsi.Proofs.Decoder.Surroundings
import ProfinetRsi.Proofs.Decoder.Handover
import ProfinetRsi.Proofs.Decoder.Payload
import ProfinetRsi.Proofs.Coverage
import ProfinetRsi.Proofs.Session.Run
import ProfinetRsi.Proofs.Reassembly.Fate
import ProfinetRsi.Proofs.Session.Display
import ProfinetRsi.Proofs.Pdu.Encoding
import ProfinetRsi.Proofs.Session.Fragmentation
import ProfinetRsi.Proofs.Decoder.Translation
import ProfinetRsi.Proofs.Decoder.Regular
import ProfinetRsi.Proofs.Decoder.Completion
import ProfinetRsi.Proofs.Session.Effect
import ProfinetRsi.Proofs.Session.Authentication
import ProfinetRsi.Proofs.Reassembly.Numbering
import ProfinetRsi.Proofs.Session.Interference
import ProfinetRsi.Proofs.Checked.Decoder
import ProfinetRsi.Proofs.Checked.PnioBlock
import ProfinetRsi.Proofs.Checked.Payload
import ProfinetRsi.Proofs.Checked.Pdu
import ProfinetRsi.Proofs.Checked.Reassembly
import ProfinetRsi.Proofs.Checked.Instances
import ProfinetRsi.Proofs.Checked.Session
import ProfinetRsi.Proofs.Reassembly.Integrity
import ProfinetRsi.Proofs.Reassembly.Retelling
import ProfinetRsi.Proofs.Reassembly.Tally
import ProfinetRsi.Proofs.Session.Pass
import ProfinetRsi.Proofs.Session.Placement
import ProfinetRsi.Proofs.Session.Stateless
import ProfinetRsi.Proofs.Pdu.Parts
import ProfinetRsi.Proofs.Pdu.Lossless
import ProfinetRsi.Proofs.Decoder.Takes
import ProfinetRsi.Proofs.Decoder.Instances
import ProfinetRsi.Proofs.Instances
import ProfinetRsi.Proofs.Capture.Passes
import ProfinetRsi.Proofs.Capture.Accounts
import ProfinetRsi.Proofs.Session.Lengths
import ProfinetRsi.Proofs.Session.Extent
import ProfinetRsi.Proofs.Capture.Records
import ProfinetRsi.Proofs.Capture.Framing
import ProfinetRsi.Proofs.Transport.Terminals
import ProfinetRsi.Proofs.Session.Keys
import ProfinetRsi.Proofs.Capture.Writing
import ProfinetRsi.Proofs.Decoder.Truncation
import ProfinetRsi.Proofs.PnioBlock.Walk
import ProfinetRsi.Proofs.Session.Truncation
import ProfinetRsi.Proofs.Decoder.Confined
import ProfinetRsi.Proofs.Session.Blocks
import ProfinetRsi.Proofs.Session.Protection
import ProfinetRsi.Proofs.Tree.Places
import ProfinetRsi.Proofs.Text.Hex
import ProfinetRsi.Proofs.Command.HexInput
import ProfinetRsi.Proofs.Text.Line
import ProfinetRsi.Proofs.Tree.Lines
import ProfinetRsi.Proofs.Decoder.Printable
import ProfinetRsi.Proofs.Session.Lines
import ProfinetRsi.Proofs.Session.Counting
import ProfinetRsi.Proofs.Capture.Metrics

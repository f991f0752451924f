import InstructionCoverage.RangeFile
import InstructionCoverage.Summary
import InstructionCoverage.Decimal.Fixed
import InstructionCoverage.Release
import InstructionCoverage.Model.Network
import InstructionCoverage.Session
import InstructionCoverage.Disassembly
import InstructionCoverage.Main
import InstructionCoverage.Proofs.CommandLine.Align
import InstructionCoverage.Proofs.Model.Delivery
import InstructionCoverage.Proofs.Session.Publication
import InstructionCoverage.Proofs.Session.Exclusion
import InstructionCoverage.Proofs.Disassembly.Overlap
import InstructionCoverage.Proofs.Model.AggregateHistory
import InstructionCoverage.Proofs.Model.Observation
import InstructionCoverage.Proofs.Session.Panic
import InstructionCoverage.Proofs.Session.Regrouping
import InstructionCoverage.Proofs.Session.Isolation
import InstructionCoverage.Proofs.Session.Emptying
import InstructionCoverage.Proofs.RangeFile.Streaming
import InstructionCoverage.Proofs.Model.Hits
import InstructionCoverage.Proofs.Session.Monotone
import InstructionCoverage.Proofs.Address.Text
import InstructionCoverage.Proofs.Model.Atomicity
import InstructionCoverage.Proofs.Reading.Decoder
import InstructionCoverage.Proofs.Reading.Spelling
import InstructionCoverage.Proofs.Reading.Grammar
import InstructionCoverage.Proofs.RangeFile.RoundTrip
import InstructionCoverage.Proofs.RangeFile.Breaking
import InstructionCoverage.Proofs.Reading.Segments
import InstructionCoverage.Proofs.Summary.Totals
import InstructionCoverage.Proofs.Summary.Rows
import InstructionCoverage.Proofs.Disassembly.Tiling
import InstructionCoverage.Proofs.Listing.Queries

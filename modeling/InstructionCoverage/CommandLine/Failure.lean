import InstructionCoverage.Config
import InstructionCoverage.Disassembly
import InstructionCoverage.Session.Operation

namespace InstructionCoverage.CommandLine

inductive Failure where
  | config (e : ConfigError)
  | invalidBase (text : String) (cause : RangeError)
  | unreadableBinary (path : Path) (cause : ReadError)
  | notDisassembled (path : Path) (cause : DisassemblyError)
  | refused (cause : SessionError)
  | workerPanicked
  | importCancelled
  | nothingImported
  | rejectedFiles (failed total : Nat)
  deriving DecidableEq

def Failure.complaint : Failure → Complaint
  | .config e => e.complaint
  | .invalidBase text cause => ⟨s!"Invalid base address: {text}", some cause.message⟩
  | .unreadableBinary path cause => ⟨s!"Failed to read binary: {path.text}", some cause.message⟩
  | .notDisassembled path cause => ⟨s!"Failed to disassemble {path.text}", some cause.message⟩
  | .refused cause => ⟨cause.message, none⟩
  | .workerPanicked => ⟨"Coverage import thread panicked", none⟩
  | .importCancelled => ⟨"Coverage import cancelled", none⟩
  | .nothingImported => ⟨"No coverage file could be imported", none⟩
  | .rejectedFiles failed total => ⟨s!"{failed} of {total} coverage file(s) failed to parse", none⟩

end InstructionCoverage.CommandLine

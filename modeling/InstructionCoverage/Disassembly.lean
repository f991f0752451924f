import InstructionCoverage.Image

namespace InstructionCoverage

inductive DisassemblyError where
  | unsupportedArchitecture (name : String)
  | unknownArchitecture
  | unsupportedFormat
  | malformed
  deriving DecidableEq

def DisassemblyError.message : DisassemblyError → String
  | .unsupportedArchitecture name => s!"unsupported architecture: {name}"
  | .unknownArchitecture => "could not determine architecture; pass one explicitly"
  | .unsupportedFormat => "cannot parse object file: unsupported object format"
  | .malformed => "cannot parse object file: malformed image"

structure Disassembly where
  architecture : Architecture
  listing : InstructionListing

namespace Disassembly

def namedArchitecture (name : String) : Except DisassemblyError Architecture :=
  match Architecture.ofName? name with
  | some a => .ok a
  | none => .error (.unsupportedArchitecture name)

def ofBlob (d : InstructionDecoder) (bytes : List UInt8) (base : Address) : InstructionListing :=
  .ofList (Sweep.sweep d base bytes)

def ofRaw (bytes : List UInt8) (base : Address) (arch : String) (m : Disassembler := Architecture.decoder) :
    Except DisassemblyError Disassembly := do
  let a ← namedArchitecture arch
  return ⟨a, ofBlob (m a) bytes base⟩

def ofSections (d : InstructionDecoder) (sections : List CodeSection) (symbols : List Symbol) : InstructionListing :=
  (InstructionListing.ofList (sections.flatMap fun s => Sweep.sweep d s.address s.bytes)).withRegions
    (Symbol.regions sections symbols)

def chooseArchitecture (hint : Option String) (found : Option Architecture) : Except DisassemblyError Architecture :=
  match hint, found with
  | some name, _ => namedArchitecture name
  | none, some a => .ok a
  | none, none => .error .unknownArchitecture

def ofObject (bytes : List UInt8) (hint : Option String) (m : Disassembler := Architecture.decoder) :
    Except DisassemblyError Disassembly :=
  match Image.identify bytes with
  | .malformed => .error .malformed
  | .unsupported => do
    let _ ← chooseArchitecture hint none
    .error .unsupportedFormat
  | .program p => do
    let a ← chooseArchitecture hint p.architecture
    return ⟨a, ofSections (m a) p.sections p.symbols⟩

def load (bytes : List UInt8) (hint : Option String) (base : Address) (m : Disassembler := Architecture.decoder) :
    Except DisassemblyError Disassembly :=
  match Image.identify bytes with
  | .program _ => ofObject bytes hint m
  | _ => ofRaw bytes base (hint.getD "x86_64") m

end Disassembly

end InstructionCoverage

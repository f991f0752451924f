import InstructionCoverage.Disassembly.Architecture
import InstructionCoverage.Disassembly.Symbols
import InstructionCoverage.Image.Bytes

namespace InstructionCoverage.Image

structure Program where
  architecture : Option Architecture
  sections : List CodeSection
  symbols : List Symbol

end InstructionCoverage.Image

import InstructionCoverage.Image.Elf
import InstructionCoverage.Image.MachO
import InstructionCoverage.Image.Pe

namespace InstructionCoverage.Image

inductive Contents where
  | program (p : Program)
  | unsupported
  | malformed

def Contents.ofProgram? : Option Program → Contents
  | some p => .program p
  | none => .malformed

def identify (bytes : List UInt8) : Contents :=
  let b := bytes.toArray
  if b.size < 16 then .malformed
  else match bytes with
    | 0x7f :: 0x45 :: 0x4c :: 0x46 :: _ => .ofProgram? (Elf.read? b)
    | 0x4d :: 0x5a :: _ => .ofProgram? (Pe.read? b)
    | _ => if (MachO.layout? b).isSome then .ofProgram? (MachO.read? b) else .unsupported

end InstructionCoverage.Image

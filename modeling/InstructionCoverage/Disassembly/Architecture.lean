import InstructionCoverage.Disassembly.InstructionSet

namespace InstructionCoverage

inductive Architecture where
  | x86_64
  | x86
  | arm
  | arm64
  | riscv64
  | riscv32
  deriving DecidableEq

namespace Architecture

def name : Architecture → String
  | x86_64 => "x86_64"
  | x86 => "x86"
  | arm => "arm"
  | arm64 => "arm64"
  | riscv64 => "riscv64"
  | riscv32 => "riscv32"

def ofName? (name : String) : Option Architecture :=
  match name.toLower with
  | "x86_64" | "amd64" => some x86_64
  | "x86" | "i386" => some x86
  | "arm" | "armv7" => some arm
  | "arm64" | "aarch64" => some arm64
  | "riscv" | "riscv64" => some riscv64
  | "riscv32" => some riscv32
  | _ => none

def patterns : Architecture → List Pattern
  | x86_64 => InstructionSet.sharedX86 ++ InstructionSet.onlyX86_64
  | x86 => InstructionSet.sharedX86 ++ InstructionSet.onlyX86
  | arm => InstructionSet.arm
  | arm64 => InstructionSet.arm64
  | riscv64 => InstructionSet.riscv64
  | riscv32 => InstructionSet.riscv32

def decoder (a : Architecture) : InstructionDecoder :=
  Pattern.decoder a.patterns

end Architecture

abbrev Disassembler := Architecture → InstructionDecoder

end InstructionCoverage

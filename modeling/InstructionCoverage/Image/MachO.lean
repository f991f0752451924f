import InstructionCoverage.Image.Program

namespace InstructionCoverage.Image.MachO

def pureInstructions : Nat := 0x80000000
def someInstructions : Nat := 0x400

structure Layout where
  wide : Bool
  endian : Endian

def layout? (b : Blob) : Option Layout := do
  match ← b.number? .big 0 4 with
  | 0xcffaedfe => some ⟨true, .little⟩
  | 0xcefaedfe => some ⟨false, .little⟩
  | 0xfeedfacf => some ⟨true, .big⟩
  | 0xfeedface => some ⟨false, .big⟩
  | _ => none

def Layout.field? (l : Layout) (b : Blob) (offset width : Nat) : Option Nat :=
  b.number? l.endian offset width

def Layout.headerSize (l : Layout) : Nat := if l.wide then 32 else 28
def Layout.wordSize (l : Layout) : Nat := if l.wide then 8 else 4
def Layout.segmentSize (l : Layout) : Nat := if l.wide then 72 else 56
def Layout.sectionSize (l : Layout) : Nat := if l.wide then 80 else 68
def Layout.symbolSize (l : Layout) : Nat := if l.wide then 16 else 12

def commands? (l : Layout) (b : Blob) : Nat → Nat → Option (List (Nat × Nat))
  | 0, _ => some []
  | count + 1, start => do
    let command ← l.field? b start 4
    let size ← l.field? b (start + 4) 4
    guard (size ≤ b.size - start)
    let rest ← commands? l b count (start + size)
    return (command, start) :: rest

def isZeroFill (flags : Nat) : Bool :=
  [0x1, 0xc, 0x12].contains (flags % 256)

def codeSection? (l : Layout) (b : Blob) (start : Nat) : Option CodeSection := do
  let header ← b.slice? start l.sectionSize
  let flags ← l.field? b (start + 32 + 2 * l.wordSize + 16) 4
  let named := header.take 16 |>.takeWhile (· != 0)
  guard (flags / pureInstructions % 2 = 1 ∨ flags / someInstructions % 2 = 1 ∨ named = "__text".toUTF8.toList)
  let address ← Address.ofNat? (← l.field? b (start + 32) l.wordSize)
  let size ← l.field? b (start + 32 + l.wordSize) l.wordSize
  let offset ← l.field? b (start + 32 + 2 * l.wordSize) 4
  return ⟨address, if isZeroFill flags then [] else (b.slice? offset size).getD []⟩

def segment? (l : Layout) (b : Blob) (start : Nat) : Option (List CodeSection) := do
  let _ ← b.slice? start l.segmentSize
  let offset ← l.field? b (start + 24 + 2 * l.wordSize) l.wordSize
  let size ← l.field? b (start + 24 + 3 * l.wordSize) l.wordSize
  guard (size = 0 ∨ (b.slice? offset size).isSome)
  let count ← l.field? b (start + l.segmentSize - 8) 4
  let fitting := min count (b.size / l.sectionSize)
  return (List.range fitting).filterMap fun i => codeSection? l b (start + l.segmentSize + i * l.sectionSize)

def symbolAt? (l : Layout) (b : Blob) (names start : Nat) : Option Symbol := do
  let _ ← b.slice? start l.symbolSize
  let name ← b.text? (names + (← l.field? b start 4))
  let type ← l.field? b (start + 4) 1
  let sect ← l.field? b (start + 5) 1
  guard (¬ (sect = 0 ∧ type % 16 < 2))
  let name := String.ofList (name.toList.dropWhile (· == '_'))
  guard (name ≠ "")
  let address ← Address.ofNat? (← l.field? b (start + 8) l.wordSize)
  return ⟨name, address, none⟩

def symbols? (l : Layout) (b : Blob) (start : Nat) : Option (List Symbol) := do
  let _ ← b.slice? start 24
  let table ← l.field? b (start + 8) 4
  let count ← l.field? b (start + 12) 4
  let names ← l.field? b (start + 16) 4
  let fitting := min count (b.size / l.symbolSize)
  return (List.range fitting).filterMap fun i => symbolAt? l b names (table + i * l.symbolSize)

def architecture? : Nat → Option Architecture
  | 0x1000007 => some .x86_64
  | 0x7 => some .x86
  | 0x100000c => some .arm64
  | 0xc => some .arm
  | _ => none

def addCommand (l : Layout) (b : Blob) (program : Program) : Nat × Nat → Option Program
  | (0x1, start) => if l.wide then some program else addSegment start
  | (0x19, start) => if l.wide then addSegment start else some program
  | (0x2, start) => (symbols? l b start).map fun symbols => { program with symbols := symbols }
  | _ => some program
where
  addSegment (start : Nat) : Option Program :=
    (segment? l b start).map fun sections => { program with sections := program.sections ++ sections }

def read? (b : Blob) : Option Program := do
  let l ← layout? b
  let _ ← b.slice? 0 l.headerSize
  let cpu ← l.field? b 4 4
  let count ← l.field? b 16 4
  let size ← l.field? b 20 4
  guard (count ≤ size / 8 ∧ size ≤ b.size)
  let commands ← commands? l b count l.headerSize
  commands.foldlM (addCommand l b) ⟨architecture? cpu, [], []⟩

end InstructionCoverage.Image.MachO

import InstructionCoverage.Image.Program

/-!
ELF files of both word sizes and byte orders. The tables of a file have to lie inside it; the contents of a section
need not, and count only where they do.
-/

namespace InstructionCoverage.Image.Elf

def executable : Nat := 4
def typeSymbols : Nat := 2
def typeRelocations : Nat := 9
def typeRelocationsWithAddend : Nat := 4
def typeNoBits : Nat := 8

structure Layout where
  wide : Bool
  endian : Endian

def Layout.field? (l : Layout) (b : Blob) (start : Nat) (narrow wide : Nat × Nat) : Option Nat :=
  let place := if l.wide then wide else narrow
  b.number? l.endian (start + place.1) place.2

structure Header where
  machine : Nat
  programStart : Nat
  programCount : Nat
  sectionStart : Nat
  sectionCount : Nat
  namesIndex : Nat

def layout? (b : Blob) : Option Layout := do
  let wide ← match ← b.number? .little 4 1 with
    | 1 => some false
    | 2 => some true
    | _ => none
  let endian ← match ← b.number? .little 5 1 with
    | 1 => some Endian.little
    | 2 => some Endian.big
    | _ => none
  return ⟨wide, endian⟩

def header? (l : Layout) (b : Blob) : Option Header := do
  guard ((if l.wide then 64 else 52) ≤ b.size)
  let field := l.field? b 0
  return {
    machine := ← field (18, 2) (18, 2)
    programStart := ← field (28, 4) (32, 8)
    programCount := ← field (44, 2) (56, 2)
    sectionStart := ← field (32, 4) (40, 8)
    sectionCount := ← field (48, 2) (60, 2)
    namesIndex := ← field (50, 2) (62, 2) }

structure SectionHeader where
  type : Nat
  flags : Nat
  address : Nat
  offset : Nat
  size : Nat
  link : Nat
  entrySize : Nat

def Layout.sectionSize (l : Layout) : Nat := if l.wide then 64 else 40
def Layout.symbolSize (l : Layout) : Nat := if l.wide then 24 else 16
def Layout.programSize (l : Layout) : Nat := if l.wide then 56 else 32

def sectionHeader? (l : Layout) (b : Blob) (start : Nat) : Option SectionHeader := do
  let field := l.field? b start
  return {
    type := ← field (4, 4) (4, 4)
    flags := ← field (8, 4) (8, 8)
    address := ← field (12, 4) (16, 8)
    offset := ← field (16, 4) (24, 8)
    size := ← field (20, 4) (32, 8)
    link := ← field (24, 4) (40, 4)
    entrySize := ← field (36, 4) (56, 8) }

/-- The section headers. A count of zero stands for the size in the first header. -/
def sectionHeaders? (l : Layout) (b : Blob) (h : Header) : Option (List SectionHeader) :=
  if h.sectionStart = 0 then some []
  else do
    let first ← sectionHeader? l b h.sectionStart
    let count := if h.sectionCount = 0 then first.size else h.sectionCount
    guard (count ≤ b.size / l.sectionSize)
    let rest ← (List.range (count - 1)).mapM fun i => sectionHeader? l b (h.sectionStart + (i + 1) * l.sectionSize)
    return first :: rest

def SectionHeader.inBounds (s : SectionHeader) (b : Blob) : Bool :=
  s.type == typeNoBits || s.size == 0 || (s.offset + s.size ≤ b.size && s.address + s.size < 0x10000000000000000)

def stringTable? (b : Blob) (headers : List SectionHeader) (index : Nat) : Option (List UInt8) :=
  let index := if index = 0xffff then (headers.head?.map SectionHeader.link).getD headers.length else index
  match headers[index]? with
  | none => some []
  | some s => do
    guard (s.inBounds b)
    let bytes ← b.range? s.offset s.size
    guard (String.fromUTF8? (ByteArray.mk bytes.toArray)).isSome
    return bytes

def symbolName? (table : List UInt8) (offset : Nat) : Option String :=
  if offset < table.length then Blob.textOf? (table.drop offset) else none

def symbolAt? (l : Layout) (b : Blob) (names : List UInt8) (start : Nat) : Option Symbol := do
  let field := l.field? b start
  let name ← symbolName? names (← field (0, 4) (0, 4))
  guard ((← field (12, 1) (4, 1)) % 16 = 2 ∧ (← field (14, 2) (6, 2)) ≠ 0 ∧ name ≠ "")
  let size ← field (8, 4) (16, 8)
  let address ← Address.ofNat? (← field (4, 4) (8, 8))
  return ⟨name, address, if size = 0 then none else some size⟩

def symbols? (l : Layout) (b : Blob) (headers : List SectionHeader) : Option (List Symbol) :=
  match headers.reverse.find? fun s => s.type = typeSymbols with
  | none => some []
  | some s => do
    let count := if s.entrySize = 0 then 0 else s.size / s.entrySize
    let _ ← b.slice? s.offset (count * l.symbolSize)
    let names ← stringTable? b headers s.link
    return (List.range count).filterMap fun i => symbolAt? l b names (s.offset + i * l.symbolSize)

def codeSection? (b : Blob) (s : SectionHeader) : Option CodeSection := do
  guard (s.flags / executable % 2 = 1 ∧ s.type ≠ typeNoBits)
  let bytes ← b.range? s.offset s.size
  let address ← Address.ofNat? s.address
  return ⟨address, bytes⟩

def architecture? (l : Layout) (machine : Nat) : Option Architecture :=
  match machine with
  | 62 => some .x86_64
  | 3 => some .x86
  | 183 => some .arm64
  | 40 => some .arm
  | 243 => some (if l.wide then .riscv64 else .riscv32)
  | _ => none

def read? (b : Blob) : Option Program := do
  let l ← layout? b
  let h ← header? l b
  guard (h.programCount = 0 ∨ h.programStart + h.programCount * l.programSize ≤ b.size)
  let headers ← sectionHeaders? l b h
  let _ ← stringTable? b headers h.namesIndex
  let symbols ← symbols? l b headers
  guard (headers.all fun s => (s.type != typeRelocations && s.type != typeRelocationsWithAddend) || s.inBounds b)
  return ⟨architecture? l h.machine, headers.filterMap (codeSection? b), symbols⟩

end InstructionCoverage.Image.Elf

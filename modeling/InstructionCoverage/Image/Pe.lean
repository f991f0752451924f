import InstructionCoverage.Image.Program

namespace InstructionCoverage.Image.Pe

def containsCode : Nat := 0x20
def executable : Nat := 0x20000000

def field? (b : Blob) (offset width : Nat) : Option Nat :=
  b.number? .little offset width

structure FileHeader where
  start : Nat
  machine : Nat
  sectionCount : Nat
  optionalSize : Nat

def fileHeader? (b : Blob) : Option FileHeader := do
  let start ← field? b 0x3c 4
  guard ((← field? b start 4) = 0x4550)
  let _ ← b.slice? (start + 4) 20
  return {
    start := start
    machine := ← field? b (start + 4) 2
    sectionCount := ← field? b (start + 6) 2
    optionalSize := ← field? b (start + 20) 2 }

structure OptionalHeader where
  imageBase : Nat
  exports : Option Nat

def optionalHeader? (b : Blob) (start : Nat) : Option OptionalHeader := do
  let wide ← match ← field? b start 2 with
    | 0x10b => some false
    | 0x20b => some true
    | _ => none
  let fixed := if wide then 112 else 96
  let _ ← b.slice? start fixed
  let imageBase ← if wide then field? b (start + 24) 8 else field? b (start + 28) 4
  let count ← field? b (start + fixed - 4) 4
  guard (count ≤ 16)
  let directories := start + fixed
  guard (count = 0 ∨ (b.slice? directories (8 * count)).isSome)
  if count = 0 then return ⟨imageBase, none⟩
  let rva ← field? b directories 4
  let size ← field? b (directories + 4) 4
  return ⟨imageBase, if rva = 0 ∧ size = 0 then none else some rva⟩

structure SectionHeader where
  virtualSize : Nat
  rva : Nat
  rawSize : Nat
  rawStart : Nat
  flags : Nat

def sectionHeader? (b : Blob) (start : Nat) : Option SectionHeader := do
  let _ ← b.slice? start 40
  return {
    virtualSize := ← field? b (start + 8) 4
    rva := ← field? b (start + 12) 4
    rawSize := ← field? b (start + 16) 4
    rawStart := ← field? b (start + 20) 4
    flags := ← field? b (start + 36) 4 }

def fileOffset? (sections : List SectionHeader) (rva : Nat) : Option Nat :=
  (sections.find? fun s => s.rva ≤ rva && rva < s.rva + max s.virtualSize s.rawSize).map fun s =>
    s.rawStart + (rva - s.rva)

def codeSection? (b : Blob) (imageBase : Nat) (s : SectionHeader) : Option CodeSection := do
  guard (s.flags / containsCode % 2 = 1 ∨ s.flags / executable % 2 = 1)
  let size := if s.virtualSize = 0 then s.rawSize else min s.rawSize s.virtualSize
  let address ← Address.ofNat? (imageBase + s.rva)
  let bytes ← b.range? s.rawStart size
  return ⟨address, bytes⟩

structure ExportTables where
  functions : Nat
  functionCount : Nat
  names : Nat
  ordinals : Nat
  nameCount : Nat

def exportTables? (b : Blob) (sections : List SectionHeader) (rva : Nat) : Option ExportTables := do
  let start ← fileOffset? sections rva
  let _ ← b.slice? start 40
  let functionCount ← field? b (start + 20) 4
  let nameCount ← field? b (start + 24) 4
  guard (nameCount ≤ functionCount)
  let table (field count width : Nat) : Option Nat :=
    if count = 0 then some 0
    else do
      let offset ← fileOffset? sections (← field? b (start + field) 4)
      let _ ← b.slice? offset (count * width)
      return offset
  return {
    functions := ← table 28 functionCount 4
    functionCount := functionCount
    names := ← table 32 nameCount 4
    ordinals := ← table 36 nameCount 2
    nameCount := nameCount }

def exportAt? (b : Blob) (sections : List SectionHeader) (imageBase : Nat) (t : ExportTables) (index : Nat) :
    Option Symbol := do
  let name ← b.text? (← fileOffset? sections (← field? b (t.names + 4 * index) 4))
  let ordinal ← field? b (t.ordinals + 2 * index) 2
  guard (ordinal < t.functionCount)
  let rva ← field? b (t.functions + 4 * ordinal) 4
  guard (rva ≠ 0 ∧ name ≠ "")
  let address ← Address.ofNat? (imageBase + rva)
  return ⟨name, address, none⟩

def exports? (b : Blob) (sections : List SectionHeader) (h : OptionalHeader) : Option (List Symbol) :=
  match h.exports with
  | none => some []
  | some rva => do
    let t ← exportTables? b sections rva
    return (List.range t.nameCount).filterMap (exportAt? b sections h.imageBase t)

def architecture? : Nat → Option Architecture
  | 0x8664 => some .x86_64
  | 0x14c => some .x86
  | 0xaa64 => some .arm64
  | 0x1c0 => some .arm
  | _ => none

def read? (b : Blob) : Option Program := do
  let h ← fileHeader? b
  let optionalStart := h.start + 24
  let optional ← if h.optionalSize = 0 then some ⟨0, none⟩ else optionalHeader? b optionalStart
  guard (h.sectionCount ≤ b.size / 40)
  let sections ← (List.range h.sectionCount).mapM fun i =>
    sectionHeader? b (optionalStart + h.optionalSize + 40 * i)
  let symbols ← exports? b sections optional
  return ⟨architecture? h.machine, sections.filterMap (codeSection? b optional.imageBase), symbols⟩

end InstructionCoverage.Image.Pe

import InstructionCoverage.Listing

namespace InstructionCoverage

structure InstructionDecoder where
  length? : List UInt8 → Option Nat
  bounds : ∀ {bytes : List UInt8} {n : Nat}, length? bytes = some n → 0 < n ∧ n ≤ bytes.length

namespace Sweep

def run (d : InstructionDecoder) (bytes : List UInt8) : List Nat :=
  match _ : d.length? bytes with
  | none => []
  | some n => n :: run d (bytes.drop n)
termination_by bytes.length
decreasing_by
  rename_i h
  have := d.bounds h
  rw [List.length_drop]
  omega

def place (address : Address) : List Nat → List Instruction
  | [] => []
  | n :: lengths => ⟨address, n⟩ :: place (.wrap (address.value + n)) lengths

theorem run_pos {d : InstructionDecoder} {bytes : List UInt8} {n : Nat} (h : n ∈ run d bytes) : 0 < n := by
  fun_induction run d bytes with
  | case1 => simp at h
  | case2 bytes m hm ih =>
    rcases List.mem_cons.1 h with rfl | h
    · exact (d.bounds hm).1
    · exact ih h

theorem extent_run_pos {d : InstructionDecoder} {bytes : List UInt8} (h : run d bytes ≠ []) :
    0 < (run d bytes).foldr (· + ·) 0 := by
  cases hr : run d bytes with
  | nil => exact absurd hr h
  | cons n lengths =>
    have := run_pos (hr ▸ List.mem_cons_self : n ∈ run d bytes)
    rw [List.foldr_cons]
    omega

/-- The instructions of the bytes that stand `offset` behind `base`. A run starts at its own address, or at the last
one if that is past the address space. -/
def sweepFrom (d : InstructionDecoder) (base : Address) (offset : Nat) (bytes : List UInt8) : List Instruction :=
  match bytes with
  | [] => []
  | byte :: rest =>
    let lengths := run d (byte :: rest)
    if h : lengths = [] then sweepFrom d base (offset + 1) rest
    else
      let extent := lengths.foldr (· + ·) 0
      place (base.addClamped offset) lengths ++ sweepFrom d base (offset + extent) ((byte :: rest).drop extent)
termination_by bytes.length
decreasing_by
  · simp
  · have := extent_run_pos h
    rw [List.length_drop]
    simp only [List.length_cons]
    omega

def sweep (d : InstructionDecoder) (base : Address) (bytes : List UInt8) : List Instruction :=
  sweepFrom d base 0 bytes

end Sweep

end InstructionCoverage

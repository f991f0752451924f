import InstructionCoverage.Disassembly.Sweep
import Mathlib.Algebra.Ring.Nat

namespace InstructionCoverage.Sweep

def steps (d : InstructionDecoder) (offset : Nat) (bytes : List UInt8) : List (Nat × Nat) :=
  match bytes with
  | [] => []
  | byte :: rest =>
    match _ : d.length? (byte :: rest) with
    | none => steps d (offset + 1) rest
    | some n => (offset, n) :: steps d (offset + n) ((byte :: rest).drop n)
termination_by bytes.length
decreasing_by
  · simp
  · rename_i h
    have := d.bounds h
    rw [List.length_drop]
    simp only [List.length_cons] at this ⊢
    omega

def inRow (offset : Nat) : List Nat → List (Nat × Nat)
  | [] => []
  | n :: lengths => (offset, n) :: inRow (offset + n) lengths

def instructionAt (base : Address) (step : Nat × Nat) : Instruction :=
  ⟨base.addClamped step.1, step.2⟩

section Steps

variable {d : InstructionDecoder} {offset : Nat}

theorem steps_none {byte : UInt8} {rest : List UInt8} (h : d.length? (byte :: rest) = none) :
    steps d offset (byte :: rest) = steps d (offset + 1) rest := by
  rw [steps]
  split
  · rfl
  · rename_i n hn
    rw [h] at hn
    cases hn

theorem steps_some {bytes : List UInt8} {n : Nat} (h : d.length? bytes = some n) :
    steps d offset bytes = (offset, n) :: steps d (offset + n) (bytes.drop n) := by
  have hn := d.bounds h
  cases bytes with
  | nil =>
    rw [List.length_nil] at hn
    omega
  | cons byte rest =>
    rw [steps]
    split
    · rename_i hnone
      rw [h] at hnone
      cases hnone
    · rename_i m hm
      rw [h] at hm
      cases hm
      rfl

theorem run_eq_nil {bytes : List UInt8} (h : run d bytes = []) : d.length? bytes = none := by
  rw [run] at h
  split at h
  · assumption
  · cases h

theorem sum_run_le (d : InstructionDecoder) (bytes : List UInt8) : (run d bytes).sum ≤ bytes.length := by
  fun_induction run d bytes with
  | case1 => exact Nat.zero_le _
  | case2 bytes n hn ih =>
    have hb := d.bounds hn
    rw [List.length_drop] at ih
    rw [List.sum_cons]
    omega

theorem steps_run (d : InstructionDecoder) (offset : Nat) (bytes : List UInt8) :
    steps d offset bytes =
      inRow offset (run d bytes) ++ steps d (offset + (run d bytes).sum) (bytes.drop (run d bytes).sum) := by
  fun_induction run d bytes generalizing offset with
  | case1 => rfl
  | case2 bytes n hn ih =>
    rw [steps_some hn, ih, inRow, List.sum_cons, List.drop_drop, Nat.add_assoc]
    rfl

theorem steps_bounds {bytes : List UInt8} {step : Nat × Nat} (h : step ∈ steps d offset bytes) :
    offset ≤ step.1 ∧ 0 < step.2 ∧ step.1 + step.2 ≤ offset + bytes.length := by
  fun_induction steps d offset bytes with
  | case1 => cases h
  | case2 offset byte rest _ ih =>
    obtain ⟨hfrom, hpos, hto⟩ := ih h
    rw [List.length_cons]
    exact ⟨by omega, hpos, by omega⟩
  | case3 offset byte rest n hn ih =>
    have hb := d.bounds hn
    rcases List.mem_cons.1 h with rfl | h
    · exact ⟨Nat.le_refl _, hb.1, Nat.add_le_add_left hb.2 _⟩
    · obtain ⟨hfrom, hpos, hto⟩ := ih h
      rw [List.length_drop] at hto
      exact ⟨by omega, hpos, by omega⟩

theorem steps_disjoint (d : InstructionDecoder) (offset : Nat) (bytes : List UInt8) :
    (steps d offset bytes).Pairwise fun s t => s.1 + s.2 ≤ t.1 := by
  fun_induction steps d offset bytes with
  | case1 => exact .nil
  | case2 _ _ _ _ ih => exact ih
  | case3 offset byte rest n hn ih =>
    refine .cons ?_ ih
    intro t ht
    exact (steps_bounds ht).1

end Steps

theorem addClamped_value {base : Address} {offset : Nat} (h : base.value + offset < 0x10000000000000000) :
    (base.addClamped offset).value = base.value + offset := by
  simp only [Address.addClamped, Address.clamp]
  omega

theorem wrap_addClamped {base : Address} {offset n : Nat} (h : base.value + (offset + n) < 0x10000000000000000) :
    Address.wrap ((base.addClamped offset).value + n) = base.addClamped (offset + n) := by
  apply Address.ext
  rw [addClamped_value h, addClamped_value (by omega), Address.wrap]
  dsimp only
  omega

theorem place_inRow {base : Address} {offset : Nat} {lengths : List Nat} (hpos : ∀ n ∈ lengths, 0 < n)
    (h : base.value + (offset + lengths.sum) ≤ 0x10000000000000000) :
    place (base.addClamped offset) lengths = (inRow offset lengths).map (instructionAt base) := by
  induction lengths generalizing offset with
  | nil => rfl
  | cons n lengths ih =>
    obtain ⟨hn, hlengths⟩ := List.forall_mem_cons.1 hpos
    rw [List.sum_cons] at h
    cases lengths with
    | nil => rfl
    | cons m lengths =>
      have hm : 0 < m := hlengths m List.mem_cons_self
      have hnext : base.value + (offset + n) < 0x10000000000000000 := by
        rw [List.sum_cons] at h
        omega
      rw [place, wrap_addClamped hnext, ih hlengths (by omega)]
      rfl

theorem sweepFrom_eq_steps (d : InstructionDecoder) (base : Address) (offset : Nat) (bytes : List UInt8)
    (h : base.value + (offset + bytes.length) ≤ 0x10000000000000000) :
    sweepFrom d base offset bytes = (steps d offset bytes).map (instructionAt base) := by
  fun_induction sweepFrom d base offset bytes with
  | case1 => rw [steps]; rfl
  | case2 offset byte rest lengths hnil ih =>
    rw [List.length_cons] at h
    rw [steps_none (run_eq_nil hnil)]
    exact ih (by omega)
  | case3 offset byte rest lengths hne extent ih =>
    have hle : extent ≤ (byte :: rest).length := sum_run_le d (byte :: rest)
    have hrest : base.value + (offset + extent + ((byte :: rest).drop extent).length) ≤ 0x10000000000000000 := by
      rw [List.length_drop]
      omega
    have hfits : base.value + (offset + extent) ≤ 0x10000000000000000 := by omega
    rw [steps_run, List.map_append, ← place_inRow (fun n => run_pos) hfits, ih hrest]
    rfl

theorem sweep_eq_steps (d : InstructionDecoder) {base : Address} {bytes : List UInt8}
    (h : base.value + bytes.length ≤ 0x10000000000000000) :
    sweep d base bytes = (steps d 0 bytes).map (instructionAt base) :=
  sweepFrom_eq_steps d base 0 bytes (by rwa [Nat.zero_add])

theorem instructionAt_bounds (base : Address) {step : Nat × Nat} (hpos : 0 < step.2)
    (h : base.value + (step.1 + step.2) ≤ 0x10000000000000000) :
    (instructionAt base step).address.value = base.value + step.1 ∧
      (instructionAt base step).last.value = base.value + step.1 + step.2 - 1 := by
  have hfirst : (base.addClamped step.1).value = base.value + step.1 := addClamped_value (by omega)
  have hlast : ((base.addClamped step.1).addClamped (step.2 - 1)).value = base.value + step.1 + (step.2 - 1) := by
    rw [addClamped_value (by rw [hfirst]; omega), hfirst]
  refine ⟨hfirst, hlast.trans ?_⟩
  omega

theorem sweep_disjoint (d : InstructionDecoder) {base : Address} {bytes : List UInt8}
    (h : base.value + bytes.length ≤ 0x10000000000000000) :
    (sweep d base bytes).Pairwise fun i j => i.last < j.address := by
  rw [sweep_eq_steps d h, List.pairwise_map]
  refine (steps_disjoint d 0 bytes).imp_of_mem ?_
  intro s t hs ht hst
  obtain ⟨-, hspos, hsto⟩ := steps_bounds hs
  obtain ⟨-, htpos, htto⟩ := steps_bounds ht
  have hlast := (instructionAt_bounds base hspos (by omega)).2
  have hnext := (instructionAt_bounds base htpos (by omega)).1
  rw [Address.lt_def, hlast, hnext]
  omega

end InstructionCoverage.Sweep

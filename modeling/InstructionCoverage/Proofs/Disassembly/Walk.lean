import InstructionCoverage.Disassembly
import InstructionCoverage.Proofs.Disassembly.Sweep
import InstructionCoverage.Proofs.Listing

namespace InstructionCoverage

namespace Sweep

variable {d : InstructionDecoder} {code : List UInt8} {o stop : Nat} {emitted : List (Nat × Nat)} {skipped : List Nat}

inductive Walk (d : InstructionDecoder) (code : List UInt8) : Nat → List (Nat × Nat) → List Nat → Nat → Prop where
  | done {o : Nat} : Walk d code o [] [] o
  | emit {o n stop : Nat} {emitted : List (Nat × Nat)} {skipped : List Nat} (decoded : d.length? (code.drop o) = some n)
      (rest : Walk d code (o + n) emitted skipped stop) : Walk d code o ((o, n) :: emitted) skipped stop
  | skip {o stop : Nat} {emitted : List (Nat × Nat)} {skipped : List Nat} (inside : o < code.length)
      (undecoded : d.length? (code.drop o) = none) (rest : Walk d code (o + 1) emitted skipped stop) :
      Walk d code o emitted (o :: skipped) stop

theorem steps_walk (d : InstructionDecoder) {code bytes : List UInt8} {o : Nat} (h : bytes = code.drop o)
    (ho : o ≤ code.length) : ∃ skipped, Walk d code o (steps d o bytes) skipped code.length := by
  fun_induction steps d o bytes with
  | case1 o =>
    have hend : code.length ≤ o := List.drop_eq_nil_iff.1 h.symm
    obtain rfl : o = code.length := Nat.le_antisymm ho hend
    exact ⟨[], .done⟩
  | case2 o byte rest hnone ih =>
    have hlt : o < code.length := by
      have hlength := congrArg List.length h
      rw [List.length_cons, List.length_drop] at hlength
      omega
    have hrest : rest = code.drop (o + 1) := by rw [← List.drop_drop, ← h, List.drop_one, List.tail_cons]
    obtain ⟨skipped, hwalk⟩ := ih hrest hlt
    exact ⟨o :: skipped, .skip hlt (h ▸ hnone) hwalk⟩
  | case3 o byte rest n hn ih =>
    have hbound := (d.bounds hn).2
    rw [h, List.length_drop] at hbound
    obtain ⟨skipped, hwalk⟩ := ih (by rw [h, List.drop_drop]) (by omega)
    exact ⟨skipped, .emit (h ▸ hn) hwalk⟩

theorem Walk.forward (h : Walk d code o emitted skipped stop) : o ≤ stop ∧ ∀ step ∈ emitted, o ≤ step.1 := by
  induction h with
  | done => simp
  | @emit o n stop emitted skipped decoded rest ih =>
    obtain ⟨hstop, hsteps⟩ := ih
    refine ⟨by omega, ?_⟩
    intro step hstep
    rcases List.mem_cons.1 hstep with rfl | hstep
    · exact Nat.le_refl _
    · have := hsteps step hstep
      omega
  | skip inside undecoded rest ih =>
    obtain ⟨hstop, hsteps⟩ := ih
    refine ⟨by omega, ?_⟩
    intro step hstep
    have := hsteps step hstep
    omega

theorem Walk.mem_skipped_iff (h : Walk d code o emitted skipped stop) (k : Nat) :
    k ∈ skipped ↔ o ≤ k ∧ k < stop ∧ ∀ step ∈ emitted, ¬ (step.1 ≤ k ∧ k < step.1 + step.2) := by
  induction h with
  | done =>
    simp only [List.not_mem_nil, false_iff]
    omega
  | @emit o n stop emitted skipped decoded rest ih =>
    rw [ih, List.forall_mem_cons]
    constructor
    · rintro ⟨hfrom, hto, hsteps⟩
      exact ⟨by omega, hto, by dsimp only; omega, hsteps⟩
    · rintro ⟨hfrom, hto, hfirst, hsteps⟩
      dsimp only at hfirst
      exact ⟨by omega, hto, hsteps⟩
  | @skip o stop emitted skipped inside undecoded rest ih =>
    obtain ⟨hstop, hsteps⟩ := rest.forward
    rw [List.mem_cons, ih]
    constructor
    · rintro (rfl | ⟨hfrom, hto, hnone⟩)
      · refine ⟨Nat.le_refl _, hstop, ?_⟩
        intro step hstep
        have := hsteps step hstep
        omega
      · exact ⟨by omega, hto, hnone⟩
    · rintro ⟨hfrom, hto, hnone⟩
      by_cases hk : k = o
      · exact .inl hk
      · exact .inr ⟨by omega, hto, hnone⟩

theorem Walk.undecoded (h : Walk d code o emitted skipped stop) {k : Nat} (hk : k ∈ skipped) :
    d.length? (code.drop k) = none := by
  induction h with
  | done => cases hk
  | emit decoded rest ih => exact ih hk
  | skip inside undecoded rest ih =>
    rcases List.mem_cons.1 hk with rfl | hk
    · exact undecoded
    · exact ih hk

theorem sweep_map (d : InstructionDecoder) {base : Address} (h : base.value + code.length ≤ 0x10000000000000000) :
    (sweep d base code).map (fun i => (i.address.value, i.last.value, i.length)) =
      (steps d 0 code).map fun step => (base.value + step.1, base.value + step.1 + step.2 - 1, step.2) := by
  rw [sweep_eq_steps d h, List.map_map]
  apply List.map_congr_left
  intro step hstep
  obtain ⟨-, hpos, hto⟩ := steps_bounds hstep
  obtain ⟨hfirst, hlast⟩ := instructionAt_bounds base hpos (by omega)
  simp only [Function.comp_def, hfirst, hlast]
  rfl

end Sweep

namespace Disassembly

theorem sorted_sweep (d : InstructionDecoder) {base : Address} {bytes : List UInt8}
    (h : base.value + bytes.length ≤ 0x10000000000000000) :
    (ofBlob d bytes base).instructions = Sweep.sweep d base bytes := by
  apply InstructionListing.sorted_of_ascending
  refine (Sweep.sweep_disjoint d h).imp ?_
  intro i j hij
  have hi := i.address_le_last
  rw [Address.le_def] at hi
  rw [Address.lt_def] at hij ⊢
  omega

/-- Raw code is listed as the walk from its first byte to its end finds it: sorting changes nothing, the instructions
ascend without overlaps within the code, and the bytes outside them are those that the walk skipped. -/
theorem ofBlob_walk (d : InstructionDecoder) {base : Address} {code : List UInt8}
    (h : base.value + code.length ≤ 0x10000000000000000) :
    let listed := (ofBlob d code base).instructions
    listed = Sweep.sweep d base code ∧
      ∃ emitted skipped, Sweep.Walk d code 0 emitted skipped code.length ∧
        listed.map (fun i => (i.address.value, i.last.value, i.length)) =
          emitted.map (fun step => (base.value + step.1, base.value + step.1 + step.2 - 1, step.2)) ∧
        listed.Pairwise (fun i j => i.last < j.address) ∧
        (∀ i ∈ listed, base ≤ i.address ∧ i.last.value < base.value + code.length) ∧
        (∀ o, o ∈ skipped ↔ o < code.length ∧
          ∀ i ∈ listed, ¬ (i.address.value ≤ base.value + o ∧ base.value + o ≤ i.last.value)) ∧
        ∀ o ∈ skipped, d.length? (code.drop o) = none := by
  intro listed
  have hlisted : listed = Sweep.sweep d base code := sorted_sweep d h
  obtain ⟨skipped, hwalk⟩ : ∃ skipped, Sweep.Walk d code 0 (Sweep.steps d 0 code) skipped code.length :=
    Sweep.steps_walk d List.drop_zero.symm (Nat.zero_le _)
  have hmap := Sweep.sweep_map d h
  rw [← hlisted] at hmap
  have hall (p : Nat × Nat × Nat → Prop) : (∀ i ∈ listed, p (i.address.value, i.last.value, i.length)) ↔
      ∀ step ∈ Sweep.steps d 0 code, p (base.value + step.1, base.value + step.1 + step.2 - 1, step.2) := by
    rw [← List.forall_mem_map, hmap, List.forall_mem_map]
  refine ⟨hlisted, _, skipped, hwalk, hmap, hlisted ▸ Sweep.sweep_disjoint d h, ?_, ?_, fun o ho => hwalk.undecoded ho⟩
  · apply (hall fun t => base.value ≤ t.1 ∧ t.2.1 < base.value + code.length).2
    intro step hstep
    obtain ⟨-, hpos, hto⟩ := Sweep.steps_bounds hstep
    dsimp only
    omega
  · intro o
    have hcovered := hall fun t => ¬ (t.1 ≤ base.value + o ∧ base.value + o ≤ t.2.1)
    rw [hwalk.mem_skipped_iff, hcovered]
    simp only [Nat.zero_le, true_and]
    apply and_congr_right
    intro _
    apply forall₂_congr
    intro step hstep
    obtain ⟨-, hpos, hto⟩ := Sweep.steps_bounds hstep
    omega

def lastBytes : List UInt8 := [0x06, 0xb8, 1, 0, 0, 0, 0x06, 0xc3]

theorem ofBlob_walk_top :
    let base := Address.clamp 0xfffffffffffffff8
    let listed := (ofBlob Architecture.x86_64.decoder lastBytes base).instructions
    base.value + lastBytes.length ≤ 0x10000000000000000 ∧ listed = [⟨.clamp 0xfffffffffffffff9, 5⟩, ⟨.top, 1⟩] ∧
      ∃ emitted skipped, Sweep.Walk Architecture.x86_64.decoder lastBytes 0 emitted skipped 8 ∧
        ∀ o, o ∈ skipped ↔ o = 0 ∨ o = 6 := by
  intro base listed
  have hbase : base.value + lastBytes.length ≤ 0x10000000000000000 := by decide
  obtain ⟨hlisted, emitted, skipped, hwalk, -, -, -, hskipped, -⟩ := ofBlob_walk Architecture.x86_64.decoder hbase
  have hswept : Sweep.sweep Architecture.x86_64.decoder base lastBytes = [⟨.clamp 0xfffffffffffffff9, 5⟩, ⟨.top, 1⟩] := by
    decide +kernel
  rw [hswept] at hlisted
  refine ⟨hbase, hlisted, emitted, skipped, hwalk, ?_⟩
  intro o
  rw [hskipped, show (ofBlob _ _ base).instructions = _ from hlisted]
  simp only [List.forall_mem_cons, List.not_mem_nil, false_imp_iff, implies_true, and_true, Instruction.last,
    Address.addClamped, Address.clamp, Address.top, base, lastBytes, List.length_cons, List.length_nil]
  omega

end Disassembly

end InstructionCoverage

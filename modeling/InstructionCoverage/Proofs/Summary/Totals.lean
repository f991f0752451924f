import InstructionCoverage.Proofs.Listing
import InstructionCoverage.Summary
import Mathlib.Algebra.BigOperators.Group.List.Basic
import Mathlib.Algebra.Ring.Nat

/-!
What the totals of a summary count. They add up the rows, so they have an instruction as often as there are regions it
starts in.
-/

namespace InstructionCoverage

section Sums

variable {α β : Type}

theorem countP_eq_sum (p : α → Bool) (l : List α) : l.countP p = (l.map fun a => if p a then 1 else 0).sum := by
  induction l with
  | nil => rfl
  | cons a l ih => rw [List.countP_cons, List.map_cons, List.sum_cons, ih, Nat.add_comm]

theorem sum_countP_comm (p : α → β → Bool) (as : List α) (bs : List β) :
    (as.map fun a => bs.countP (p a)).sum = (bs.map fun b => as.countP fun a => p a b).sum := by
  induction as with
  | nil => simp
  | cons a as ih =>
    simp only [List.map_cons, List.sum_cons, List.countP_cons, List.sum_map_add]
    rw [ih, countP_eq_sum (p a), Nat.add_comm]

theorem sum_map_eq (f : α → Nat) (l : List α) :
    (l.map f).sum = (l.filter fun a => 0 < f a).length + (l.map fun a => f a - 1).sum := by
  rw [← List.countP_eq_length_filter, countP_eq_sum, ← List.sum_map_add]
  congr 1
  apply List.map_congr_left
  intro a _
  by_cases h : 0 < f a
  · rw [if_pos (decide_eq_true h)]
    omega
  · rw [if_neg (by simpa using h)]
    omega

end Sums

namespace InstructionListing

variable {l : InstructionListing} {is : List Instruction}

def regionCount (l : InstructionListing) (i : Instruction) : Nat :=
  l.regions.countP fun region => region.range.contains i.address

def inRegions (l : InstructionListing) (is : List Instruction) : List Instruction :=
  is.filter fun i => 0 < l.regionCount i

def repeats (l : InstructionListing) (is : List Instruction) : Nat :=
  (is.map fun i => l.regionCount i - 1).sum

def hit (l : InstructionListing) (hits : RangeSet) : List Instruction :=
  l.instructions.filter fun i => i.span ∈ hits

theorem repeats_eq_zero : l.repeats is = 0 ↔ ∀ i ∈ is, l.regionCount i ≤ 1 := by
  rw [repeats, List.sum_eq_zero_iff_forall_eq_nat, List.forall_mem_map]
  simp only [Nat.sub_eq_zero_iff_le]

theorem countP_contains_le_one {regions : List Region}
    (h : regions.Pairwise fun r s => r.range.overlaps s.range = false) (a : Address) :
    (regions.countP fun region => region.range.contains a) ≤ 1 := by
  induction h with
  | nil => exact Nat.zero_le 1
  | @cons r regions hr hregions ih =>
    by_cases hin : r.range.contains a = true
    · have hnone : regions.countP (fun region => region.range.contains a) = 0 := by
        rw [List.countP_eq_zero]
        intro s hs hcontains
        have hapart := hr s hs
        simp only [AddressRange.overlaps, AddressRange.contains, Bool.and_eq_true, Bool.and_eq_false_imp,
          decide_eq_true_eq, decide_eq_false_iff_not, Address.le_def] at hin hcontains hapart
        omega
      simp only [List.countP_cons, if_pos hin, hnone, Nat.zero_add, Nat.le_refl]
    · rw [List.countP_cons, if_neg hin]
      exact ih

theorem inRegions_sublist : (l.inRegions is).Sublist is :=
  List.filter_sublist

theorem length_hit_le (l : InstructionListing) (hits : RangeSet) : (l.hit hits).length ≤ hits.size := by
  -- A span begins at the address of its instruction, and no two of these have one address.
  have hnodup : ((l.hit hits).map Instruction.span).Nodup := by
    rw [List.Nodup, List.pairwise_map]
    refine (l.ascending.filter _).imp ?_
    intro i j hij hspan
    have haddress : i.address = j.address := congrArg AddressRange.min hspan
    rw [haddress, Address.lt_def] at hij
    omega
  have hsubset : (l.hit hits).map Instruction.span ⊆ hits.toList := by
    intro r hr
    obtain ⟨i, hi, rfl⟩ := List.mem_map.1 hr
    exact of_decide_eq_true (List.mem_filter.1 hi).2
  rw [← List.length_map (f := Instruction.span)]
  exact hnodup.length_le_of_subset hsubset

end InstructionListing

namespace Summary

open InstructionListing

theorem rowOf_instructions (l : InstructionListing) (hits : RangeSet) (region : Region) :
    (rowOf l.toListing hits region).instructions =
      l.instructions.countP fun i => region.range.contains i.address := by
  rw [List.countP_eq_length_filter, ← instructionsIn_eq]
  rfl

theorem rowOf_hitInstructions (l : InstructionListing) (hits : RangeSet) (region : Region) :
    (rowOf l.toListing hits region).hitInstructions =
      (l.hit hits).countP fun i => region.range.contains i.address := by
  change ((l.toListing.instructionsIn region.range).filter fun i => decide (i.span ∈ hits)).length = _
  rw [instructionsIn_eq, List.filter_filter, hit, List.countP_filter, List.countP_eq_length_filter]
  simp only [Bool.and_comm]

theorem sum_rows (l : Listing) (hits : RangeSet) (f : Row → Nat) :
    ((ofHits l hits).rows.map f).sum = (l.regions.map fun region => f (rowOf l hits region)).sum := by
  have hperm := (List.mergeSort_perm (l.regions.map (rowOf l hits)) rowOrder).map f
  rw [List.map_map] at hperm
  exact hperm.sum_nat

theorem ofHits_instructions (l : InstructionListing) (hits : RangeSet) :
    (ofHits l.toListing hits).instructions = (l.instructions.map l.regionCount).sum := by
  have h := sum_rows l.toListing hits Row.instructions
  simp only [rowOf_instructions] at h
  exact h.trans (sum_countP_comm _ _ _)

theorem ofHits_hitInstructions (l : InstructionListing) (hits : RangeSet) :
    (ofHits l.toListing hits).hitInstructions = ((l.hit hits).map l.regionCount).sum := by
  have h := sum_rows l.toListing hits Row.hitInstructions
  simp only [rowOf_hitInstructions] at h
  exact h.trans (sum_countP_comm _ _ _)

/-- The totals have an instruction once for each region it starts in. They are those of the distinct instructions
exactly where none of these starts in two regions, and then they stay within the listing and within the hits. -/
theorem ofHits_totals (l : InstructionListing) (hits : RangeSet) :
    let s := ofHits l.toListing hits
    let listed := l.inRegions l.instructions
    let hit := l.inRegions (l.hit hits)
    (listed.length ≤ l.size ∧ s.instructions = listed.length + l.repeats l.instructions ∧
        (s.instructions = listed.length ↔ ∀ i ∈ l.instructions, l.regionCount i ≤ 1)) ∧
      (hit.length ≤ s.hitRanges ∧ s.hitInstructions = hit.length + l.repeats (l.hit hits) ∧
        (s.hitInstructions = hit.length ↔ ∀ i ∈ l.hit hits, l.regionCount i ≤ 1)) ∧
      s.hitRanges = hits.size ∧ s.ratio = Binary64.ofQuotient s.hitInstructions s.instructions ∧
      ((∀ i ∈ l.instructions, l.regionCount i ≤ 1) →
        s.instructions ≤ l.size ∧ s.hitInstructions ≤ s.hitRanges ∧
          s.ratio = Binary64.ofQuotient hit.length listed.length) := by
  intro s listed hit
  have hlisted : listed.length ≤ l.size := inRegions_sublist.length_le
  have hhit : hit.length ≤ s.hitRanges := Nat.le_trans inRegions_sublist.length_le (l.length_hit_le hits)
  have hinstructions : s.instructions = listed.length + l.repeats l.instructions :=
    (ofHits_instructions l hits).trans (sum_map_eq _ _)
  have hhitInstructions : s.hitInstructions = hit.length + l.repeats (l.hit hits) :=
    (ofHits_hitInstructions l hits).trans (sum_map_eq _ _)
  have honce : s.instructions = listed.length ↔ ∀ i ∈ l.instructions, l.regionCount i ≤ 1 := by
    rw [hinstructions, Nat.add_eq_left, repeats_eq_zero]
  have hhitOnce : s.hitInstructions = hit.length ↔ ∀ i ∈ l.hit hits, l.regionCount i ≤ 1 := by
    rw [hhitInstructions, Nat.add_eq_left, repeats_eq_zero]
  refine ⟨⟨hlisted, hinstructions, honce⟩, ⟨hhit, hhitInstructions, hhitOnce⟩, rfl, rfl, fun hone => ?_⟩
  have hequal := honce.2 hone
  have hhitEqual := hhitOnce.2 fun i hi => hone i (List.mem_filter.1 hi).1
  refine ⟨hequal ▸ hlisted, hhitEqual ▸ hhit, ?_⟩
  change Binary64.ofQuotient s.hitInstructions s.instructions = _
  rw [hequal, hhitEqual]

def firstFunction (name : String) : Region :=
  ⟨name, ⟨.clamp 0x10, .clamp 0x13, by decide⟩⟩

def secondFunction : Region :=
  ⟨"g", ⟨.clamp 0x14, .clamp 0x15, by decide⟩⟩

def functions (regions : List Region) : InstructionListing :=
  (InstructionListing.ofList [⟨.clamp 0x10, 4⟩, ⟨.clamp 0x14, 2⟩]).withRegions regions

def functionHits : RangeSet :=
  .ofList [(firstFunction "f").range, .single (.clamp 0x900)]

theorem functions_instructions (regions : List Region) :
    (functions regions).instructions = [⟨.clamp 0x10, 4⟩, ⟨.clamp 0x14, 2⟩] :=
  sorted_of_ascending (by decide)

theorem functions_regionCount (regions : List Region) (h : regions.Pairwise fun r s => regionOrder r s = true) :
    (functions regions).regionCount = fun i => regions.countP fun region => region.range.contains i.address := by
  funext i
  rw [regionCount, functions, withRegions, List.mergeSort_of_pairwise h]

theorem ofHits_totals_apart :
    let l := functions [firstFunction "f", secondFunction]
    let s := ofHits l.toListing functionHits
    (∀ i ∈ l.instructions, l.regionCount i ≤ 1) ∧ s.instructions ≤ l.size ∧ s.hitInstructions ≤ s.hitRanges ∧
      s.ratio = Binary64.ofQuotient 1 2 := by
  intro l s
  have hcount := functions_regionCount [firstFunction "f", secondFunction] (by decide)
  have hone : ∀ i ∈ l.instructions, l.regionCount i ≤ 1 := by
    intro i _
    rw [hcount]
    exact countP_contains_le_one (by decide) i.address
  have hlisted : (l.inRegions l.instructions).length = 2 := by
    rw [inRegions, hcount, functions_instructions]
    decide
  have hhit : (l.inRegions (l.hit functionHits)).length = 1 := by
    rw [inRegions, hcount, hit, functions_instructions]
    decide
  obtain ⟨hsize, hranges, hratio⟩ := (ofHits_totals l functionHits).2.2.2.2 hone
  rw [hlisted, hhit] at hratio
  exact ⟨hone, hsize, hranges, hratio⟩

/-- Two names for one function count its instruction twice. -/
theorem aliases_count_twice :
    let l := functions [firstFunction "f", firstFunction "f_alias", secondFunction]
    let hits := RangeSet.ofList [(firstFunction "f").range]
    let s := ofHits l.toListing hits
    l.size < s.instructions ∧ s.hitRanges < s.hitInstructions ∧
      s.ratio ≠ Binary64.ofQuotient (l.inRegions (l.hit hits)).length (l.inRegions l.instructions).length := by
  intro l hits s
  have hcount := functions_regionCount [firstFunction "f", firstFunction "f_alias", secondFunction] (by decide)
  have hlisted : l.instructions = [⟨.clamp 0x10, 4⟩, ⟨.clamp 0x14, 2⟩] := functions_instructions _
  have hinstructions : s.instructions = 3 := by
    rw [ofHits_instructions, hcount, hlisted]
    decide
  have hhitInstructions : s.hitInstructions = 2 := by
    rw [ofHits_hitInstructions, hcount, hit, hlisted]
    decide
  have hratio : s.ratio = Binary64.ofQuotient 2 3 := by
    change Binary64.ofQuotient s.hitInstructions s.instructions = _
    rw [hhitInstructions, hinstructions]
  refine ⟨?_, ?_, ?_⟩
  · rw [hinstructions, size, hlisted]
    decide
  · rw [hhitInstructions]
    decide
  · rw [hratio, inRegions, inRegions, hcount, hit, hlisted]
    decide

end Summary

end InstructionCoverage

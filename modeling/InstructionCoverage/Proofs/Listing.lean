import InstructionCoverage.Model.Alignment
import InstructionCoverage.Proofs.Sorting

namespace InstructionCoverage

section Prefix

variable {α : Type} {p : α → Bool} {l : List α}

theorem filter_eq_nil_of_head {a : α} (h : (a :: l).Pairwise fun x y => p y = true → p x = true) (ha : ¬ p a = true) :
    l.filter p = [] := by
  rw [List.filter_eq_nil_iff]
  intro b hb hpb
  exact ha ((List.pairwise_cons.1 h).1 b hb hpb)

theorem takeWhile_eq_filter (h : l.Pairwise fun x y => p y = true → p x = true) : l.takeWhile p = l.filter p := by
  induction l with
  | nil => rfl
  | cons a l ih =>
    by_cases ha : p a = true
    · rw [List.takeWhile_cons_of_pos ha, List.filter_cons_of_pos ha, ih (List.pairwise_cons.1 h).2]
    · rw [List.takeWhile_cons_of_neg ha, List.filter_cons_of_neg ha, filter_eq_nil_of_head h ha]

theorem dropWhile_eq_filter (h : l.Pairwise fun x y => p y = true → p x = true) :
    l.dropWhile p = l.filter fun a => !p a := by
  induction l with
  | nil => rfl
  | cons a l ih =>
    by_cases ha : p a = true
    · rw [List.dropWhile_cons_of_pos ha, List.filter_cons_of_neg (by simp [ha]), ih (List.pairwise_cons.1 h).2]
    · rw [List.dropWhile_cons_of_neg ha, List.filter_cons_of_pos (by simp [ha])]
      have hnil := List.filter_eq_nil_iff.1 (filter_eq_nil_of_head h ha)
      rw [List.filter_eq_self.2]
      intro b hb
      simpa using hnil b hb

end Prefix

namespace InstructionListing

theorem sorted_of_ascending {l : List Instruction} (h : l.Pairwise fun a b => a.address < b.address) :
    sorted l = l := by
  have hsort : l.mergeSort byAddress = l := by
    apply List.mergeSort_of_pairwise
    refine h.imp ?_
    intro a b hab
    rw [Address.lt_def] at hab
    simp only [byAddress, decide_eq_true_eq, Address.le_def]
    omega
  rw [sorted, hsort]
  apply eraseRepsBy_eq_self
  refine h.imp ?_
  intro a b hab
  refine decide_eq_false fun he => ?_
  rw [he, Address.lt_def] at hab
  omega

theorem pairwise_before (l : InstructionListing) (start : Address) :
    l.instructions.Pairwise fun i j => decide (j.address < start) = true → decide (i.address < start) = true := by
  refine l.ascending.imp ?_
  intro i j hij
  simp only [decide_eq_true_eq, Address.lt_def] at *
  omega

theorem instructionsFrom_eq (l : InstructionListing) (start : Address) :
    l.instructionsFrom start = l.instructions.filter fun i => start ≤ i.address := by
  rw [instructionsFrom, dropWhile_eq_filter (l.pairwise_before start)]
  apply List.filter_congr
  intro i _
  simp only [Address.lt_def, Address.le_def, ← decide_not, Nat.not_lt]

end InstructionListing

def Listing.Yields (l : Listing) (is : List Instruction) : Prop :=
  ∀ start, l.instructionsFrom start = is.filter fun i => start ≤ i.address

namespace Listing

variable {l : Listing} {is : List Instruction} {r : AddressRange} {i : Instruction}

theorem Yields.within (h : l.Yields is) (hi : i ∈ l.instructionsWithin r) :
    i ∈ is ∧ r.min ≤ i.address ∧ i.last ≤ r.max := by
  rw [instructionsWithin, h] at hi
  have hlisted := (List.takeWhile_sublist _).subset hi
  have hlast := List.all_eq_true.1 List.all_takeWhile i hi
  simp only [List.mem_filter, decide_eq_true_eq] at hlisted hlast
  exact ⟨hlisted.1, hlisted.2, hlast⟩

theorem Yields.mem_within (h : l.Yields is) (hends : is.Pairwise fun i j => i.last ≤ j.last) :
    i ∈ l.instructionsWithin r ↔ i ∈ is ∧ r.min ≤ i.address ∧ i.last ≤ r.max := by
  have hprefix : (is.filter fun i => decide (r.min ≤ i.address)).Pairwise
      fun i j => decide (j.last ≤ r.max) = true → decide (i.last ≤ r.max) = true := by
    refine (hends.filter _).imp ?_
    intro i j hij
    simp only [decide_eq_true_eq, Address.le_def] at *
    omega
  rw [instructionsWithin, h, takeWhile_eq_filter hprefix]
  simp only [List.mem_filter, decide_eq_true_eq, and_assoc]

theorem Yields.instructionsIn_eq (h : l.Yields is) (hascending : is.Pairwise fun i j => i.address ≤ j.address) :
    l.instructionsIn r = is.filter fun i => r.contains i.address := by
  have hprefix : (is.filter fun i => decide (r.min ≤ i.address)).Pairwise
      fun i j => decide (j.address ≤ r.max) = true → decide (i.address ≤ r.max) = true := by
    refine (hascending.filter _).imp ?_
    intro i j hij
    simp only [decide_eq_true_eq, Address.le_def] at *
    omega
  rw [instructionsIn, h, takeWhile_eq_filter hprefix, List.filter_filter]
  apply List.filter_congr
  intro i _
  rw [AddressRange.contains, Bool.and_comm]

end Listing

namespace InstructionListing

theorem toListing_yields (l : InstructionListing) : l.toListing.Yields l.instructions :=
  l.instructionsFrom_eq

theorem instructionsIn_eq (l : InstructionListing) (r : AddressRange) :
    l.toListing.instructionsIn r = l.instructions.filter fun i => r.contains i.address := by
  apply l.toListing_yields.instructionsIn_eq
  refine l.ascending.imp ?_
  intro i j hij
  rw [Address.lt_def] at hij
  rw [Address.le_def]
  omega

theorem mem_instructionsWithin {l : InstructionListing}
    (h : l.instructions.Pairwise fun i j => i.last < j.address) {r : AddressRange} {i : Instruction} :
    i ∈ l.toListing.instructionsWithin r ↔ i ∈ l.instructions ∧ r.min ≤ i.address ∧ i.last ≤ r.max := by
  apply l.toListing_yields.mem_within
  refine h.imp ?_
  intro i j hij
  have hj := j.address_le_last
  rw [Address.lt_def] at hij
  rw [Address.le_def] at hj ⊢
  omega

end InstructionListing

namespace Alignment

theorem mem_hitsOf {l : Listing} {ranges : List AddressRange} {r : AddressRange} :
    r ∈ hitsOf l ranges ↔ ∃ range ∈ ranges, ∃ i ∈ l.instructionsWithin range, i.span = r := by
  simp only [hitsOf, RangeSet.mem_ofList, spans, List.mem_flatMap, List.mem_map]

end Alignment

end InstructionCoverage

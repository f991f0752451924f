import InstructionCoverage.Address.Range
import InstructionCoverage.Repeats

namespace InstructionCoverage

structure Instruction where
  address : Address
  length : Nat
  deriving DecidableEq

namespace Instruction

def last (i : Instruction) : Address :=
  i.address.addClamped (i.length - 1)

theorem address_le_last (i : Instruction) : i.address ≤ i.last := by
  have h := i.address.value_lt
  simp only [last, Address.addClamped, Address.clamp, Address.le_def]
  omega

def span (i : Instruction) : AddressRange :=
  ⟨i.address, i.last, i.address_le_last⟩

end Instruction

structure Region where
  name : String
  range : AddressRange
  deriving DecidableEq

structure Listing where
  instructionsFrom : Address → List Instruction
  regions : List Region

def Listing.instructionsIn (l : Listing) (r : AddressRange) : List Instruction :=
  (l.instructionsFrom r.min).takeWhile fun i => i.address ≤ r.max

structure InstructionListing where
  instructions : List Instruction
  regions : List Region
  ascending : instructions.Pairwise fun i j => i.address < j.address

namespace InstructionListing

def byAddress (i j : Instruction) : Bool :=
  i.address ≤ j.address

def sorted (l : List Instruction) : List Instruction :=
  (l.mergeSort byAddress).eraseRepsBy fun i j => i.address = j.address

theorem byAddress_trans (i j k : Instruction) (hij : byAddress i j = true) (hjk : byAddress j k = true) :
    byAddress i k = true := by
  simp only [byAddress, decide_eq_true_eq, Address.le_def] at *
  omega

theorem byAddress_total (i j : Instruction) : (byAddress i j || byAddress j i) = true := by
  simp only [byAddress, Bool.or_eq_true, decide_eq_true_eq, Address.le_def]
  omega

theorem pairwise_sorted (l : List Instruction) : (sorted l).Pairwise fun i j => i.address < j.address := by
  apply pairwise_eraseRepsBy _ _ (List.pairwise_mergeSort byAddress_trans byAddress_total l)
  · intro i j k hij hjk
    simp only [byAddress, decide_eq_true_eq, Address.le_def, Address.lt_def] at *
    omega
  · intro i j hij hne
    have hvalue : i.address.value ≠ j.address.value := fun he => of_decide_eq_false hne (Address.ext he)
    simp only [byAddress, decide_eq_true_eq, Address.le_def, Address.lt_def] at *
    omega

def ofList (l : List Instruction) : InstructionListing :=
  ⟨sorted l, [], pairwise_sorted l⟩

def regionOrder (a b : Region) : Bool :=
  a.range < b.range || (a.range = b.range && a.name ≤ b.name)

def withRegions (l : InstructionListing) (regions : List Region) : InstructionListing :=
  { l with regions := regions.mergeSort regionOrder }

def size (l : InstructionListing) : Nat :=
  l.instructions.length

def instructionsFrom (l : InstructionListing) (start : Address) : List Instruction :=
  l.instructions.dropWhile fun i => i.address < start

def toListing (l : InstructionListing) : Listing where
  instructionsFrom := l.instructionsFrom
  regions := l.regions

def bare (l : InstructionListing) : Listing where
  instructionsFrom := l.instructionsFrom
  regions := []

end InstructionListing

end InstructionCoverage

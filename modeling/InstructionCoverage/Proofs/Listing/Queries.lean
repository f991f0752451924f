import InstructionCoverage.Proofs.Listing
import Mathlib.Data.Nat.Basic
import Mathlib.Order.Basic

namespace InstructionCoverage

section Bisection

variable {α : Type}

def bisect (p : Nat → Bool) (lo hi : Nat) : Nat :=
  if lo < hi then
    if p (lo + (hi - lo) / 2) then bisect p (lo + (hi - lo) / 2 + 1) hi else bisect p lo (lo + (hi - lo) / 2)
  else lo
termination_by hi - lo

theorem lt_bisect_iff {p : Nat → Bool} (hdown : ∀ j k, j ≤ k → p k = true → p j = true) {lo hi : Nat}
    (hlo : ∀ k < lo, p k = true) (hhi : ∀ k, p k = true → k < hi) (k : Nat) : k < bisect p lo hi ↔ p k = true := by
  -- Whichever half is kept, `p` holds at all places before it and at none behind it.
  induction lo, hi using bisect.induct p with
  | case1 lo hi hlt hmid ih =>
    rw [bisect, if_pos hlt, if_pos hmid]
    exact ih (fun k hk => hdown k _ (by omega) hmid) hhi
  | case2 lo hi hlt hmid ih =>
    rw [bisect, if_pos hlt, if_neg hmid]
    exact ih hlo fun k hk => Nat.lt_of_not_le fun hle => hmid (hdown _ k hle hk)
  | case3 lo hi hge =>
    rw [bisect, if_neg hge]
    refine ⟨hlo k, fun hk => ?_⟩
    have hless := hhi k hk
    omega

def turningPoint (p : α → Bool) (l : List α) : Nat :=
  bisect (fun k => l[k]?.any p) 0 l.length

variable {p : α → Bool} {l : List α}

theorem any_getElem?_iff {k : Nat} : l[k]?.any p = true ↔ ∃ h : k < l.length, p l[k] = true := by
  rw [Option.any_eq_true]
  constructor
  · rintro ⟨a, ha, hpa⟩
    obtain ⟨h, rfl⟩ := List.getElem?_eq_some_iff.1 ha
    exact ⟨h, hpa⟩
  · rintro ⟨h, hpa⟩
    exact ⟨_, List.getElem?_eq_getElem h, hpa⟩

theorem getElem_of_le (h : l.Pairwise fun a b => p b = true → p a = true) {j k : Nat} (hjk : j ≤ k)
    (hk : k < l.length) (hpk : p l[k] = true) : p l[j] = true := by
  rcases Nat.eq_or_lt_of_le hjk with rfl | hjk
  · exact hpk
  · exact List.pairwise_iff_getElem.1 h j k (by omega) hk hjk hpk

theorem turningPoint_eq_findIdx (h : l.Pairwise fun a b => p b = true → p a = true) :
    turningPoint p l = l.findIdx fun a => !p a := by
  apply eq_of_forall_lt_iff
  intro k
  rw [turningPoint, lt_bisect_iff, any_getElem?_iff, List.lt_findIdx_iff]
  · simp only [Bool.not_eq_false']
    constructor
    · rintro ⟨hk, hpk⟩
      exact ⟨hk, fun j hj => getElem_of_le h hj hk hpk⟩
    · rintro ⟨hk, hall⟩
      exact ⟨hk, hall k (Nat.le_refl k)⟩
  · intro j k hjk hany
    obtain ⟨hk, hpk⟩ := any_getElem?_iff.1 hany
    exact any_getElem?_iff.2 ⟨by omega, getElem_of_le h hjk hk hpk⟩
  · intro k hk
    omega
  · intro k hany
    exact (any_getElem?_iff.1 hany).1

end Bisection

theorem filter_eq_find?_toList {α : Type} {p : α → Bool} {l : List α}
    (h : l.Pairwise fun a b => p a = true → ¬ p b = true) : l.filter p = (l.find? p).toList := by
  induction l with
  | nil => rfl
  | cons a l ih =>
    obtain ⟨ha, hl⟩ := List.pairwise_cons.1 h
    by_cases hpa : p a = true
    · have hnone : l.filter p = [] := List.filter_eq_nil_iff.2 fun b hb => ha b hb hpa
      rw [List.filter_cons_of_pos hpa, List.find?_cons_of_pos hpa, hnone]
      rfl
    · rw [List.filter_cons_of_neg hpa, List.find?_cons_of_neg hpa, ih hl]

namespace InstructionListing

theorem comparison_byAddress : Comparison byAddress :=
  ⟨byAddress_trans, byAddress_total⟩

theorem find?_sorted (l : List Instruction) (a : Address) :
    (sorted l).find? (fun i => i.address = a) = l.find? fun i => i.address = a := by
  rw [sorted, find?_eraseRepsBy, comparison_byAddress.find?_mergeSort]
  · intro i j hi hj
    simp only [decide_eq_true_eq] at hi hj
    rw [byAddress, hi, hj]
    exact decide_eq_true (Nat.le_refl _)
  · intro i j hij
    rw [of_decide_eq_true hij]

theorem filter_ofList (l : List Instruction) (a : Address) :
    (ofList l).instructions.filter (fun i => i.address = a) = (l.find? fun i => i.address = a).toList := by
  rw [filter_eq_find?_toList, show (ofList l).instructions = sorted l from rfl, find?_sorted]
  refine (ofList l).ascending.imp ?_
  intro i j hij hi hj
  simp only [decide_eq_true_eq] at hi hj
  rw [hi, hj, Address.lt_def] at hij
  omega

variable (l : InstructionListing)

def place (start : Address) : Nat :=
  turningPoint (fun i => i.address < start) l.instructions

theorem instructionsFrom_eq_drop (start : Address) : l.instructionsFrom start = l.instructions.drop (l.place start) := by
  rw [instructionsFrom, List.dropWhile_eq_drop_findIdx_not, place, turningPoint_eq_findIdx (l.pairwise_before start)]

theorem instructionsIn_forwarded {m : Listing} (h : m.instructionsFrom = l.instructionsFrom) (r : AddressRange) :
    m.instructionsIn r = l.instructions.filter fun i => r.min ≤ i.address ∧ i.address ≤ r.max := by
  have hsame : m.instructionsIn r = l.toListing.instructionsIn r := by
    rw [Listing.instructionsIn, h]
    rfl
  rw [hsame, instructionsIn_eq]
  apply List.filter_congr
  intro i _
  exact (Bool.decide_and _ _).symm

/-- A listing made from any instructions has exactly the first one of each address, in ascending order. Its queries give
what plain filtering gives, where they start by halving or by walking and whether its regions are passed on or not. -/
theorem ofList_queries (given : List Instruction) :
    let l := ofList given
    l.instructions.Pairwise (fun i j => i.address < j.address) ∧
      (∀ a, l.instructions.filter (fun i => i.address = a) = (given.find? fun i => i.address = a).toList) ∧
      (∀ start, l.toListing.instructionsFrom start = l.instructions.filter (fun i => start ≤ i.address) ∧
        l.toListing.instructionsFrom start = l.instructions.drop (l.place start)) ∧
      ∀ r, l.toListing.instructionsIn r = l.instructions.filter (fun i => r.min ≤ i.address ∧ i.address ≤ r.max) ∧
        l.bare.instructionsIn r = l.instructions.filter (fun i => r.min ≤ i.address ∧ i.address ≤ r.max) := by
  intro l
  refine ⟨pairwise_sorted given, filter_ofList given, fun start => ?_, fun r => ?_⟩
  · exact ⟨l.instructionsFrom_eq start, l.instructionsFrom_eq_drop start⟩
  · exact ⟨l.instructionsIn_forwarded rfl r, l.instructionsIn_forwarded rfl r⟩

example : (ofList [⟨.clamp 0x20, 1⟩, ⟨.clamp 0x10, 4⟩, ⟨.clamp 0x20, 9⟩]).instructions =
    [⟨.clamp 0x10, 4⟩, ⟨.clamp 0x20, 1⟩] := by
  cbv

end InstructionListing

end InstructionCoverage

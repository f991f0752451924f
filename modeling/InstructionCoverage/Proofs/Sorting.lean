import InstructionCoverage.Repeats
import Mathlib.Data.List.Pairwise

/-!
A list sorted by a key keeps the order of elements with equal keys, and where the key tells elements apart it does not
matter in which order they came. Leaving out repeated neighbours keeps the first one of each key.
-/

namespace InstructionCoverage

structure Comparison {α : Type} (le : α → α → Bool) : Prop where
  trans : ∀ a b c, le a b = true → le b c = true → le a c = true
  total : ∀ a b, (le a b || le b a) = true

namespace Comparison

variable {α : Type} {le : α → α → Bool} {l m : List α} {p : α → Bool}

theorem sorted (h : Comparison le) (l : List α) : (l.mergeSort le).Pairwise fun a b => le a b = true :=
  List.pairwise_mergeSort h.trans h.total l

theorem filter_mergeSort (h : Comparison le) (hp : ∀ a b, p a = true → p b = true → le a b = true) :
    (l.mergeSort le).filter p = l.filter p := by
  have hties : (l.filter p).Pairwise fun a b => le a b = true := by
    apply List.pairwise_of_forall_mem_list
    intro a ha b hb
    exact hp a b (List.mem_filter.1 ha).2 (List.mem_filter.1 hb).2
  have hkept : (l.filter p).Sublist ((l.mergeSort le).filter p) := by
    have hsub := (List.sublist_mergeSort h.trans h.total hties List.filter_sublist).filter p
    simpa only [List.filter_filter, Bool.and_self] using hsub
  exact (hkept.eq_of_length ((List.mergeSort_perm l le).filter p).length_eq.symm).symm

theorem find?_mergeSort (h : Comparison le) (hp : ∀ a b, p a = true → p b = true → le a b = true) :
    (l.mergeSort le).find? p = l.find? p := by
  rw [← List.head?_filter, ← List.head?_filter, h.filter_mergeSort hp]

theorem sorted_ties (h : Comparison le) {R : α → α → Prop} (hl : l.Pairwise R) :
    (l.mergeSort le).Pairwise fun a b => le a b = true ∧ (le b a = true → R a b) := by
  rw [List.pairwise_iff_forall_sublist]
  intro a b hab
  have hle : le a b = true := List.pairwise_iff_forall_sublist.1 (h.sorted l) hab
  refine ⟨hle, fun hge => ?_⟩
  have hrefl (c : α) : le c c = true := by simpa using h.total c c
  -- Elements between which `a` fits on both sides all have its key.
  let tie : α → Bool := fun c => le a c && le c a
  have htie : ∀ c d, tie c = true → tie d = true → le c d = true := by
    intro c d hc hd
    simp only [tie, Bool.and_eq_true] at hc hd
    exact h.trans c a d hc.2 hd.1
  have hpair := hab.filter tie
  rw [h.filter_mergeSort htie] at hpair
  have hboth : [a, b].filter tie = [a, b] := by simp [tie, hrefl, hle, hge]
  rw [hboth] at hpair
  exact List.pairwise_iff_forall_sublist.1 (hl.filter tie) hpair

theorem mergeSort_eq (h : Comparison le) (hanti : ∀ a ∈ l, ∀ b ∈ l, le a b = true → le b a = true → a = b)
    (hlm : l.Perm m) (hm : m.Pairwise fun a b => le a b = true) : l.mergeSort le = m := by
  have hsort := List.mergeSort_perm l le
  refine List.Perm.eq_of_pairwise ?_ (h.sorted l) hm (hsort.trans hlm)
  intro a b ha hb
  exact hanti a (hsort.mem_iff.1 ha) b (hlm.mem_iff.2 hb)

theorem mergeSort_congr (h : Comparison le) (hanti : ∀ a b, le a b = true → le b a = true → a = b) (hlm : l.Perm m) :
    l.mergeSort le = m.mergeSort le :=
  h.mergeSort_eq (fun a _ b _ => hanti a b) (hlm.trans (List.mergeSort_perm m le).symm) (h.sorted m)

end Comparison

section Repeats

variable {α : Type} {same : α → α → Bool} {p : α → Bool}

theorem eraseRepsBy_eq_self {l : List α} (h : l.Pairwise fun a b => same a b = false) : l.eraseRepsBy same = l := by
  induction h with
  | nil => rfl
  | @cons a l ha _ ih =>
    cases l with
    | nil => rfl
    | cons b l => rw [eraseRepsBy_cons_cons, ha b List.mem_cons_self, if_neg Bool.false_ne_true, ih]

theorem find?_eraseRepsBy (hp : ∀ a b, same a b = true → p a = p b) (l : List α) :
    (l.eraseRepsBy same).find? p = l.find? p := by
  cases l with
  | nil => rfl
  | cons a l =>
    induction l generalizing a with
    | nil => rfl
    | cons b l ih =>
      rw [eraseRepsBy_cons_cons]
      split
      · rename_i hab
        rw [ih a, List.find?_cons, List.find?_cons, List.find?_cons, hp a b hab]
        cases p b <;> rfl
      · rw [List.find?_cons, ih b, ← List.find?_cons]

end Repeats

end InstructionCoverage

import InstructionCoverage.Address.Range

namespace InstructionCoverage

structure RangeSet where
  toList : List AddressRange
  ascending : toList.Pairwise (· < ·)
  deriving DecidableEq

namespace RangeSet

instance : Membership AddressRange RangeSet := ⟨fun s r => r ∈ s.toList⟩

instance (r : AddressRange) (s : RangeSet) : Decidable (r ∈ s) :=
  inferInstanceAs (Decidable (r ∈ s.toList))

theorem mem_def {r : AddressRange} {s : RangeSet} : r ∈ s ↔ r ∈ s.toList := Iff.rfl

def empty : RangeSet := ⟨[], .nil⟩

instance : EmptyCollection RangeSet := ⟨empty⟩
instance : Inhabited RangeSet := ⟨empty⟩

def size (s : RangeSet) : Nat := s.toList.length

def insertSorted (r : AddressRange) : List AddressRange → List AddressRange
  | [] => [r]
  | s :: rest => if r < s then r :: s :: rest else if r = s then s :: rest else s :: insertSorted r rest

theorem mem_insertSorted {r x : AddressRange} {l : List AddressRange} :
    x ∈ insertSorted r l ↔ x = r ∨ x ∈ l := by
  induction l with
  | nil => simp [insertSorted]
  | cons s rest ih =>
    unfold insertSorted
    split
    · simp
    · split
      · rename_i h; subst h; simp
      · simp only [List.mem_cons, ih]
        exact ⟨fun h => by rcases h with h | h | h <;> simp [h], fun h => by rcases h with h | h | h <;> simp [h]⟩

theorem pairwise_insertSorted {r : AddressRange} {l : List AddressRange} (h : l.Pairwise (· < ·)) :
    (insertSorted r l).Pairwise (· < ·) := by
  induction h with
  | nil => exact .cons (by simp) .nil
  | @cons s rest hs hrest ih =>
    unfold insertSorted
    split
    · rename_i hr
      refine .cons (fun x hx => ?_) (.cons hs hrest)
      rcases List.mem_cons.1 hx with rfl | hx
      · exact hr
      · exact AddressRange.lt_trans hr (hs x hx)
    · rename_i hr
      split
      · exact .cons hs hrest
      · rename_i hne
        refine .cons (fun x hx => ?_) ih
        rcases mem_insertSorted.1 hx with rfl | hx
        · rcases AddressRange.lt_trichotomy x s with h | h | h
          · exact absurd h hr
          · exact absurd h hne
          · exact h
        · exact hs x hx

def insert (r : AddressRange) (s : RangeSet) : RangeSet :=
  ⟨insertSorted r s.toList, pairwise_insertSorted s.ascending⟩

@[simp] theorem mem_insert {r x : AddressRange} {s : RangeSet} : x ∈ s.insert r ↔ x = r ∨ x ∈ s :=
  mem_insertSorted

def ofList (l : List AddressRange) : RangeSet :=
  l.foldr insert empty

@[simp] theorem mem_ofList {x : AddressRange} {l : List AddressRange} : x ∈ ofList l ↔ x ∈ l := by
  induction l with
  | nil => simp [ofList, mem_def, empty]
  | cons r rest ih => rw [show ofList (r :: rest) = (ofList rest).insert r from rfl, mem_insert, ih, List.mem_cons]

theorem eq_of_pairwise {l m : List AddressRange} (hl : l.Pairwise (· < ·)) (hm : m.Pairwise (· < ·))
    (h : ∀ x, x ∈ l ↔ x ∈ m) : l = m := by
  induction hl generalizing m with
  | nil =>
    cases m with
    | nil => rfl
    | cons y ys => exact absurd ((h y).2 (by simp)) (by simp)
  | @cons x xs hx hxs ih =>
    cases hm with
    | nil => exact absurd ((h x).1 (by simp)) (by simp)
    | @cons y ys hy hys =>
      have hxy : x = y := by
        rcases List.mem_cons.1 ((h x).1 (by simp)) with hxy | hxm
        · exact hxy
        · rcases List.mem_cons.1 ((h y).2 (by simp)) with hyx | hym
          · exact hyx.symm
          · exact absurd (AddressRange.lt_trans (hx y hym) (hy x hxm)) (AddressRange.lt_irrefl x)
      subst hxy
      congr 1
      apply ih hys
      intro z
      constructor
      · intro hz
        rcases List.mem_cons.1 ((h z).1 (List.mem_cons_of_mem _ hz)) with rfl | hz'
        · exact absurd (hx z hz) (AddressRange.lt_irrefl z)
        · exact hz'
      · intro hz
        rcases List.mem_cons.1 ((h z).2 (List.mem_cons_of_mem _ hz)) with rfl | hz'
        · exact absurd (hy z hz) (AddressRange.lt_irrefl z)
        · exact hz'

@[ext] theorem ext {s t : RangeSet} (h : ∀ x, x ∈ s ↔ x ∈ t) : s = t := by
  have hl := eq_of_pairwise s.ascending t.ascending h
  cases s; cases t; cases hl; rfl

end RangeSet

end InstructionCoverage

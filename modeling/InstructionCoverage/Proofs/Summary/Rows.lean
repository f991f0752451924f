import InstructionCoverage.Proofs.Decimal.Rounding
import InstructionCoverage.Proofs.Sorting
import InstructionCoverage.Proofs.Summary.Totals

namespace InstructionCoverage

namespace InstructionListing

theorem regionOrder_iff {r s : Region} :
    regionOrder r s = true ↔ r.range < s.range ∨ r.range = s.range ∧ r.name ≤ s.name := by
  simp only [regionOrder, Bool.or_eq_true, Bool.and_eq_true, decide_eq_true_eq]

theorem comparison_regionOrder : Comparison regionOrder where
  trans r s t hrs hst := by
    rw [regionOrder_iff] at *
    rcases hrs with hrs | ⟨hrs, hname⟩
    · left
      rcases hst with hst | ⟨hst, -⟩
      · exact AddressRange.lt_trans hrs hst
      · exact hst ▸ hrs
    · rw [hrs]
      exact hst.imp_right fun ⟨hst, hname'⟩ => ⟨hst, String.le_trans hname hname'⟩
  total r s := by
    rw [Bool.or_eq_true, regionOrder_iff, regionOrder_iff]
    rcases AddressRange.lt_trichotomy r.range s.range with h | h | h
    · exact .inl (.inl h)
    · exact (String.le_total r.name s.name).imp (fun hn => .inr ⟨h, hn⟩) fun hn => .inr ⟨h.symm, hn⟩
    · exact .inr (.inl h)

theorem regionOrder_antisymm {r s : Region} (h : regionOrder r s = true) (h' : regionOrder s r = true) : r = s := by
  rw [regionOrder_iff] at h h'
  have hback : ¬ (r.range < s.range ∧ s.range < r.range) :=
    fun h => AddressRange.lt_irrefl _ (AddressRange.lt_trans h.1 h.2)
  rcases h with h | ⟨h, hname⟩
  · rcases h' with h' | ⟨h', -⟩
    · exact absurd ⟨h, h'⟩ hback
    · exact absurd (h' ▸ h) (AddressRange.lt_irrefl _)
  · rcases h' with h' | ⟨-, hname'⟩
    · exact absurd (h ▸ h') (AddressRange.lt_irrefl _)
    · cases r
      cases s
      cases h
      cases String.le_antisymm hname hname'
      rfl

theorem withRegions_perm (l : InstructionListing) {regions others : List Region} (h : regions.Perm others) :
    l.withRegions regions = l.withRegions others := by
  rw [withRegions, withRegions, comparison_regionOrder.mergeSort_congr (fun _ _ => regionOrder_antisymm) h]

end InstructionListing

namespace Row

def Precedes (a b : Row) : Prop :=
  b.ratio.value < a.ratio.value ∨ b.ratio.value = a.ratio.value ∧
    (a.start < b.start ∨ a.start = b.start ∧ (a.last < b.last ∨ a.last = b.last ∧ a.name ≤ b.name))

end Row

namespace Summary

open InstructionListing

theorem comparison_rowOrder : Comparison rowOrder where
  trans a b c hab hbc := by
    simp only [rowOrder, Bool.or_eq_true, Bool.and_eq_true, decide_eq_true_eq, beq_iff_eq, Address.le_def] at *
    omega
  total a b := by
    simp only [rowOrder, Bool.or_eq_true, Bool.and_eq_true, decide_eq_true_eq, beq_iff_eq, Address.le_def]
    omega

section Rows

variable {l : Listing} {hits : RangeSet} {row : Row}

theorem exists_region (h : row ∈ (ofHits l hits).rows) : ∃ region ∈ l.regions, row = rowOf l hits region := by
  have hmem := (List.mergeSort_perm _ _).mem_iff.1 h
  obtain ⟨region, hregion, rfl⟩ := List.mem_map.1 hmem
  exact ⟨region, hregion, rfl⟩

theorem rounds_ratio (h : row ∈ (ofHits l hits).rows) :
    row.ratio.Rounds (row.hitInstructions / row.instructions) := by
  obtain ⟨region, -, rfl⟩ := exists_region h
  exact Binary64.ofQuotient_rounds _ _

theorem rowOrder_iff {a b : Row} (ha : a.ratio.Canonical) (hb : b.ratio.Canonical) :
    rowOrder a b = true ↔
      b.ratio.value < a.ratio.value ∨ b.ratio.value = a.ratio.value ∧ a.start ≤ b.start := by
  have hlt := Binary64.bits_lt_iff hb ha
  have hgt := Binary64.bits_lt_iff ha hb
  have heq : a.ratio.bits = b.ratio.bits ↔ b.ratio.value = a.ratio.value := by
    constructor
    · intro h
      exact le_antisymm (not_lt.1 (mt hgt.2 (by omega))) (not_lt.1 (mt hlt.2 (by omega)))
    · intro h
      have := mt hlt.1 h.not_lt
      have := mt hgt.1 h.symm.not_lt
      omega
  simp only [rowOrder, Bool.or_eq_true, Bool.and_eq_true, decide_eq_true_eq, beq_iff_eq, hlt, heq]

end Rows

theorem rowOf_listed (l : Listing) (hits : RangeSet) {regions : List Region}
    (h : regions.Pairwise fun r s => regionOrder r s = true) :
    (regions.map (rowOf l hits)).Pairwise fun a b =>
      a.start < b.start ∨ a.start = b.start ∧ (a.last < b.last ∨ a.last = b.last ∧ a.name ≤ b.name) := by
  rw [List.pairwise_map]
  refine h.imp ?_
  intro r s hrs
  rw [regionOrder_iff] at hrs
  rcases hrs with (hmin | ⟨hmin, hmax⟩) | ⟨hrange, hname⟩
  · exact .inl hmin
  · exact .inr ⟨hmin, .inl hmax⟩
  · exact .inr ⟨congrArg AddressRange.min hrange, .inr ⟨congrArg AddressRange.max hrange, hname⟩⟩

theorem rows_precede (l : InstructionListing) (regions : List Region) (hits : RangeSet) :
    (ofHits (l.withRegions regions).toListing hits).rows.Pairwise Row.Precedes := by
  have hlisted := rowOf_listed (l.withRegions regions).toListing hits (comparison_regionOrder.sorted regions)
  refine (comparison_rowOrder.sorted_ties hlisted).imp_of_mem ?_
  intro a b ha hb ⟨hab, htie⟩
  have ha := (rounds_ratio ha).canonical
  have hb := (rounds_ratio hb).canonical
  rw [rowOrder_iff ha hb] at hab
  rw [rowOrder_iff hb ha] at htie
  refine hab.imp_right fun ⟨hratio, hstart⟩ => ⟨hratio, ?_⟩
  by_cases hless : a.start < b.start
  · exact .inl hless
  · apply htie
    rw [Address.lt_def] at hless
    exact .inr ⟨hratio.symm, Nat.not_lt.1 hless⟩

theorem rows_perm (l : InstructionListing) (regions : List Region) (hits : RangeSet) :
    ((ofHits (l.withRegions regions).toListing hits).rows.map fun row => (row.name, row.start, row.last)).Perm
      (regions.map fun region => (region.name, region.range.min, region.range.max)) := by
  have hrows := (List.mergeSort_perm ((l.withRegions regions).regions.map (rowOf (l.withRegions regions).toListing hits))
    rowOrder).map fun row => (row.name, row.start, row.last)
  rw [List.map_map] at hrows
  exact hrows.trans ((List.mergeSort_perm regions regionOrder).map _)

theorem ofHits_rows (l : InstructionListing) (regions : List Region) (hits : RangeSet) :
    let s := ofHits (l.withRegions regions).toListing hits
    (s.rows.map fun row => (row.name, row.start, row.last)).Perm
        (regions.map fun region => (region.name, region.range.min, region.range.max)) ∧
      (∀ row ∈ s.rows,
        let inside := l.instructions.filter fun i => row.start ≤ i.address ∧ i.address ≤ row.last
        let hit := inside.filter fun i => i.span ∈ hits
        let bytes := (hit.map fun i => i.span.length).sum
        row.instructions = inside.length ∧ row.hitInstructions = hit.length ∧ row.hitInstructions ≤ row.instructions ∧
          (bytes < 0x10000000000000000 → row.hitBytes = bytes) ∧
          row.ratio.Rounds (hit.length / inside.length) ∧ (inside = [] → row.ratio = .zero)) ∧
      s.rows.Pairwise Row.Precedes ∧
      ∀ others, regions.Perm others → ofHits (l.withRegions others).toListing hits = s := by
  intro s
  refine ⟨rows_perm l regions hits, ?_, rows_precede l regions hits, ?_⟩
  · intro row hrow inside hit bytes
    have hrounds := rounds_ratio hrow
    obtain ⟨region, -, rfl⟩ := exists_region hrow
    have hinside : (l.withRegions regions).toListing.instructionsIn region.range = inside := by
      rw [instructionsIn_eq]
      apply List.filter_congr
      intro i _
      exact (Bool.decide_and _ _).symm
    have hcount : (rowOf (l.withRegions regions).toListing hits region).instructions = inside.length :=
      congrArg List.length hinside
    have hhit : (rowOf (l.withRegions regions).toListing hits region).hitInstructions = hit.length :=
      congrArg (fun is => (is.filter fun i => decide (i.span ∈ hits)).length) hinside
    rw [hcount, hhit] at hrounds
    refine ⟨hcount, hhit, ?_, ?_, hrounds, ?_⟩
    · rw [hcount, hhit]
      exact List.length_filter_le _ _
    · intro hbytes
      rw [rowOf, hinside]
      exact Nat.mod_eq_of_lt hbytes
    · intro hnone
      rw [rowOf, hinside, hnone]
      rfl
  · intro others hperm
    rw [← l.withRegions_perm hperm]

theorem ofHits_rows_aliases :
    let given := [secondFunction, firstFunction "f_alias", firstFunction "f"]
    let s := ofHits (functions given).toListing functionHits
    let row := rowOf (functions given).toListing functionHits (firstFunction "f")
    given.Perm [firstFunction "f", firstFunction "f_alias", secondFunction] ∧
      ofHits (functions [firstFunction "f", firstFunction "f_alias", secondFunction]).toListing functionHits = s ∧
      row ∈ s.rows ∧ row.instructions = 1 ∧ row.hitInstructions = 1 ∧ row.hitBytes = 4 ∧ row.ratio.Rounds 1 := by
  intro given s row
  have hperm : given.Perm [firstFunction "f", firstFunction "f_alias", secondFunction] :=
    (List.reverse_perm given).symm
  have hrow : row ∈ s.rows := by
    apply (List.mergeSort_perm _ _).mem_iff.2
    apply List.mem_map_of_mem
    exact (List.mergeSort_perm _ _).mem_iff.2 (by simp [given])
  let l : InstructionListing := .ofList [⟨.clamp 0x10, 4⟩, ⟨.clamp 0x14, 2⟩]
  have hinside :
      (l.instructions.filter fun i => row.start ≤ i.address ∧ i.address ≤ row.last) = [⟨.clamp 0x10, 4⟩] := by
    rw [show l.instructions = _ from functions_instructions given]
    decide
  obtain ⟨-, hrows, -, hgiven⟩ := ofHits_rows l given functionHits
  obtain ⟨hcount, hhit, -, hbytes, hratio, -⟩ := hrows row hrow
  rw [hinside] at hcount hhit hbytes hratio
  refine ⟨hperm, hgiven _ hperm, hrow, hcount, hhit.trans (by decide), ?_, ?_⟩
  · exact (hbytes (by decide)).trans (by decide)
  · convert hratio using 1
    rw [show ([⟨.clamp 0x10, 4⟩] : List Instruction).filter (fun i => i.span ∈ functionHits) = [⟨.clamp 0x10, 4⟩] by decide]
    norm_num

end Summary

end InstructionCoverage

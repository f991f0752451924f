import InstructionCoverage.Proofs.Listing
import InstructionCoverage.Proofs.Model.Recompute

namespace InstructionCoverage

open Progress

namespace Instruction

structure Disjoint (is : List Instruction) : Prop where
  ascending : is.Pairwise fun i j => i.address ≤ j.address
  apart : is.Pairwise fun i j => i.span.overlaps j.span = false

instance (is : List Instruction) : Decidable (Disjoint is) :=
  decidable_of_iff
    ((is.Pairwise fun i j => i.address ≤ j.address) ∧ is.Pairwise fun i j => i.span.overlaps j.span = false)
    ⟨fun h => ⟨h.1, h.2⟩, fun h => ⟨h.ascending, h.apart⟩⟩

theorem Disjoint.last_le {is : List Instruction} (h : Disjoint is) : is.Pairwise fun i j => i.last ≤ j.last := by
  refine (h.ascending.and h.apart).imp ?_
  rintro i j ⟨hle, hapart⟩
  have hj := j.address_le_last
  simp only [AddressRange.overlaps, span, Bool.and_eq_false_imp, decide_eq_true_eq, decide_eq_false_iff_not,
    Address.le_def] at *
  omega

end Instruction

namespace Alignment

theorem rebuild_loaded (l : Listing) (a : Alignment) {ranges : List AddressRange} {p : Progress}
    (h : (p.grant ranges.length).1 = .completed) :
    rebuild l (a.load ranges) p = (.completed, ofPublished l (some ranges), (p.grant ranges.length).2) := by
  obtain ⟨hending, hprogress, hfound⟩ := align_stage l ranges [] p
  have hspans := hfound h
  rw [h] at hending
  dsimp only [rebuild, load]
  cases hm : align l ranges [] p with
  | mk ending rest =>
    obtain ⟨found, q⟩ := rest
    rw [hm] at hending hprogress hspans
    dsimp only at hending hprogress hspans
    rw [hending, hprogress, hspans]
    rfl

section Hits

variable {l : Listing} {is : List Instruction} {ranges : List AddressRange}

theorem sound_hitsOf (hl : l.Yields is) {hit : AddressRange} (h : hit ∈ hitsOf l ranges) :
    ∃ i ∈ is, hit = i.span ∧ ∃ r ∈ ranges, r.min ≤ i.address ∧ i.last ≤ r.max := by
  obtain ⟨r, hr, i, hi, rfl⟩ := mem_hitsOf.1 h
  obtain ⟨hlisted, hmin, hmax⟩ := hl.within hi
  exact ⟨i, hlisted, rfl, r, hr, hmin, hmax⟩

theorem complete_hitsOf (hl : l.Yields is) (hd : Instruction.Disjoint is) {i : Instruction} {r : AddressRange}
    (hi : i ∈ is) (hr : r ∈ ranges) (hmin : r.min ≤ i.address) (hmax : i.last ≤ r.max) :
    i.span ∈ hitsOf l ranges :=
  mem_hitsOf.2 ⟨r, hr, i, (hl.mem_within hd.last_le).2 ⟨hi, hmin, hmax⟩, rfl⟩

end Hits

section Union

variable {l : Listing} {R S : List AddressRange}

theorem mem_hitsOf_append {hit : AddressRange} : hit ∈ hitsOf l (R ++ S) ↔ hit ∈ hitsOf l R ∨ hit ∈ hitsOf l S := by
  simp only [hitsOf, spans, List.flatMap_append, RangeSet.mem_ofList, List.mem_append]

theorem hitsOf_mono (h : ∀ r ∈ R, r ∈ S) {hit : AddressRange} (hhit : hit ∈ hitsOf l R) : hit ∈ hitsOf l S := by
  obtain ⟨r, hr, hi⟩ := mem_hitsOf.1 hhit
  exact mem_hitsOf.2 ⟨r, h r hr, hi⟩

theorem hitsOf_congr (h : ∀ r, r ∈ R ↔ r ∈ S) : hitsOf l R = hitsOf l S := by
  ext hit
  constructor
  · exact hitsOf_mono fun r => (h r).1
  · exact hitsOf_mono fun r => (h r).2

theorem align_lenient (l : Listing) (ranges : List AddressRange) {p : Progress} (hp : p.Lenient) :
    (align l ranges [] p).1 = .completed ∧ .ofList (align l ranges [] p).2.1 = hitsOf l ranges := by
  obtain ⟨hending, -, hfound⟩ := align_stage l ranges [] p
  have hgrant := hp.grant ranges.length
  rw [hending, hfound hgrant]
  exact ⟨hgrant, rfl⟩

end Union

/-- A recompute that is granted its polls hits listed instructions that lie inside a range, and nothing else; where
the listed instructions ascend without overlap it hits all of those. -/
theorem rebuild_hits {l : Listing} {is : List Instruction} (hl : l.Yields is) (a : Alignment)
    (ranges : List AddressRange) {p : Progress} (hp : (p.grant ranges.length).1 = .completed) :
    ∃ b q, rebuild l (a.load ranges) p = (.completed, b, q) ∧ b.alignedFrom = some ranges ∧
      (∀ hit ∈ b.hits, ∃ i ∈ is, hit = i.span ∧ ∃ r ∈ ranges, r.min ≤ i.address ∧ i.last ≤ r.max) ∧
      (Instruction.Disjoint is →
        ∀ i ∈ is, ∀ r ∈ ranges, r.min ≤ i.address → i.last ≤ r.max → i.span ∈ b.hits) := by
  refine ⟨_, _, rebuild_loaded l a hp, rfl, ?_, ?_⟩
  · intro hit hhit
    exact sound_hitsOf hl hhit
  · intro hd i hi r hr hmin hmax
    exact complete_hitsOf hl hd hi hr hmin hmax

def edgeListing : InstructionListing where
  instructions := [⟨⟨0x40, by decide⟩, 4⟩, ⟨⟨0x44, by decide⟩, 0⟩, ⟨⟨0x45, by decide⟩, 2⟩,
    ⟨⟨0xfffffffffffffffe, by decide⟩, 10⟩]
  regions := []
  ascending := by decide

def edgeRanges : List AddressRange :=
  [⟨⟨0x41, by decide⟩, ⟨0x45, by decide⟩, by decide⟩, ⟨⟨0x44, by decide⟩, ⟨0x44, by decide⟩, by decide⟩,
    ⟨⟨0xffffffffffffff00, by decide⟩, .top, by decide⟩]

theorem rebuild_hits_edge :
    edgeListing.toListing.Yields edgeListing.instructions ∧ (unbounded.grant edgeRanges.length).1 = .completed ∧
      Instruction.Disjoint edgeListing.instructions ∧
      ∃ b q, rebuild edgeListing.toListing (empty.load edgeRanges) unbounded = (.completed, b, q) ∧
        ⟨⟨0x44, by decide⟩, ⟨0x44, by decide⟩, by decide⟩ ∈ b.hits ∧
        ⟨⟨0xfffffffffffffffe, by decide⟩, .top, by decide⟩ ∈ b.hits ∧
        ⟨⟨0x45, by decide⟩, ⟨0x46, by decide⟩, by decide⟩ ∉ b.hits := by
  have hl := edgeListing.toListing_yields
  have hp := unbounded_lenient.grant edgeRanges.length
  have hd : Instruction.Disjoint edgeListing.instructions := by decide
  obtain ⟨b, q, hr, -, hsound, hcomplete⟩ := rebuild_hits hl empty edgeRanges hp
  refine ⟨hl, hp, hd, b, q, hr, ?_, ?_, ?_⟩
  · exact hcomplete hd ⟨⟨0x44, by decide⟩, 0⟩ (by decide) edgeRanges[0] (by decide) (by decide) (by decide)
  · exact hcomplete hd ⟨⟨0xfffffffffffffffe, by decide⟩, 10⟩ (by decide) edgeRanges[2] (by decide) (by decide)
      (by decide)
  · intro hhit
    obtain ⟨i, hi, hspan, r, hr, hmin, hmax⟩ := hsound _ hhit
    have hnone : ∀ i ∈ edgeListing.instructions, i.address.value = 0x45 →
        ∀ r ∈ edgeRanges, r.min ≤ i.address → ¬ i.last ≤ r.max := by decide
    exact hnone i hi (congrArg (fun s => s.min.value) hspan).symm r hr hmin hmax

end Alignment

end InstructionCoverage

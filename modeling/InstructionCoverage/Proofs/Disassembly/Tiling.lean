import InstructionCoverage.Proofs.Disassembly.Regions
import Mathlib.Data.List.MinMax
import Mathlib.Data.List.Pairwise

/-!
Where no symbol has a size, the regions in a section tile it: an address belongs to the greatest symbol address up to it.
-/

namespace InstructionCoverage

namespace AddressRange

variable {r s : AddressRange} {a : Address}

theorem contains_iff : r.contains a = true ↔ r.min ≤ a ∧ a ≤ r.max := by
  rw [contains, Bool.and_eq_true, decide_eq_true_eq, decide_eq_true_eq]

theorem exists_common (h : r.overlaps s = true) : ∃ a, r.contains a = true ∧ s.contains a = true := by
  rw [overlaps, Bool.and_eq_true, decide_eq_true_eq, decide_eq_true_eq] at h
  rcases Nat.le_total r.min.value s.min.value with hle | hle
  · exact ⟨s.min, contains_iff.2 ⟨hle, h.2⟩, contains_iff.2 ⟨Nat.le_refl _, s.min_le_max⟩⟩
  · exact ⟨r.min, contains_iff.2 ⟨Nat.le_refl _, r.min_le_max⟩, contains_iff.2 ⟨hle, h.1⟩⟩

end AddressRange

namespace CodeSection

def Apart (s t : CodeSection) : Prop :=
  ∀ a, ¬ (s.contains a = true ∧ t.contains a = true)

instance : Std.Symm Apart where
  symm _ _ h a both := h a both.symm

theorem contains_iff {s : CodeSection} {a : Address} : s.contains a = true ↔ s.address ≤ a ∧ a.value < s.stop := by
  rw [contains, Bool.and_eq_true, decide_eq_true_eq, decide_eq_true_eq]

theorem apart_of_le {s t : CodeSection} (h : s.stop ≤ t.address.value) : s.Apart t := by
  rintro a ⟨hs, ht⟩
  obtain ⟨-, hbelow⟩ := contains_iff.1 hs
  obtain ⟨habove, -⟩ := contains_iff.1 ht
  rw [Address.le_def] at habove
  omega

theorem eq_of_contains {sections : List CodeSection} (h : sections.Pairwise Apart) {s t : CodeSection} {a : Address}
    (hs : s ∈ sections) (ht : t ∈ sections) (hsa : s.contains a = true) (hta : t.contains a = true) : s = t := by
  by_contra hne
  exact h.forall hs ht hne a ⟨hsa, hta⟩

end CodeSection

namespace Symbol

variable {sections : List CodeSection} {symbols : List Symbol} {s : Symbol}

theorem lt_boundary {stop : Nat} {a : Address} (hsize : s.size = none) : a.value < boundary symbols stop s ↔
    a.value < stop ∧ ∀ t ∈ symbols, s.address < t.address → a < t.address := by
  rw [boundary, hsize]
  dsimp only
  rw [Nat.lt_min]
  apply and_congr_right
  intro hstop
  cases hnext : nextAddress? symbols s.address with
  | none =>
    have hnone := nextAddress?_eq_none.1 hnext
    exact iff_of_true hstop fun t ht hlt => absurd hlt (hnone t ht)
  | some v =>
    obtain ⟨⟨t, ht, rfl, hlt⟩, hleast⟩ := nextAddress?_eq_some.1 hnext
    exact ⟨fun ha u hu hless => Nat.lt_of_lt_of_le ha (hleast u hu hless), fun ha => ha t ht hlt⟩

theorem exists_greatest {a : Address} (hs : s ∈ symbols) (ha : s.address ≤ a) :
    ∃ t ∈ symbols, t.address ≤ a ∧ ∀ u ∈ symbols, u.address ≤ a → u.address ≤ t.address := by
  let below := symbols.filter fun t => t.address ≤ a
  have hmem {u : Symbol} : u ∈ below ↔ u ∈ symbols ∧ u.address ≤ a := by
    rw [List.mem_filter, decide_eq_true_eq]
  cases hmax : below.argmax fun t => t.address.value with
  | none =>
    have hin := hmem.2 ⟨hs, ha⟩
    rw [List.argmax_eq_none.1 hmax] at hin
    cases hin
  | some t =>
    obtain ⟨ht, hta⟩ := hmem.1 (List.argmax_mem hmax)
    exact ⟨t, ht, hta, fun u hu hua => List.le_of_mem_argmax (hmem.2 ⟨hu, hua⟩) hmax⟩

theorem size_ne_zero (hsize : ∀ s ∈ symbols, s.size = none) : ∀ s ∈ symbols, s.size ≠ some 0 := by
  intro s hs hzero
  rw [hsize s hs] at hzero
  cases hzero

structure Tiles (sect : CodeSection) (symbols : List Symbol) (regions : List Region) : Prop where
  named : ∀ s ∈ symbols, sect.contains s.address → ∃ r ∈ regions, r.name = s.name ∧ r.range.min = s.address
  starts : ∀ r ∈ regions, ∃ s ∈ symbols, r.name = s.name ∧ r.range.min = s.address
  aliases : ∀ r ∈ regions, ∀ t ∈ regions, r.range.min = t.range.min → r.range = t.range
  apart : ∀ r ∈ regions, ∀ t ∈ regions, r.range.min ≠ t.range.min → r.range.overlaps t.range = false
  covers : ∀ a, (∃ r ∈ regions, r.range.contains a) ↔
    (∃ s ∈ symbols, sect.contains s.address ∧ s.address ≤ a) ∧ a.value < sect.stop

section Unsized

theorem region_section (hsize : ∀ s ∈ symbols, s.size = none) {r : Region}
    (hr : r ∈ regions sections symbols) :
    ∃ sect ∈ sections, sect.contains r.range.min = true ∧ ∃ s ∈ symbols, r.name = s.name ∧ r.range.min = s.address := by
  obtain ⟨s, sect, hs, hsect, hname, hmin, -⟩ := (charted_stop sections (size_ne_zero hsize)).described r hr
  refine ⟨sect, List.mem_of_find?_eq_some hsect, ?_, s, List.mem_of_find?_eq_some hs, hname, hmin⟩
  rw [hmin]
  exact CodeSection.contains_iff.2 (within_of_find? hsect)

variable (hapart : sections.Pairwise CodeSection.Apart) (hsize : ∀ s ∈ symbols, s.size = none)
include hapart hsize

theorem region_contains {r : Region} (hr : r ∈ regions sections symbols) {sect : CodeSection} (hsect : sect ∈ sections)
    (hin : sect.contains r.range.min = true) {a : Address} : r.range.contains a = true ↔
      r.range.min ≤ a ∧ a.value < sect.stop ∧ ∀ t ∈ symbols, t.address ≤ a → t.address ≤ r.range.min := by
  obtain ⟨s, first, hs, hfirst, -, hmin, hmax⟩ := (charted_stop sections (size_ne_zero hsize)).described r hr
  rw [hmin] at hin
  obtain rfl : first = sect :=
    CodeSection.eq_of_contains hapart (List.mem_of_find?_eq_some hfirst) hsect
      (CodeSection.contains_iff.2 (within_of_find? hfirst)) hin
  have hbound : a ≤ r.range.max ↔ a.value < boundary symbols first.stop s := by
    rw [← hmax, Address.le_def]
    exact Nat.lt_succ_iff.symm
  rw [AddressRange.contains_iff, hbound, lt_boundary (hsize s (List.mem_of_find?_eq_some hs)), hmin]
  simp only [Address.le_def, Address.lt_def]
  refine and_congr_right fun _ => and_congr_right fun _ => forall₂_congr fun t _ => ?_
  omega

theorem eq_start_of_contains {r t : Region} (hr : r ∈ regions sections symbols) (ht : t ∈ regions sections symbols)
    {a : Address} (hra : r.range.contains a = true) (hta : t.range.contains a = true) : r.range.min = t.range.min := by
  obtain ⟨sect, hsect, hin, s, hs, -, hmin⟩ := region_section hsize hr
  obtain ⟨sect', hsect', hin', s', hs', -, hmin'⟩ := region_section hsize ht
  obtain ⟨hle, -, hgreatest⟩ := (region_contains hapart hsize hr hsect hin).1 hra
  obtain ⟨hle', -, hgreatest'⟩ := (region_contains hapart hsize ht hsect' hin').1 hta
  have hback := hgreatest s' hs' (hmin' ▸ hle')
  have hforth := hgreatest' s hs (hmin ▸ hle)
  rw [← hmin', Address.le_def] at hback
  rw [← hmin, Address.le_def] at hforth
  exact Address.ext (by omega)

theorem max_le_of_eq_start {r t : Region} (hr : r ∈ regions sections symbols) (ht : t ∈ regions sections symbols)
    (h : r.range.min = t.range.min) : r.range.max ≤ t.range.max := by
  obtain ⟨sect, hsect, hin, -⟩ := region_section hsize hr
  have hmax : r.range.contains r.range.max = true :=
    AddressRange.contains_iff.2 ⟨r.range.min_le_max, Nat.le_refl _⟩
  rw [region_contains hapart hsize hr hsect hin, h, ← region_contains hapart hsize ht hsect (h ▸ hin)] at hmax
  exact (AddressRange.contains_iff.1 hmax).2

theorem exists_region_iff {sect : CodeSection} (hsect : sect ∈ sections) {a : Address} :
    (∃ r ∈ regions sections symbols, sect.contains r.range.min = true ∧ r.range.contains a = true) ↔
      (∃ s ∈ symbols, sect.contains s.address = true ∧ s.address ≤ a) ∧ a.value < sect.stop := by
  constructor
  · rintro ⟨r, hr, hin, hra⟩
    obtain ⟨-, -, -, s, hs, -, hmin⟩ := region_section hsize hr
    obtain ⟨hle, hstop, -⟩ := (region_contains hapart hsize hr hsect hin).1 hra
    rw [hmin] at hin hle
    exact ⟨⟨s, hs, hin, hle⟩, hstop⟩
  · rintro ⟨⟨s, hs, hin, hle⟩, hstop⟩
    obtain ⟨t, ht, hta, hgreatest⟩ := exists_greatest hs hle
    have hst := hgreatest s hs hle
    obtain ⟨hfrom, -⟩ := CodeSection.contains_iff.1 hin
    simp only [Address.le_def] at hfrom hst hta
    -- The greatest symbol address up to `a` is in the section too: it is between that of `s` and `a`.
    have hint : sect.contains t.address = true :=
      CodeSection.contains_iff.2 ⟨by rw [Address.le_def]; omega, by omega⟩
    obtain ⟨r, hr, -, hmin⟩ :=
      (charted_stop sections (size_ne_zero hsize)).present t ht ⟨sect, hsect, CodeSection.contains_iff.1 hint⟩
    rw [← hmin] at hint hta hgreatest
    exact ⟨r, hr, hint, (region_contains hapart hsize hr hsect hint).2 ⟨hta, hstop, hgreatest⟩⟩

end Unsized

theorem regions_tile (hapart : sections.Pairwise CodeSection.Apart) (hsize : ∀ s ∈ symbols, s.size = none) :
    (∀ sect ∈ sections, sect.stop = min (sect.address.value + sect.bytes.length) 0xffffffffffffffff ∧
        Tiles sect symbols ((regions sections symbols).filter fun r => sect.contains r.range.min)) ∧
      ∀ r ∈ regions sections symbols, ∃ sect ∈ sections, ∀ a, r.range.contains a →
        sect.contains a ∧ ∀ other ∈ sections, other.contains a → other = sect := by
  constructor
  · intro sect hsect
    have hmem {r : Region} : r ∈ (regions sections symbols).filter (fun r => sect.contains r.range.min) ↔
        r ∈ regions sections symbols ∧ sect.contains r.range.min = true := List.mem_filter
    refine ⟨sect.stop_eq, ?named, ?starts, ?aliases, ?apart, ?covers⟩
    case named =>
      intro s hs hin
      obtain ⟨r, hr, hname, hmin⟩ :=
        (charted_stop sections (size_ne_zero hsize)).present s hs ⟨sect, hsect, CodeSection.contains_iff.1 hin⟩
      exact ⟨r, hmem.2 ⟨hr, hmin ▸ hin⟩, hname, hmin⟩
    case starts =>
      intro r hr
      obtain ⟨-, -, -, hstart⟩ := region_section hsize (hmem.1 hr).1
      exact hstart
    case aliases =>
      intro r hr t ht heq
      have hle := max_le_of_eq_start hapart hsize (hmem.1 hr).1 (hmem.1 ht).1 heq
      have hge := max_le_of_eq_start hapart hsize (hmem.1 ht).1 (hmem.1 hr).1 heq.symm
      exact AddressRange.ext heq (Address.ext (Nat.le_antisymm hle hge))
    case apart =>
      intro r hr t ht hne
      apply Bool.eq_false_iff.2
      intro hover
      obtain ⟨a, hra, hta⟩ := AddressRange.exists_common hover
      exact hne (eq_start_of_contains hapart hsize (hmem.1 hr).1 (hmem.1 ht).1 hra hta)
    case covers =>
      intro a
      rw [← exists_region_iff hapart hsize hsect]
      simp only [hmem, and_assoc]
  · intro r hr
    obtain ⟨sect, hsect, hin, -⟩ := region_section hsize hr
    refine ⟨sect, hsect, ?_⟩
    intro a ha
    obtain ⟨hle, hstop, -⟩ := (region_contains hapart hsize hr hsect hin).1 ha
    obtain ⟨hfrom, -⟩ := CodeSection.contains_iff.1 hin
    have hina : sect.contains a = true := CodeSection.contains_iff.2 ⟨Nat.le_trans hfrom hle, hstop⟩
    exact ⟨hina, fun other hother hother' => CodeSection.eq_of_contains hapart hother hsect hother' hina⟩

def laterText : CodeSection :=
  ⟨.clamp 0x1030, List.replicate 0x10 0x90⟩

def unsizedSymbols : List Symbol :=
  [⟨"c", .clamp 0x1030, none⟩, ⟨"b", .clamp 0x1010, none⟩, ⟨"a", .clamp 0x1008, none⟩,
    ⟨"stray", .clamp 0x1028, none⟩, ⟨"a_alias", .clamp 0x1008, none⟩]

theorem regions_tile_stray :
    let inText := (regions [text, laterText] unsizedSymbols).filter fun r => text.contains r.range.min
    [text, laterText].Pairwise CodeSection.Apart ∧ (∀ s ∈ unsizedSymbols, s.size = none) ∧
      text.stop = 0x1020 ∧ Tiles text unsizedSymbols inText ∧
      inText = [⟨"a", .clamp 0x1008, .clamp 0x100f, by decide⟩, ⟨"a_alias", .clamp 0x1008, .clamp 0x100f, by decide⟩,
        ⟨"b", .clamp 0x1010, .clamp 0x101f, by decide⟩] := by
  intro inText
  have hapart : [text, laterText].Pairwise CodeSection.Apart :=
    List.pairwise_pair.2 (CodeSection.apart_of_le (by decide))
  have hsize : ∀ s ∈ unsizedSymbols, s.size = none := by decide
  obtain ⟨hstop, htiles⟩ := (regions_tile hapart hsize).1 text List.mem_cons_self
  refine ⟨hapart, hsize, hstop, htiles, ?_⟩
  have hsorted : unsizedSymbols.mergeSort order =
      [⟨"a", .clamp 0x1008, none⟩, ⟨"a_alias", .clamp 0x1008, none⟩, ⟨"b", .clamp 0x1010, none⟩,
        ⟨"stray", .clamp 0x1028, none⟩, ⟨"c", .clamp 0x1030, none⟩] :=
    comparison_order.mergeSort_eq (by decide) (by decide) (by decide)
  dsimp only [inText]
  rw [regions, hsorted]
  decide

end Symbol

end InstructionCoverage

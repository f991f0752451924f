import InstructionCoverage.Disassembly
import InstructionCoverage.Proofs.Disassembly.Sweep
import InstructionCoverage.Proofs.Listing

/-!
The code sections of an object file are swept one by one into one listing. Its addresses ascend whatever the sections
are, but instructions of two sections overlap where the sections do, as they all may in a file that is yet to be linked.
-/

namespace InstructionCoverage

deriving instance DecidableEq for CodeSection
deriving instance DecidableEq for Image.Program
deriving instance DecidableEq for Image.Contents

namespace CodeSection

def Occupies (s : CodeSection) (a : Address) : Prop :=
  s.address ≤ a ∧ a.value < s.address.value + s.bytes.length

def Fits (s : CodeSection) : Prop :=
  s.address.value + s.bytes.length ≤ 0x10000000000000000

instance (s : CodeSection) : Decidable s.Fits := by
  unfold Fits
  infer_instance

def Disjoint (s t : CodeSection) : Prop :=
  ∀ a, ¬ (s.Occupies a ∧ t.Occupies a)

theorem disjoint_of_le {s t : CodeSection} (h : s.address.value + s.bytes.length ≤ t.address.value) : s.Disjoint t := by
  rintro a ⟨⟨-, hs⟩, ht, -⟩
  rw [Address.le_def] at ht
  omega

theorem sweep_within {d : InstructionDecoder} {s : CodeSection} (h : s.Fits) {i : Instruction}
    (hi : i ∈ Sweep.sweep d s.address s.bytes) :
    s.address ≤ i.address ∧ i.last.value < s.address.value + s.bytes.length := by
  rw [Fits] at h
  rw [Sweep.sweep_eq_steps d h] at hi
  obtain ⟨step, hstep, rfl⟩ := List.mem_map.1 hi
  obtain ⟨-, hpos, hto⟩ := Sweep.steps_bounds hstep
  obtain ⟨hfirst, hlast⟩ := Sweep.instructionAt_bounds s.address hpos (by omega)
  rw [Address.le_def, hfirst, hlast]
  omega

theorem sweep_apart {d : InstructionDecoder} {s : CodeSection} (h : s.Fits) {i j : Instruction}
    (hi : i ∈ Sweep.sweep d s.address s.bytes) (hj : j ∈ Sweep.sweep d s.address s.bytes)
    (hij : i.address < j.address) : i.last < j.address := by
  have hdisjoint := List.pairwise_iff_getElem.1 (Sweep.sweep_disjoint d h)
  obtain ⟨m, hm, rfl⟩ := List.getElem_of_mem hi
  obtain ⟨n, hn, rfl⟩ := List.getElem_of_mem hj
  rw [Address.lt_def] at hij
  rcases Nat.lt_trichotomy m n with hlt | rfl | hlt
  · exact hdisjoint m n hm hn hlt
  · omega
  · have hback := hdisjoint n m hn hm hlt
    have hle := (Sweep.sweep d s.address s.bytes)[n].address_le_last
    rw [Address.lt_def] at hback
    rw [Address.le_def] at hle
    omega

end CodeSection

namespace InstructionListing

theorem mem_of_mem_sorted {l : List Instruction} {i : Instruction} (h : i ∈ sorted l) : i ∈ l := by
  have hkept := (eraseRepsBy_sublist _).subset h
  exact (List.mergeSort_perm l byAddress).mem_iff.1 hkept

theorem instructionsFrom_sublist (l : InstructionListing) (start : Address) :
    (l.instructionsFrom start).Sublist l.instructions :=
  List.dropWhile_sublist _

end InstructionListing

namespace Disassembly

open CodeSection InstructionListing

section Sections

variable {d : InstructionDecoder} {sections : List CodeSection}

def Clash (d : InstructionDecoder) (sections : List CodeSection) (i j : Instruction) : Prop :=
  ∃ (x y : Nat) (s t : CodeSection), x ≠ y ∧ sections[x]? = some s ∧ sections[y]? = some t ∧
    i ∈ Sweep.sweep d s.address s.bytes ∧ j ∈ Sweep.sweep d t.address t.bytes ∧ s.Occupies j.address ∧ t.Occupies j.address

theorem mem_ofSections {symbols : List Symbol} {i : Instruction}
    (h : i ∈ (ofSections d sections symbols).instructions) :
    ∃ (x : Nat) (s : CodeSection), sections[x]? = some s ∧ i ∈ Sweep.sweep d s.address s.bytes := by
  obtain ⟨s, hs, hi⟩ := List.mem_flatMap.1 (mem_of_mem_sorted h)
  obtain ⟨x, hx⟩ := List.mem_iff_getElem?.1 hs
  exact ⟨x, s, hx, hi⟩

theorem apart_or_clash (hfits : ∀ s ∈ sections, s.Fits) {symbols : List Symbol} {i j : Instruction}
    (hi : i ∈ (ofSections d sections symbols).instructions) (hj : j ∈ (ofSections d sections symbols).instructions)
    (hij : i.address < j.address) : i.last < j.address ∨ Clash d sections i j := by
  obtain ⟨x, s, hx, hi⟩ := mem_ofSections hi
  obtain ⟨y, t, hy, hj⟩ := mem_ofSections hj
  have hs := hfits s (List.mem_of_getElem? hx)
  have ht := hfits t (List.mem_of_getElem? hy)
  by_cases hxy : x = y
  · subst hxy
    obtain rfl : s = t := Option.some.inj (hx.symm.trans hy)
    exact .inl (sweep_apart hs hi hj hij)
  by_cases hlt : i.last < j.address
  · exact .inl hlt
  obtain ⟨hifirst, hilast⟩ := sweep_within hs hi
  obtain ⟨hjfirst, hjlast⟩ := sweep_within ht hj
  have hjle := j.address_le_last
  refine .inr ⟨x, y, s, t, hxy, hx, hy, hi, hj, ⟨?_, ?_⟩, hjfirst, ?_⟩
  · rw [Address.le_def] at hifirst ⊢
    rw [Address.lt_def] at hij
    omega
  · rw [Address.lt_def] at hlt
    omega
  · rw [Address.le_def] at hjle
    omega

theorem not_clash (h : sections.Pairwise CodeSection.Disjoint) (i j : Instruction) : ¬ Clash d sections i j := by
  rintro ⟨x, y, s, t, hxy, hx, hy, -, -, hs, ht⟩
  obtain ⟨hxlt, rfl⟩ := List.getElem?_eq_some_iff.1 hx
  obtain ⟨hylt, rfl⟩ := List.getElem?_eq_some_iff.1 hy
  rcases Nat.lt_or_gt_of_ne hxy with hlt | hlt
  · exact List.pairwise_iff_getElem.1 h x y hxlt hylt hlt _ ⟨hs, ht⟩
  · exact List.pairwise_iff_getElem.1 h y x hylt hxlt hlt _ ⟨ht, hs⟩

end Sections

theorem ofObject_ok {bytes : List UInt8} {hint : Option String} {m : Disassembler} {r : Disassembly}
    (h : ofObject bytes hint m = .ok r) :
    ∃ p, Image.identify bytes = .program p ∧ r.listing = ofSections (m r.architecture) p.sections p.symbols := by
  rw [ofObject] at h
  cases hc : Image.identify bytes with
  | malformed =>
    rw [hc] at h
    cases h
  | unsupported =>
    rw [hc] at h
    cases ha : chooseArchitecture hint none <;> rw [ha] at h <;> cases h
  | program p =>
    rw [hc] at h
    dsimp only at h
    cases ha : chooseArchitecture hint p.architecture with
    | error e =>
      rw [ha] at h
      cases h
    | ok a =>
      rw [ha] at h
      cases h
      exact ⟨p, rfl, rfl⟩

/-- From any address on, the listing of an object file ascends. Instructions overlap in it only where two of its code
sections share an address, so if no two do it has no overlaps. -/
theorem ofObject_overlaps {bytes : List UInt8} {hint : Option String} {m : Disassembler} {r : Disassembly}
    (h : ofObject bytes hint m = .ok r) (start : Address) :
    let listed := r.listing.toListing.instructionsFrom start
    listed.Pairwise (fun i j => i.address < j.address) ∧
      ∃ p, Image.identify bytes = .program p ∧
        ((∀ s ∈ p.sections, s.Fits) →
          listed.Pairwise (fun i j => i.last < j.address ∨ Clash (m r.architecture) p.sections i j) ∧
          (p.sections.Pairwise CodeSection.Disjoint → listed.Pairwise fun i j => i.last < j.address)) := by
  intro listed
  have hsublist : listed.Sublist r.listing.instructions := instructionsFrom_sublist r.listing start
  have hascending : listed.Pairwise fun i j => i.address < j.address := r.listing.ascending.sublist hsublist
  obtain ⟨p, hp, hr⟩ := ofObject_ok h
  refine ⟨hascending, p, hp, fun hfits => ?_⟩
  have hclash : listed.Pairwise fun i j => i.last < j.address ∨ Clash (m r.architecture) p.sections i j := by
    refine hascending.imp_of_mem ?_
    intro i j hi hj hij
    have hi' := hsublist.subset hi
    have hj' := hsublist.subset hj
    rw [hr] at hi' hj'
    exact apart_or_clash hfits hi' hj' hij
  refine ⟨hclash, fun hdisjoint => hclash.imp ?_⟩
  intro i j hij
  exact hij.resolve_right (not_clash hdisjoint i j)

def word (n : Nat) : List UInt8 :=
  [UInt8.ofNat n, 0, 0, 0]

def sectionEntry (fields : List Nat) : List UInt8 :=
  fields.flatMap word

def twoFunctions (address : Nat) : List UInt8 :=
  let names := [".text.f", ".text.g", ".shstrtab"].flatMap fun name =>
    name.toList.map (fun c => UInt8.ofNat c.toNat) ++ [0]
  [0x7f, 0x45, 0x4c, 0x46, 1, 1, 1, 0] ++ List.replicate 8 0 ++ [1, 0, 3, 0] ++ [1, 0, 0, 88, 0].flatMap word ++
    [52, 0, 0, 0, 0, 0, 40, 0, 4, 0, 3, 0] ++ [0xb8, 1, 0, 0, 0, 0xc3] ++ [0x31, 0xc0, 0xc3] ++ 0 :: names ++
    sectionEntry (List.replicate 10 0) ++ sectionEntry [1, 1, 6, 0, 52, 6, 0, 0, 1, 0] ++
    sectionEntry [9, 1, 6, address, 58, 3, 0, 0, 1, 0] ++ sectionEntry [17, 3, 0, 0, 61, 27, 0, 0, 1, 0]

def functionSections (address : Nat) : List CodeSection :=
  [⟨.zero, [0xb8, 1, 0, 0, 0, 0xc3]⟩, ⟨.clamp address, [0x31, 0xc0, 0xc3]⟩]

theorem identify_twoFunctions :
    Image.identify (twoFunctions 0) = .program ⟨some .x86, functionSections 0, []⟩ ∧
      Image.identify (twoFunctions 6) = .program ⟨some .x86, functionSections 6, []⟩ := by
  decide +kernel

theorem ofObject_twoFunctions {address : Nat}
    (h : Image.identify (twoFunctions address) = .program ⟨some .x86, functionSections address, []⟩) :
    ofObject (twoFunctions address) none =
      .ok ⟨.x86, ofSections Architecture.x86.decoder (functionSections address) []⟩ := by
  rw [ofObject, h]
  rfl

theorem ofObject_overlaps_linked :
    ∃ r, ofObject (twoFunctions 6) none = .ok r ∧ (∀ s ∈ functionSections 6, s.Fits) ∧
      (functionSections 6).Pairwise CodeSection.Disjoint ∧
      (r.listing.toListing.instructionsFrom .zero).Pairwise fun i j => i.last < j.address := by
  have hr := ofObject_twoFunctions identify_twoFunctions.2
  have hfits : ∀ s ∈ functionSections 6, s.Fits := by decide
  have hdisjoint : (functionSections 6).Pairwise CodeSection.Disjoint := by
    refine .cons ?_ (List.pairwise_singleton _ _)
    intro s hs
    rw [List.mem_singleton.1 hs]
    exact CodeSection.disjoint_of_le (by decide)
  obtain ⟨-, p, hp, hlisted⟩ := ofObject_overlaps hr .zero
  rw [identify_twoFunctions.2] at hp
  cases hp
  exact ⟨_, hr, hfits, hdisjoint, (hlisted hfits).2 hdisjoint⟩

theorem swept_twoFunctions :
    (functionSections 0).flatMap (fun s => Sweep.sweep Architecture.x86.decoder s.address s.bytes) =
      [⟨.zero, 5⟩, ⟨.clamp 5, 1⟩, ⟨.zero, 2⟩, ⟨.clamp 2, 1⟩] := by
  decide +kernel

theorem sorted_twoFunctions :
    InstructionListing.sorted [⟨.zero, 5⟩, ⟨.clamp 5, 1⟩, ⟨.zero, 2⟩, ⟨.clamp 2, 1⟩] =
      [⟨.zero, 5⟩, ⟨.clamp 2, 1⟩, ⟨.clamp 5, 1⟩] := by
  have hmerged : List.mergeSort [⟨.zero, 5⟩, ⟨.clamp 5, 1⟩, ⟨.zero, 2⟩, ⟨.clamp 2, 1⟩] InstructionListing.byAddress =
      [⟨.zero, 5⟩, ⟨.zero, 2⟩, ⟨.clamp 2, 1⟩, ⟨.clamp 5, 1⟩] := by
    simp [List.mergeSort, List.MergeSort.Internal.splitInTwo, InstructionListing.byAddress, Address.le_def,
      Address.zero, Address.clamp]
  rw [InstructionListing.sorted, hmerged]
  decide

/-- Not linked, the second function stands inside the first instruction of the first. -/
theorem unlinked_overlaps :
    ¬ ∀ (bytes : List UInt8) (r : Disassembly), ofObject bytes none = .ok r →
      (∀ p, Image.identify bytes = .program p → ∀ s ∈ p.sections, s.Fits) → ∀ start,
      (r.listing.toListing.instructionsFrom start).Pairwise fun i j => i.address < j.address ∧ i.last < j.address := by
  intro hclaim
  have hfits : ∀ p, Image.identify (twoFunctions 0) = .program p → ∀ s ∈ p.sections, s.Fits := by
    intro p hp
    rw [identify_twoFunctions.1] at hp
    cases hp
    decide
  have hpairwise := hclaim (twoFunctions 0) _ (ofObject_twoFunctions identify_twoFunctions.1) hfits .zero
  have hlisted : ((ofSections Architecture.x86.decoder (functionSections 0) []).toListing.instructionsFrom .zero).map
      (fun i => (i.address.value, i.last.value)) = [(0, 4), (2, 2), (5, 5)] := by
    change ((InstructionListing.sorted _).dropWhile _).map _ = _
    rw [swept_twoFunctions, sorted_twoFunctions]
    decide
  have hdisjoint := List.pairwise_map (f := fun i => (i.address.value, i.last.value)) (R := fun a b => a.2 < b.1) |>.2
    (hpairwise.imp fun hij => hij.2)
  rw [hlisted] at hdisjoint
  exact absurd hdisjoint (by decide)

end Disassembly

end InstructionCoverage

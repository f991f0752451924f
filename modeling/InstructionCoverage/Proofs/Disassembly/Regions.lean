import InstructionCoverage.Disassembly.Symbols
import InstructionCoverage.Proofs.Sorting
import Mathlib.Data.List.Find

namespace InstructionCoverage

namespace CodeSection

def behind (s : CodeSection) : Nat :=
  s.address.value + s.bytes.length

theorem stop_eq (s : CodeSection) : s.stop = min s.behind 0xffffffffffffffff := rfl

end CodeSection

namespace Symbol

variable {sections : List CodeSection} {symbols l : List Symbol} {s t : Symbol}

section Keys

theorem order_iff : order s t = true ↔ s.address < t.address ∨ s.address = t.address ∧ s.name ≤ t.name := by
  simp only [order, Bool.or_eq_true, Bool.and_eq_true, decide_eq_true_eq]

theorem sameKey_iff : sameKey s t = true ↔ s.address = t.address ∧ s.name = t.name := by
  simp only [sameKey, Bool.and_eq_true, decide_eq_true_eq]

theorem sameKey_comm (s t : Symbol) : sameKey s t = sameKey t s := by
  rw [Bool.eq_iff_iff, sameKey_iff, sameKey_iff]
  exact and_congr eq_comm eq_comm

theorem sameKey_congr (h : sameKey s t = true) : sameKey s = sameKey t := by
  funext u
  obtain ⟨haddress, hname⟩ := sameKey_iff.1 h
  rw [sameKey, sameKey, haddress, hname]

theorem order_of_sameKey (h : sameKey s t = true) : order s t = true := by
  obtain ⟨haddress, hname⟩ := sameKey_iff.1 h
  exact order_iff.2 (.inr ⟨haddress, hname ▸ String.le_refl _⟩)

theorem comparison_order : Comparison order where
  trans s t u hst htu := by
    simp only [order_iff, Address.lt_def, Address.ext_iff] at *
    rcases hst with hst | ⟨hst, hname⟩ <;> rcases htu with htu | ⟨htu, hname'⟩
    · exact .inl (by omega)
    · exact .inl (by omega)
    · exact .inl (by omega)
    · exact .inr ⟨by omega, String.le_trans hname hname'⟩
  total s t := by
    simp only [Bool.or_eq_true, order_iff, Address.lt_def, Address.ext_iff]
    rcases Nat.lt_trichotomy s.address.value t.address.value with h | h | h
    · exact .inl (.inl h)
    · exact (String.le_total s.name t.name).imp (fun hn => .inr ⟨h, hn⟩) fun hn => .inr ⟨h.symm, hn⟩
    · exact .inr (.inl h)

def Before (s t : Symbol) : Prop :=
  s.address < t.address ∨ s.address = t.address ∧ s.name < t.name

theorem before_of_order (h : order s t = true) (hne : sameKey s t = false) : Before s t := by
  rcases order_iff.1 h with h | ⟨haddress, hname⟩
  · exact .inl h
  · refine .inr ⟨haddress, String.not_le.1 fun hback => ?_⟩
    have hkey := sameKey_iff.2 ⟨haddress, String.le_antisymm hname hback⟩
    rw [hkey] at hne
    cases hne

theorem Before.address_le (h : Before s t) : s.address ≤ t.address := by
  rcases h with h | ⟨h, -⟩
  · exact Nat.le_of_lt h
  · rw [h]
    exact Nat.le_refl _

theorem Before.not_sameKey (h : Before s t) : ¬ sameKey t s = true := by
  intro hkey
  obtain ⟨haddress, hname⟩ := sameKey_iff.1 hkey
  rcases h with h | ⟨-, h⟩
  · rw [haddress, Address.lt_def] at h
    omega
  · exact String.lt_irrefl _ (hname ▸ h)

theorem Before.trans_order {u : Symbol} (h : Before s t) (h' : order t u = true) : Before s u := by
  rw [order_iff] at h'
  rcases h with h | ⟨haddress, hname⟩
  · left
    rcases h' with h' | ⟨haddress', -⟩
    · exact Nat.lt_trans h h'
    · rwa [← haddress']
  · rw [Before, haddress]
    exact h'.imp_right fun ⟨haddress', hname'⟩ => ⟨haddress', Std.lt_of_lt_of_le hname hname'⟩

end Keys

section Listed

theorem find?_self (h : l.Pairwise Before) (hs : s ∈ l) : l.find? (sameKey s) = some s := by
  induction h with
  | nil => cases hs
  | @cons t l ht _ ih =>
    rw [List.find?_cons]
    rcases List.mem_cons.1 hs with rfl | hs
    · rw [sameKey_iff.2 ⟨rfl, rfl⟩]
    · rw [Bool.eq_false_iff.2 (ht s hs).not_sameKey]
      exact ih hs

def listed (symbols : List Symbol) : List Symbol :=
  (symbols.mergeSort order).eraseRepsBy sameKey

theorem before_listed (symbols : List Symbol) : (listed symbols).Pairwise Before :=
  pairwise_eraseRepsBy (fun _ _ _ hst htu => hst.trans_order htu) (fun _ _ => before_of_order)
    (comparison_order.sorted symbols)

theorem find?_listed (symbols : List Symbol) (s : Symbol) :
    (listed symbols).find? (sameKey s) = symbols.find? (sameKey s) := by
  have hkeys (a b : Symbol) (h : sameKey a b = true) : sameKey s a = sameKey s b := by
    rw [sameKey_comm s, sameKey_comm s, sameKey_congr h]
  have hties (a b : Symbol) (ha : sameKey s a = true) (hb : sameKey s b = true) : order a b = true := by
    apply order_of_sameKey
    rw [← sameKey_congr ha]
    exact hb
  exact (find?_eraseRepsBy hkeys _).trans (comparison_order.find?_mergeSort hties)

theorem mem_listed : s ∈ listed symbols ↔ symbols.find? (sameKey s) = some s := by
  rw [← find?_listed]
  exact ⟨find?_self (before_listed symbols), List.mem_of_find?_eq_some⟩

theorem exists_listed (hs : s ∈ symbols) : ∃ t ∈ listed symbols, sameKey s t = true := by
  have hsome : (symbols.find? (sameKey s)).isSome = true := List.find?_isSome.2 ⟨s, hs, sameKey_iff.2 ⟨rfl, rfl⟩⟩
  obtain ⟨t, ht⟩ := Option.isSome_iff_exists.1 hsome
  rw [← find?_listed] at ht
  exact ⟨t, List.mem_of_find?_eq_some ht, List.find?_some ht⟩

theorem mem_of_listed (hs : s ∈ listed symbols) : s ∈ symbols :=
  List.mem_of_find?_eq_some (mem_listed.1 hs)

end Listed

section Next

def nextAddress? (symbols : List Symbol) (a : Address) : Option Nat :=
  ((symbols.map fun t => t.address.value).filter fun v => a.value < v).min?

theorem nextAddress?_eq_none {a : Address} : nextAddress? symbols a = none ↔ ∀ t ∈ symbols, ¬ a < t.address := by
  rw [nextAddress?, List.min?_eq_none_iff, List.filter_eq_nil_iff, List.forall_mem_map]
  simp only [decide_eq_true_eq, Address.lt_def]

theorem nextAddress?_eq_some {a : Address} {v : Nat} : nextAddress? symbols a = some v ↔
    (∃ t ∈ symbols, t.address.value = v ∧ a < t.address) ∧ ∀ t ∈ symbols, a < t.address → v ≤ t.address.value := by
  rw [nextAddress?, List.min?_eq_some_iff]
  simp only [List.mem_filter, List.mem_map, decide_eq_true_eq, Address.lt_def]
  constructor
  · rintro ⟨⟨⟨t, ht, rfl⟩, hlt⟩, hleast⟩
    exact ⟨⟨t, ht, rfl, hlt⟩, fun u hu hless => hleast _ ⟨⟨u, hu, rfl⟩, hless⟩⟩
  · rintro ⟨⟨t, ht, rfl, hlt⟩, hleast⟩
    refine ⟨⟨⟨t, ht, rfl⟩, hlt⟩, ?_⟩
    rintro _ ⟨⟨u, hu, rfl⟩, hless⟩
    exact hleast u hu hless

theorem find?_later {earlier later : List Symbol} (h : listed symbols = earlier ++ s :: later) :
    (later.find? fun t => s.address < t.address).map (fun t => t.address.value) = nextAddress? symbols s.address := by
  have hbefore := before_listed symbols
  rw [h, List.pairwise_append, List.pairwise_cons] at hbefore
  obtain ⟨-, ⟨-, hlater⟩, hearlier⟩ := hbefore
  -- Earlier symbols have no greater address, so whichever has one is listed later.
  have hgreater {t : Symbol} (ht : t ∈ symbols) (hlt : s.address < t.address) :
      ∃ u ∈ later, u.address = t.address := by
    obtain ⟨u, hu, hkey⟩ := exists_listed ht
    have haddress := (sameKey_iff.1 hkey).1
    rw [haddress, Address.lt_def] at hlt
    rw [h, List.mem_append, List.mem_cons] at hu
    rcases hu with hu | rfl | hu
    · have hle := (hearlier u hu s List.mem_cons_self).address_le
      rw [Address.le_def] at hle
      omega
    · omega
    · exact ⟨u, hu, haddress.symm⟩
  cases hfind : later.find? fun t => s.address < t.address with
  | none =>
    symm
    apply nextAddress?_eq_none.2
    intro t ht hlt
    obtain ⟨u, hu, hsame⟩ := hgreater ht hlt
    have hnot := List.find?_eq_none.1 hfind u hu
    rw [hsame] at hnot
    exact hnot (decide_eq_true hlt)
  | some t =>
    symm
    obtain ⟨hlt, before, after, rfl, hskipped⟩ := List.find?_eq_some_iff_append.1 hfind
    have ht : t ∈ symbols := by
      apply mem_of_listed
      rw [h]
      simp
    refine nextAddress?_eq_some.2 ⟨⟨t, ht, rfl, of_decide_eq_true hlt⟩, ?_⟩
    intro u hu hless
    obtain ⟨w, hw, hsame⟩ := hgreater hu hless
    rw [← hsame] at hless ⊢
    rcases List.mem_append.1 hw with hw | hw
    · have hnot := hskipped w hw
      rw [decide_eq_true hless] at hnot
      cases hnot
    · rcases List.mem_cons.1 hw with rfl | hw
      · exact Nat.le_refl _
      · rw [List.pairwise_append, List.pairwise_cons] at hlater
        exact (hlater.2.1.1 w hw).address_le

end Next

section Charted

def boundary (symbols : List Symbol) (stop : Nat) (s : Symbol) : Nat :=
  min stop (match s.size with
    | some size => s.address.value + size
    | none => (nextAddress? symbols s.address).getD stop)

def Within (stop : CodeSection → Nat) (a : Address) (sect : CodeSection) : Prop :=
  sect.address ≤ a ∧ a.value < stop sect

instance (stop : CodeSection → Nat) (a : Address) (sect : CodeSection) : Decidable (Within stop a sect) :=
  inferInstanceAs (Decidable (_ ∧ _))

theorem contains_eq (sect : CodeSection) (a : Address) : sect.contains a = decide (Within CodeSection.stop a sect) :=
  (Bool.decide_and _ _).symm

/-- The regions are those of the symbols in the sections, where each section ends before `stop`: one for each address and
name, by the first section with the address and the first symbol with both. -/
structure Charted (stop : CodeSection → Nat) (sections : List CodeSection) (symbols : List Symbol)
    (regions : List Region) : Prop where
  ordered : regions.Pairwise fun r t => r.range.min < t.range.min ∨ r.range.min = t.range.min ∧ r.name < t.name
  present : ∀ s ∈ symbols, (∃ sect ∈ sections, Within stop s.address sect) →
    ∃ r ∈ regions, r.name = s.name ∧ r.range.min = s.address
  described : ∀ r ∈ regions, ∃ s sect, symbols.find? (sameKey s) = some s ∧
    sections.find? (fun sect => Within stop s.address sect) = some sect ∧
    r.name = s.name ∧ r.range.min = s.address ∧ r.range.max.value + 1 = boundary symbols (stop sect) s

theorem boundary_gt (symbols : List Symbol) {stop : Nat} (hstop : s.address.value < stop) (hsize : s.size ≠ some 0) :
    s.address.value < boundary symbols stop s := by
  rw [boundary]
  cases hs : s.size with
  | some size =>
    have hpos : size ≠ 0 := fun hzero => hsize (hs.trans (congrArg some hzero))
    dsimp only
    omega
  | none =>
    cases hnext : nextAddress? symbols s.address with
    | none => simpa using hstop
    | some v =>
      obtain ⟨⟨t, -, rfl, hlt⟩, -⟩ := nextAddress?_eq_some.1 hnext
      rw [Address.lt_def] at hlt
      exact Nat.lt_min.2 ⟨hstop, hlt⟩

theorem boundary_lt (symbols : List Symbol) (sect : CodeSection) (s : Symbol) :
    boundary symbols sect.stop s < 0x10000000000000000 := by
  have hle : boundary symbols sect.stop s ≤ sect.stop := Nat.min_le_left _ _
  have hstop := sect.stop_eq
  omega

theorem boundary_min (symbols : List Symbol) (b c : Nat) (s : Symbol) :
    boundary symbols (min b c) s = min c (boundary symbols b s) := by
  rw [boundary, boundary]
  cases s.size with
  | some size =>
    dsimp only
    omega
  | none =>
    cases nextAddress? symbols s.address <;> dsimp only [Option.getD_none, Option.getD_some] <;> omega

theorem regionUpTo?_eq_some {stop : Nat} (hstop : stop < 0x10000000000000000) {r : Region} :
    s.regionUpTo? stop = some r ↔ r.name = s.name ∧ r.range.min = s.address ∧ r.range.max.value + 1 = stop := by
  have hlast : Address.ofNat? (stop - 1) = some ⟨stop - 1, by omega⟩ := dif_pos (by omega)
  rw [regionUpTo?, hlast]
  dsimp only
  constructor
  · intro h
    split at h
    · rename_i hless
      cases h
      refine ⟨rfl, rfl, ?_⟩
      dsimp only
      omega
    · cases h
  · rintro ⟨hname, hmin, hmax⟩
    have hle := r.range.min_le_max
    rw [hmin, Address.le_def] at hle
    have hinside : s.address.value < stop ∧ s.address ≤ ⟨stop - 1, by omega⟩ := by
      rw [Address.le_def]
      dsimp only
      omega
    have hmax' : r.range.max = ⟨stop - 1, by omega⟩ := Address.ext (by dsimp only; omega)
    obtain ⟨name, range⟩ := r
    obtain rfl : name = s.name := hname
    have hrange : range = ⟨s.address, ⟨stop - 1, by omega⟩, hinside.2⟩ := AddressRange.ext hmin hmax'
    rw [dif_pos hinside, hrange]

theorem within_of_find? {stop : CodeSection → Nat} {a : Address} {sect : CodeSection}
    (h : sections.find? (fun sect => Within stop a sect) = some sect) : Within stop a sect := by
  have hdecide := List.find?_some h
  exact of_decide_eq_true hdecide

theorem exists_placed {stop : CodeSection → Nat} (hsize : ∀ s ∈ symbols, s.size ≠ some 0) (hs : s ∈ symbols)
    (hinside : ∃ sect ∈ sections, Within stop s.address sect) :
    ∃ t ∈ listed symbols, s.address = t.address ∧ s.name = t.name ∧
      ∃ sect, sections.find? (fun sect => Within stop t.address sect) = some sect ∧
        t.address.value < boundary symbols (stop sect) t := by
  obtain ⟨t, ht, hkey⟩ := exists_listed hs
  obtain ⟨haddress, hname⟩ := sameKey_iff.1 hkey
  obtain ⟨other, hother, hwithin⟩ := hinside
  rw [haddress] at hwithin
  have hsome : (sections.find? fun sect => Within stop t.address sect).isSome = true :=
    List.find?_isSome.2 ⟨other, hother, decide_eq_true hwithin⟩
  obtain ⟨sect, hsect⟩ := Option.isSome_iff_exists.1 hsome
  have hstop := (within_of_find? hsect).2
  exact ⟨t, ht, haddress, hname, sect, hsect, boundary_gt symbols hstop (hsize t (mem_of_listed ht))⟩

def chart? (sections : List CodeSection) (symbols : List Symbol) (s : Symbol) : Option Region :=
  (sections.find? fun sect => sect.contains s.address).bind fun sect => s.regionUpTo? (boundary symbols sect.stop s)

theorem region?_eq {earlier later : List Symbol} (h : listed symbols = earlier ++ s :: later) :
    s.region? sections later = chart? sections symbols s := by
  have hlimit (sect : CodeSection) : min (s.limit sect later) sect.stop = boundary symbols sect.stop s := by
    have hnext := find?_later h
    rw [limit, boundary]
    cases s.size with
    | some size =>
      have hstop := sect.stop_eq
      simp only [Address.addClamped, Address.clamp]
      omega
    | none =>
      dsimp only
      rw [← hnext, Nat.min_comm]
      cases later.find? fun t => s.address < t.address <;> rfl
  rw [region?, chart?]
  simp only [hlimit]

theorem regionsOfSorted_eq {earlier later : List Symbol} (h : listed symbols = earlier ++ later) :
    regionsOfSorted sections later = later.filterMap (chart? sections symbols) := by
  induction later generalizing earlier with
  | nil => rfl
  | cons s later ih =>
    have hrest := ih (h.trans (List.append_cons earlier s later))
    rw [regionsOfSorted, region?_eq h, List.filterMap_cons, hrest]
    cases chart? sections symbols s <;> rfl

theorem regions_eq (sections : List CodeSection) (symbols : List Symbol) :
    regions sections symbols = (listed symbols).filterMap (chart? sections symbols) :=
  regionsOfSorted_eq (List.nil_append (listed symbols)).symm

theorem chart?_eq_some {r : Region} : chart? sections symbols s = some r ↔
    ∃ sect, sections.find? (fun sect => Within CodeSection.stop s.address sect) = some sect ∧
      r.name = s.name ∧ r.range.min = s.address ∧ r.range.max.value + 1 = boundary symbols sect.stop s := by
  simp only [chart?, contains_eq, Option.bind_eq_some_iff, regionUpTo?_eq_some (boundary_lt symbols _ s)]

theorem charted_stop (sections : List CodeSection) {symbols : List Symbol} (hsize : ∀ s ∈ symbols, s.size ≠ some 0) :
    Charted CodeSection.stop sections symbols (regions sections symbols) where
  ordered := by
    rw [regions_eq, List.pairwise_filterMap]
    refine (before_listed symbols).imp ?_
    intro s t hst r hr u hu
    obtain ⟨-, -, hname, hmin, -⟩ := chart?_eq_some.1 hr
    obtain ⟨-, -, hname', hmin', -⟩ := chart?_eq_some.1 hu
    rw [hname, hmin, hname', hmin']
    exact hst
  present := by
    intro s hs hinside
    obtain ⟨t, ht, haddress, hname, sect, hsect, hgt⟩ := exists_placed hsize hs hinside
    have hlt := boundary_lt symbols sect t
    let last : Address := ⟨boundary symbols sect.stop t - 1, by omega⟩
    have hle : t.address ≤ last := Nat.le_sub_one_of_lt hgt
    refine ⟨⟨t.name, t.address, last, hle⟩, ?_, hname.symm, haddress.symm⟩
    rw [regions_eq]
    exact List.mem_filterMap.2 ⟨t, ht, chart?_eq_some.2 ⟨sect, hsect, rfl, rfl, Nat.sub_add_cancel (by omega)⟩⟩
  described := by
    intro r hr
    rw [regions_eq] at hr
    obtain ⟨s, hs, hchart⟩ := List.mem_filterMap.1 hr
    obtain ⟨sect, hsect, hregion⟩ := chart?_eq_some.1 hchart
    exact ⟨s, sect, mem_listed.1 hs, hsect, hregion⟩

end Charted

section LastAddress

def TakesLast (sections : List CodeSection) (symbols : List Symbol) : Prop :=
  ∃ s sect, symbols.find? (sameKey s) = some s ∧
    sections.find? (fun sect => Within CodeSection.behind s.address sect) = some sect ∧
    0x10000000000000000 ≤ boundary symbols sect.behind s

theorem within_behind {a : Address} (h : a.value < 0xffffffffffffffff) (sect : CodeSection) :
    Within CodeSection.stop a sect ↔ Within CodeSection.behind a sect := by
  rw [Within, Within, CodeSection.stop_eq]
  apply and_congr_right
  intro _
  omega

theorem boundary_behind {sect : CodeSection} (h : boundary symbols sect.behind s < 0x10000000000000000) :
    boundary symbols sect.stop s = boundary symbols sect.behind s := by
  rw [CodeSection.stop_eq, boundary_min]
  omega

theorem charted_behind (hsize : ∀ s ∈ symbols, s.size ≠ some 0) (h : ¬ TakesLast sections symbols) :
    Charted CodeSection.behind sections symbols (regions sections symbols) := by
  have hstop := charted_stop sections hsize
  have hbelow {s : Symbol} {sect : CodeSection} (hs : symbols.find? (sameKey s) = some s)
      (hsect : sections.find? (fun sect => Within CodeSection.behind s.address sect) = some sect) :
      boundary symbols sect.behind s < 0x10000000000000000 :=
    Nat.lt_of_not_le fun hle => h ⟨s, sect, hs, hsect, hle⟩
  -- Below the last address both ends of a section tell the same, of what is in it and where a region ends.
  refine ⟨hstop.ordered, ?_, ?_⟩
  · intro s hs hinside
    obtain ⟨t, ht, haddress, -, sect, hsect, hgt⟩ := exists_placed hsize hs hinside
    have hlt := hbelow (mem_listed.1 ht) hsect
    apply hstop.present s hs
    refine ⟨sect, List.mem_of_find?_eq_some hsect, ?_⟩
    rw [haddress]
    exact (within_behind (by omega) sect).2 (within_of_find? hsect)
  · intro r hr
    obtain ⟨s, sect, hs, hsect, hname, hmin, hmax⟩ := hstop.described r hr
    have hinside := (within_of_find? hsect).2
    rw [CodeSection.stop_eq] at hinside
    have hbehind : sections.find? (fun sect => Within CodeSection.behind s.address sect) = some sect := by
      rw [← hsect]
      apply List.find?_congr
      intro t _
      exact decide_eq_decide.2 (within_behind (by omega) t).symm
    rw [boundary_behind (hbelow hs hbehind)] at hmax
    exact ⟨s, sect, hs, hbehind, hname, hmin, hmax⟩

theorem not_charted_behind (hsize : ∀ s ∈ symbols, s.size ≠ some 0) (h : TakesLast sections symbols) :
    ¬ Charted CodeSection.behind sections symbols (regions sections symbols) := by
  intro hbehind
  obtain ⟨s, sect, hs, hsect, hbound⟩ := h
  have hin := List.mem_of_find?_eq_some hs
  obtain ⟨r, hr, hname, hmin⟩ := hbehind.present s hin ⟨sect, List.mem_of_find?_eq_some hsect, within_of_find? hsect⟩
  obtain ⟨t, first, ht, hfirst, hname', hmin', hmax⟩ := hbehind.described r hr
  have hkey : sameKey s t = true := sameKey_iff.2 ⟨hmin.symm.trans hmin', hname.symm.trans hname'⟩
  rw [← sameKey_congr hkey, hs] at ht
  cases ht
  rw [hsect] at hfirst
  cases hfirst
  obtain ⟨t, first, -, -, -, -, hmax'⟩ := (charted_stop sections hsize).described r hr
  have hlt := boundary_lt symbols first t
  omega

end LastAddress

/-- Symbols become one region for each address and name in the sections, up to the end of the symbol, the next greater
symbol address or the end of the section, whichever comes first. The last address there is counts as outside all sections,
so this is all that the sections occupy exactly where no symbol's region would take it in. -/
theorem regions_charted (sections : List CodeSection) {symbols : List Symbol} (hsize : ∀ s ∈ symbols, s.size ≠ some 0) :
    Charted CodeSection.stop sections symbols (regions sections symbols) ∧
      (Charted CodeSection.behind sections symbols (regions sections symbols) ↔ ¬ TakesLast sections symbols) :=
  ⟨charted_stop sections hsize, fun h hlast => not_charted_behind hsize hlast h, charted_behind hsize⟩

def text : CodeSection :=
  ⟨.clamp 0x1000, List.replicate 0x20 0x90⟩

def textSymbols : List Symbol :=
  [⟨"b", .clamp 0x1010, none⟩, ⟨"a", .clamp 0x1000, some 0x18⟩, ⟨"outside", .clamp 0x5000, none⟩,
    ⟨"a", .clamp 0x1000, none⟩]

theorem regions_charted_repeated :
    (∀ s ∈ textSymbols, s.size ≠ some 0) ∧ ¬ TakesLast [text] textSymbols ∧
      Charted CodeSection.behind [text] textSymbols (regions [text] textSymbols) := by
  have hsize : ∀ s ∈ textSymbols, s.size ≠ some 0 := by decide
  have hlast : ¬ TakesLast [text] textSymbols := by
    rintro ⟨s, sect, -, hsect, hbound⟩
    have hle : boundary textSymbols sect.behind s ≤ sect.behind := Nat.min_le_left _ _
    rw [List.mem_singleton.1 (List.mem_of_find?_eq_some hsect)] at hle hbound
    have hbehind : text.behind = 0x1020 := by decide
    omega
  exact ⟨hsize, hlast, (regions_charted [text] hsize).2.2 hlast⟩

def lastCode : CodeSection :=
  ⟨.clamp 0xfffffffffffffffd, [0x90, 0x90, 0xc3]⟩

def lastSymbols : List Symbol :=
  [⟨"f", .clamp 0xfffffffffffffffd, some 3⟩, ⟨"g", .top, none⟩]

/-- In a section up to the last address, one function has a byte too few and the other is missing. -/
theorem last_address_unmapped :
    lastCode.behind ≤ 0x10000000000000000 ∧ (∀ s ∈ lastSymbols, s.size ≠ some 0) ∧
      ¬ Charted CodeSection.behind [lastCode] lastSymbols (regions [lastCode] lastSymbols) := by
  have hsize : ∀ s ∈ lastSymbols, s.size ≠ some 0 := by decide
  have hlast : TakesLast [lastCode] lastSymbols :=
    ⟨⟨"f", .clamp 0xfffffffffffffffd, some 3⟩, lastCode, by decide, List.find?_cons_of_pos (by decide), by decide⟩
  exact ⟨by decide, hsize, not_charted_behind hsize hlast⟩

end Symbol

end InstructionCoverage

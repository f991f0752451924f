import InstructionCoverage.Proofs.Address.Text
import InstructionCoverage.Proofs.Reading.Decoder

namespace InstructionCoverage

namespace AddressRange

def whole : AddressRange :=
  ⟨.zero, .top, by decide⟩

theorem length_lt (r : AddressRange) : r.length < 0x10000000000000000 :=
  Nat.lt_of_le_of_lt (Nat.min_le_right _ _) (by decide)

theorem eq_whole_iff {r : AddressRange} : r = whole ↔ r.min.value = 0 ∧ r.max.value = 0xffffffffffffffff :=
  eq_iff

theorem length_eq_of_ne_whole {r : AddressRange} (h : r ≠ whole) :
    r.length = r.max.value - r.min.value + 1 := by
  have hmax := r.max.value_lt
  have hle := Address.le_def.1 r.min_le_max
  have hne := mt eq_whole_iff.2 h
  apply Nat.min_eq_left
  omega

theorem ofStartLength_length {r : AddressRange} : ofStartLength r.min r.length = .ok r ↔ r ≠ whole := by
  have hle := Address.le_def.1 r.min_le_max
  constructor
  · rintro h rfl
    exact absurd h (by decide)
  · intro h
    have hl := length_eq_of_ne_whole h
    have hmax : r.min.value + (r.length - 1) = r.max.value := by omega
    have hlt : r.min.value + (r.length - 1) < 0x10000000000000000 := by
      rw [hmax]
      exact r.max.value_lt
    rw [ofStartLength, if_neg (by omega), dif_pos hlt]
    congr 1
    exact AddressRange.ext rfl (Address.ext hmax)

end AddressRange

structure Token where
  before : Nat
  numeral : Numeral
  after : Nat

namespace Token

def chars (t : Token) (n : Nat) : List Char :=
  List.replicate t.before ' ' ++ (t.numeral.chars n ++ List.replicate t.after ' ')

variable (t : Token) (a : Address)

theorem mem_chars : ∀ c ∈ t.chars a.value, c = ' ' ∨ '0' ≤ c ∧ c ≤ 'x' := by
  intro c hc
  rcases List.mem_append.1 hc with hc | hc
  · exact .inl (List.eq_of_mem_replicate hc)
  · rcases List.mem_append.1 hc with hc | hc
    · exact .inr (Address.between_of_ofChars? (Address.ofChars?_numeral t.numeral a) c hc)
    · exact .inl (List.eq_of_mem_replicate hc)

theorem not_mem_chars {c : Char} (hs : c ≠ ' ') (hz : ¬ '0' ≤ c) : c ∉ t.chars a.value := by
  intro hc
  rcases t.mem_chars a c hc with rfl | ⟨h, -⟩
  · exact hs rfl
  · exact hz h

theorem trim_chars : LineDecoder.trim (t.chars a.value) = t.numeral.chars a.value := by
  have hb : ∀ n, LineDecoder.Blank (List.replicate n ' ') := by
    intro n c hc
    rw [List.eq_of_mem_replicate hc]
    rfl
  have hn := Address.between_of_ofChars? (Address.ofChars?_numeral t.numeral a)
  rw [chars, LineDecoder.trim_left (hb _), LineDecoder.trim_right (hb _)]
  apply LineDecoder.trim_solid
  intro c hc
  have hz := (hn c hc).1
  have hs : c ≠ ' ' := by rintro rfl; exact absurd hz (by decide)
  have ht : c ≠ '\t' := by rintro rfl; exact absurd hz (by decide)
  simp [LineDecoder.isBlank, hs, ht]

theorem address_chars : LineDecoder.address (t.chars a.value) = .ok a := by
  have ha := Address.ofChars?_numeral t.numeral a
  have hne := Address.ne_nil_of_ofChars? ha
  rw [LineDecoder.address, t.trim_chars, if_neg (by simpa using hne), ha]

end Token

inductive Spelling (r : AddressRange) where
  | bounds (first last : Token)
  | sized (first size : Token) (h : r ≠ .whole)
  | single (only : Token) (h : r.min = r.max)

namespace Spelling

variable {r : AddressRange}

def chars : Spelling r → List Char
  | bounds first last => first.chars r.min.value ++ '-' :: last.chars r.max.value
  | sized first size _ => first.chars r.min.value ++ '+' :: size.chars r.length
  | single only _ => only.chars r.min.value

theorem mem_chars (s : Spelling r) : ∀ c ∈ s.chars, c = '-' ∨ c = '+' ∨ c = ' ' ∨ '0' ≤ c ∧ c ≤ 'x' := by
  intro c hc
  cases s with
  | bounds first last =>
    rcases List.mem_append.1 hc with hc | hc
    · exact .inr (.inr (first.mem_chars r.min c hc))
    · rcases List.mem_cons.1 hc with hc | hc
      · exact .inl hc
      · exact .inr (.inr (last.mem_chars r.max c hc))
  | sized first size h =>
    rcases List.mem_append.1 hc with hc | hc
    · exact .inr (.inr (first.mem_chars r.min c hc))
    · rcases List.mem_cons.1 hc with hc | hc
      · exact .inr (.inl hc)
      · exact .inr (.inr (size.mem_chars ⟨r.length, r.length_lt⟩ c hc))
  | single only h => exact .inr (.inr (only.mem_chars r.min c hc))

theorem printable (s : Spelling r) : ∀ c ∈ s.chars, ' ' ≤ c ∧ c ≤ '~' := by
  intro c hc
  rcases s.mem_chars c hc with rfl | rfl | rfl | ⟨hz, hx⟩
  · decide
  · decide
  · decide
  · have hlow : ' ' ≤ '0' := by decide
    have hhigh : 'x' ≤ '~' := by decide
    exact ⟨Char.le_trans hlow hz, Char.le_trans hx hhigh⟩

theorem uncommented (s : Spelling r) : (LineDecoder.trim s.chars).head? ≠ some '#' := by
  apply LineDecoder.head?_trim_ne
  intro h
  rcases s.mem_chars '#' h with h | h | h | ⟨h, -⟩
  all_goals exact absurd h (by decide)

theorem decode (s : Spelling r) : LineDecoder.decodeChars s.chars = .ok (some r) := by
  have hs := s.uncommented
  have hfirst : ∀ t : Token, '-' ∉ t.chars r.min.value ∧ '+' ∉ t.chars r.min.value := fun t =>
    ⟨t.not_mem_chars r.min (by decide) (by decide), t.not_mem_chars r.min (by decide) (by decide)⟩
  cases s with
  | bounds first last =>
    rw [chars, LineDecoder.decodeChars_bounds hs (hfirst first).1, LineDecoder.decodeBounds, first.address_chars,
      last.address_chars]
    show LineDecoder.range (AddressRange.ofBounds r.min r.max) = _
    rw [AddressRange.ofBounds, dif_pos r.min_le_max, LineDecoder.range]
  | sized first size h =>
    have ha := size.address_chars ⟨r.length, r.length_lt⟩
    have hd : '-' ∉ first.chars r.min.value ++ '+' :: size.chars r.length := by
      have hsize := size.not_mem_chars ⟨r.length, r.length_lt⟩ (by decide : '-' ≠ ' ') (by decide)
      simp [(hfirst first).1, hsize]
    rw [chars, LineDecoder.decodeChars_sized hs (hfirst first).2 hd, LineDecoder.decodeSized, ha, first.address_chars]
    show LineDecoder.range (AddressRange.ofStartLength r.min r.length) = _
    rw [AddressRange.ofStartLength_length.2 h, LineDecoder.range]
  | single only h =>
    have hne : LineDecoder.trim (only.chars r.min.value) ≠ [] := by
      rw [only.trim_chars]
      exact Address.ne_nil_of_ofChars? (Address.ofChars?_numeral only.numeral r.min)
    have hr : AddressRange.single r.min = r := AddressRange.ext rfl h
    rw [chars, LineDecoder.decodeChars_single hne hs (hfirst only).1 (hfirst only).2, only.address_chars]
    show Except.ok (some (AddressRange.single r.min)) = _
    rw [hr]

end Spelling

end InstructionCoverage

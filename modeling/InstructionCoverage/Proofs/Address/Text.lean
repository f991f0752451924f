import InstructionCoverage.Address.Range
import InstructionCoverage.Proofs.Text.Hex

namespace InstructionCoverage

inductive Marker where
  | absent
  | lower
  | upper
  deriving DecidableEq

def Marker.chars : Marker → List Char
  | .absent => []
  | .lower => ['0', 'x']
  | .upper => ['0', 'X']

structure Numeral where
  marker : Marker
  zeros : Nat
  upper : Nat → Bool

namespace Numeral

def digits (s : Numeral) (n : Nat) : List Char :=
  List.replicate s.zeros '0' ++ Hex.cased s.upper (Hex.digits n)

def chars (s : Numeral) (n : Nat) : List Char :=
  s.marker.chars ++ s.digits n

theorem extend?_digits (s : Numeral) (n : Nat) : Hex.extend? 0 (s.digits n) = some n := by
  rw [digits, Hex.extend?_zeros, Hex.extend?_cased]

theorem digits_ne_nil (s : Numeral) (n : Nat) : s.digits n ≠ [] := by
  have hn := Hex.digits_ne_nil n
  simp [digits, Hex.cased, hn]

def plain (marker : Marker) (zeros : Nat) : Numeral :=
  ⟨marker, zeros, fun _ => false⟩

theorem chars_plain (marker : Marker) (zeros n : Nat) :
    (plain marker zeros).chars n = marker.chars ++ (List.replicate zeros '0' ++ Hex.digits n) := by
  rw [plain, chars, digits, Hex.cased_lower]

end Numeral

namespace Address

theorem unprefixed_marked (m : Marker) {cs : List Char} (h : ∀ c ∈ cs, (Hex.digit? c).isSome) :
    unprefixed (m.chars ++ cs) = cs := by
  cases m with
  | lower => rfl
  | upper => rfl
  | absent =>
    rw [Marker.chars, List.nil_append]
    unfold unprefixed
    split
    · exact absurd (h 'x' (by simp)) (by decide)
    · exact absurd (h 'X' (by simp)) (by decide)
    · rfl

theorem ofChars?_numeral (s : Numeral) (a : Address) : ofChars? (s.chars a.value) = some a := by
  have hv := s.extend?_digits a.value
  rw [ofChars?, Numeral.chars, unprefixed_marked s.marker (Hex.digit_of_extend? hv),
    Hex.value?_eq_extend? (s.digits_ne_nil _), hv, Option.bind_some, ofNat?, dif_pos a.value_lt]

theorem extend?_unprefixed {cs : List Char} {a : Address} (h : ofChars? cs = some a) :
    unprefixed cs ≠ [] ∧ Hex.extend? 0 (unprefixed cs) = some a.value := by
  obtain ⟨n, hn, ha⟩ := Option.bind_eq_some_iff.1 h
  have hne : unprefixed cs ≠ [] := by
    intro he
    rw [he] at hn
    cases hn
  rw [ofNat?] at ha
  split at ha
  · cases ha
    exact ⟨hne, Hex.value?_eq_extend? hne ▸ hn⟩
  · cases ha

theorem ne_nil_of_ofChars? {cs : List Char} {a : Address} (h : ofChars? cs = some a) : cs ≠ [] := by
  rintro rfl
  cases h

theorem between_of_digit {c : Char} (h : (Hex.digit? c).isSome) : '0' ≤ c ∧ c ≤ 'x' := by
  obtain ⟨d, hd⟩ := Option.isSome_iff_exists.1 h
  have hc := Hex.toNat_of_digit? hd
  show 0x30 ≤ c.toNat ∧ c.toNat ≤ 0x78
  omega

theorem between_of_ofChars? {cs : List Char} {a : Address} (h : ofChars? cs = some a) :
    ∀ c ∈ cs, '0' ≤ c ∧ c ≤ 'x' := by
  have hd : ∀ c ∈ unprefixed cs, '0' ≤ c ∧ c ≤ 'x' := fun c hc =>
    between_of_digit (Hex.digit_of_extend? (extend?_unprefixed h).2 c hc)
  unfold unprefixed at hd
  split at hd
  · exact List.forall_mem_cons.2 ⟨by decide, List.forall_mem_cons.2 ⟨by decide, hd⟩⟩
  · exact List.forall_mem_cons.2 ⟨by decide, List.forall_mem_cons.2 ⟨by decide, hd⟩⟩
  · exact hd

def Spells (cs : List Char) (a : Address) : Prop :=
  ∃ (m : Marker) (digits : List Char), cs = m.chars ++ digits ∧ Hex.Spells digits a.value

theorem marked_unprefixed (cs : List Char) : ∃ m : Marker, cs = m.chars ++ unprefixed cs := by
  unfold unprefixed
  split
  · exact ⟨.lower, rfl⟩
  · exact ⟨.upper, rfl⟩
  · exact ⟨.absent, rfl⟩

theorem ofChars?_eq_some {cs : List Char} {a : Address} : ofChars? cs = some a ↔ Spells cs a := by
  constructor
  · intro h
    obtain ⟨hne, hv⟩ := extend?_unprefixed h
    obtain ⟨m, hm⟩ := marked_unprefixed cs
    exact ⟨m, _, hm, Hex.value?_eq_some.1 (Hex.value?_eq_extend? hne ▸ hv)⟩
  · rintro ⟨m, digits, rfl, hs⟩
    have hv := Hex.value?_eq_some.2 hs
    have hne : digits ≠ [] := by
      rintro rfl
      cases hv
    have hd := Hex.digit_of_extend? (Hex.value?_eq_extend? hne ▸ hv)
    rw [ofChars?, unprefixed_marked m hd, hv, Option.bind_some, ofNat?, dif_pos a.value_lt]

theorem not_spells_iff {cs : List Char} : (∀ a, ¬ Spells cs a) ↔
    ∀ (m : Marker) (digits : List Char) (n : Nat), cs = m.chars ++ digits → Hex.Spells digits n →
      0x10000000000000000 ≤ n := by
  constructor
  · intro h m digits n hcs hn
    exact Nat.not_lt.1 fun hlt => h ⟨n, hlt⟩ ⟨m, digits, hcs, hn⟩
  · rintro h a ⟨m, digits, hcs, hn⟩
    have hle := h m digits a.value hcs hn
    have hlt := a.value_lt
    omega

section Parsing

variable {s : String} {a : Address}

theorem parse_eq_ok : parse s = .ok a ↔ Spells s.toList a := by
  rw [← ofChars?_eq_some, parse, ofString?]
  cases ofChars? s.toList <;> simp

theorem parse_eq_error {e : RangeError} :
    parse s = .error e ↔ e = .invalidAddress s ∧ ∀ a, ¬ Spells s.toList a := by
  simp only [← ofChars?_eq_some, parse, ofString?]
  cases ofChars? s.toList <;> simp [eq_comm]

theorem parse_numeral (w : Numeral) (h : s.toList = w.chars a.value) : parse s = .ok a := by
  rw [parse_eq_ok, h, ← ofChars?_eq_some]
  exact ofChars?_numeral w a

end Parsing

section Printing

variable (a : Address)

theorem toList_lower : "0x".toList = Marker.lower.chars := by
  decide

theorem toList_hex : a.hex.toList = (Numeral.plain .absent 0).chars a.value := by
  rw [hex, Hex.text, String.toList_ofList, Numeral.chars_plain]
  rfl

theorem toList_toString : a.toString.toList = (Numeral.plain .lower 0).chars a.value := by
  rw [Address.toString, String.toList_append, toList_lower, toList_hex, Numeral.chars_plain, Numeral.chars_plain]
  rfl

theorem toList_padded :
    a.padded.toList = (Numeral.plain .lower (16 - (Hex.digits a.value).length)).chars a.value := by
  rw [padded, String.toList_append, toList_lower, String.toList_ofList, Hex.padded, Numeral.chars_plain]

end Printing

/-- A text is read as the address that it spells, and a text that spells no address is quoted whole. What is printed is
read back, and so is every other way to write the number. -/
theorem parse_spells :
    (∀ s : String,
      (∀ a, parse s = .ok a ↔ Spells s.toList a) ∧
        ∀ e, parse s = .error e ↔ e = .invalidAddress s ∧
          ∀ (m : Marker) (digits : List Char) (n : Nat), s.toList = m.chars ++ digits → Hex.Spells digits n →
            0x10000000000000000 ≤ n) ∧
      ∀ a : Address,
        (∀ w : Numeral, parse (String.ofList (w.chars a.value)) = .ok a) ∧
          parse a.toString = .ok a ∧ parse a.hex = .ok a ∧ parse a.padded = .ok a := by
  constructor
  · intro s
    refine ⟨fun a => parse_eq_ok, fun e => ?_⟩
    rw [parse_eq_error, not_spells_iff]
  · intro a
    refine ⟨fun w => ?_, ?_, ?_, ?_⟩
    · exact parse_numeral w String.toList_ofList
    · exact parse_numeral _ a.toList_toString
    · exact parse_numeral _ a.toList_hex
    · exact parse_numeral _ a.toList_padded

example : parse "0x0x10" = .error (.invalidAddress "0x0x10") := by decide

example : parse "0X000000000000000fF" = .ok (.clamp 0xff) := by decide

end Address

end InstructionCoverage

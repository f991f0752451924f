import InstructionCoverage.Proofs.Address.Text
import InstructionCoverage.Proofs.Reading.Decoder

/-!
The grammar of coverage lines, without the decoder: which lines give a range, and what is wrong with the others.
The decoder accepts this grammar and nothing else.
-/

namespace InstructionCoverage.LineDecoder

structure Trims (cs core : List Char) : Prop where
  around : ∃ before after, Blank before ∧ Blank after ∧ cs = before ++ (core ++ after)
  starts : ∀ h : core ≠ [], isBlank (core.head h) = false
  ends : ∀ h : core ≠ [], isBlank (core.getLast h) = false

def Number (token : List Char) (a : Address) : Prop :=
  ∃ cs, Trims token cs ∧ Address.Spells cs a

inductive Form where
  | single (only : List Char)
  | bounds (first last : List Char)
  | sized (first size : List Char)

inductive FirstBad : List (List Char) → List Char → Prop
  | here {token : List Char} {rest : List (List Char)} (bad : ∀ a, ¬ Number token a) : FirstBad (token :: rest) token
  | later {good token : List Char} {rest : List (List Char)} {a : Address} (number : Number good a)
      (bad : FirstBad rest token) : FirstBad (good :: rest) token

namespace Form

def text : Form → List Char
  | single only => only
  | bounds first last => first ++ '-' :: last
  | sized first size => first ++ '+' :: size

def Leftmost : Form → Prop
  | single only => '-' ∉ only ∧ '+' ∉ only
  | bounds first _ => '-' ∉ first
  | sized first size => '-' ∉ first ++ '+' :: size ∧ '+' ∉ first

def tokens : Form → List (List Char)
  | single only => [only]
  | bounds first last => [first, last]
  | sized first size => [size, first]

inductive Gives : Form → AddressRange → Prop
  | single {only : List Char} {a : Address} (number : Number only a) : Gives (.single only) (.single a)
  | bounds {first last : List Char} {a b : Address} (number : Number first a) (limit : Number last b) (le : a ≤ b) :
      Gives (.bounds first last) ⟨a, b, le⟩
  | sized {first size : List Char} {a n : Address} (number : Number first a) (length : Number size n)
      (pos : 1 ≤ n.value) (fits : a.value + n.value - 1 < 0x10000000000000000) :
      Gives (.sized first size) ⟨a, ⟨a.value + n.value - 1, fits⟩, Nat.le_sub_of_add_le (Nat.add_le_add_left pos _)⟩

inductive Rejects : Form → DecodeError → Prop
  | blank {form : Form} {token : List Char} (first : FirstBad form.tokens token) (core : Trims token []) :
      Rejects form .malformed
  | invalid {form : Form} {token cs : List Char} (first : FirstBad form.tokens token) (core : Trims token cs)
      (solid : cs ≠ []) : Rejects form (.range (.invalidAddress (String.ofList cs)))
  | inverted {first last : List Char} {a b : Address} (number : Number first a) (limit : Number last b) (lt : b < a) :
      Rejects (.bounds first last) (.range (.inverted a b))
  | empty {first size : List Char} {a n : Address} (number : Number first a) (length : Number size n)
      (zero : n.value = 0) : Rejects (.sized first size) (.range (.empty a))
  | overflow {first size : List Char} {a n : Address} (number : Number first a) (length : Number size n)
      (pos : 1 ≤ n.value) (past : 0x10000000000000000 ≤ a.value + n.value - 1) :
      Rejects (.sized first size) (.range (.overflow a n.value))

end Form

def Skipped (cs : List Char) : Prop :=
  cs = [] ∨ cs.head? = some '#'

theorem trims_iff {cs core : List Char} : Trims cs core ↔ trim cs = core := by
  constructor
  · rintro ⟨⟨before, after, hbefore, hafter, rfl⟩, hstarts, hends⟩
    have hl : core.dropWhile isBlank = core := by
      cases core with
      | nil => rfl
      | cons c core => exact List.dropWhile_cons_of_neg (by simpa using hstarts (by simp))
    rw [trim_left hbefore, trim_right hafter, trim, hl]
    apply List.rdropWhile_eq_self_iff.2
    intro hne
    simp [hends hne]
  · rintro rfl
    have hfront : trim cs <+: cs.dropWhile isBlank := List.rdropWhile_prefix _ _
    refine ⟨⟨cs.takeWhile isBlank, (cs.dropWhile isBlank).rtakeWhile isBlank, ?_, ?_, ?_⟩, ?_, ?_⟩
    · exact fun c hc => List.mem_takeWhile_imp hc
    · exact fun c hc => List.mem_rtakeWhile_imp hc
    · change _ = _ ++ ((cs.dropWhile isBlank).rdropWhile isBlank ++ _)
      rw [List.rdropWhile_append_rtakeWhile, List.takeWhile_append_dropWhile]
    · intro hne
      rw [hfront.head hne]
      exact List.head_dropWhile_not _ _
    · intro hne
      exact Bool.eq_false_iff.2 (List.rdropWhile_last_not _ _ hne)

theorem Trims.subset {cs core : List Char} (h : Trims cs core) : ∀ c ∈ cs, isBlank c = true ∨ c ∈ core := by
  obtain ⟨before, after, hbefore, hafter, rfl⟩ := h.around
  intro c hc
  rcases List.mem_append.1 hc with hc | hc
  · exact .inl (hbefore c hc)
  · rcases List.mem_append.1 hc with hc | hc
    · exact .inr hc
    · exact .inl (hafter c hc)

section Token

variable {token : List Char} {a : Address}

theorem number_iff : Number token a ↔ Address.ofChars? (trim token) = some a := by
  simp only [Number, trims_iff, Address.ofChars?_eq_some]
  constructor
  · rintro ⟨cs, rfl, h⟩
    exact h
  · exact fun h => ⟨_, rfl, h⟩

theorem Number.chars (h : Number token a) : ∀ c ∈ token, isBlank c = true ∨ '0' ≤ c := by
  obtain ⟨cs, htrims, hs⟩ := h
  intro c hc
  refine (htrims.subset c hc).imp_right fun hcore => ?_
  exact (Address.between_of_ofChars? (Address.ofChars?_eq_some.2 hs) c hcore).1

theorem Number.not_mem (h : Number token a) {c : Char} (hb : isBlank c = false) (hz : ¬ '0' ≤ c) : c ∉ token := by
  intro hc
  rcases h.chars c hc with hblank | hle
  · rw [hb] at hblank
    cases hblank
  · exact hz hle

theorem Number.address (h : Number token a) : address token = .ok a := by
  have ha := number_iff.1 h
  rw [LineDecoder.address, if_neg (by simpa using Address.ne_nil_of_ofChars? ha), ha]

theorem address_blank (h : Trims token []) : address token = .error .malformed := by
  rw [LineDecoder.address, trims_iff.1 h]
  rfl

theorem address_invalid {cs : List Char} (h : Trims token cs) (hcs : cs ≠ []) (bad : ∀ a, ¬ Number token a) :
    address token = .error (.range (.invalidAddress (String.ofList cs))) := by
  have ht := trims_iff.1 h
  have hnone : Address.ofChars? cs = none := by
    rw [Option.eq_none_iff_forall_ne_some]
    intro a ha
    exact bad a (number_iff.2 (ht ▸ ha))
  rw [LineDecoder.address, ht, if_neg (by simpa using hcs), hnone]

end Token

theorem FirstBad.bad {tokens : List (List Char)} {token : List Char} (h : FirstBad tokens token) :
    ∀ a, ¬ Number token a := by
  induction h with
  | here bad => exact bad
  | later number rest ih => exact ih

namespace Form

def decode : Form → Except DecodeError (Option AddressRange)
  | single only => (address only).map fun a => some (AddressRange.single a)
  | bounds first last => decodeBounds first last
  | sized first size => decodeSized first size

theorem Gives.decode {form : Form} {r : AddressRange} (h : form.Gives r) : form.decode = .ok (some r) := by
  cases h with
  | single number => rw [Form.decode, number.address]; rfl
  | bounds number limit le =>
    rw [Form.decode, decodeBounds, number.address, limit.address]
    show range (AddressRange.ofBounds _ _) = _
    rw [AddressRange.ofBounds, dif_pos le, range]
  | @sized first size a n number length pos fits =>
    rw [Form.decode, decodeSized, length.address, number.address]
    show range (AddressRange.ofStartLength _ _) = _
    have hlast : a.value + (n.value - 1) = a.value + n.value - 1 := by omega
    rw [AddressRange.ofStartLength, if_neg (by omega), dif_pos (by omega), range]
    congr 2
    exact AddressRange.ext rfl (Address.ext hlast)

theorem decode_firstBad {form : Form} {token : List Char} (h : FirstBad form.tokens token) {e : DecodeError}
    (he : address token = .error e) : form.decode = .error e := by
  cases form with
  | single only =>
    rcases h with bad | ⟨-, ⟨⟩⟩
    rw [Form.decode, he]
    rfl
  | bounds first last =>
    rcases h with bad | ⟨number, bad | ⟨-, ⟨⟩⟩⟩
    · rw [Form.decode, decodeBounds, he]
      rfl
    · rw [Form.decode, decodeBounds, number.address, he]
      rfl
  | sized first size =>
    rcases h with bad | ⟨number, bad | ⟨-, ⟨⟩⟩⟩
    · rw [Form.decode, decodeSized, he]
      rfl
    · rw [Form.decode, decodeSized, number.address, he]
      rfl

theorem Rejects.decode {form : Form} {e : DecodeError} (h : form.Rejects e) : form.decode = .error e := by
  cases h with
  | blank first core => exact decode_firstBad first (address_blank core)
  | invalid first core solid => exact decode_firstBad first (address_invalid core solid first.bad)
  | inverted number limit lt =>
    rw [Form.decode, decodeBounds, number.address, limit.address]
    show range (AddressRange.ofBounds _ _) = _
    rw [AddressRange.ofBounds, dif_neg (by rw [Address.lt_def] at lt; rw [Address.le_def]; omega), range]
  | empty number length zero =>
    rw [Form.decode, decodeSized, length.address, number.address]
    show range (AddressRange.ofStartLength _ _) = _
    rw [AddressRange.ofStartLength, if_pos zero, range]
  | overflow number length pos past =>
    rw [Form.decode, decodeSized, length.address, number.address]
    show range (AddressRange.ofStartLength _ _) = _
    rw [AddressRange.ofStartLength, if_neg (by omega), dif_neg (by omega), range]

theorem rejects_firstBad {form : Form} {token : List Char} (h : FirstBad form.tokens token) :
    ∃ e, form.Rejects e := by
  have htrims : Trims token (trim token) := trims_iff.2 rfl
  by_cases hcs : trim token = []
  · exact ⟨_, .blank h (hcs ▸ htrims)⟩
  · exact ⟨_, .invalid h htrims hcs⟩

theorem gives_or_rejects (form : Form) : (∃ r, form.Gives r) ∨ ∃ e, form.Rejects e := by
  have number_or (token : List Char) : (∃ a, Number token a) ∨ ∀ a, ¬ Number token a := by
    rw [← not_exists]
    exact Classical.em _
  cases form with
  | single only =>
    rcases number_or only with ⟨a, number⟩ | bad
    · exact .inl ⟨_, .single number⟩
    · exact .inr (rejects_firstBad (.here bad))
  | bounds first last =>
    rcases number_or first with ⟨a, number⟩ | bad
    · rcases number_or last with ⟨b, limit⟩ | bad
      · by_cases le : a ≤ b
        · exact .inl ⟨_, .bounds number limit le⟩
        · exact .inr ⟨_, .inverted number limit (Nat.lt_of_not_le le)⟩
      · exact .inr (rejects_firstBad (.later number (.here bad)))
    · exact .inr (rejects_firstBad (.here bad))
  | sized first size =>
    -- The size comes before the start among the tokens, so its fault is the first.
    rcases number_or size with ⟨n, length⟩ | bad
    · rcases number_or first with ⟨a, number⟩ | bad
      · by_cases zero : n.value = 0
        · exact .inr ⟨_, .empty number length zero⟩
        · have pos : 1 ≤ n.value := Nat.one_le_iff_ne_zero.2 zero
          by_cases fits : a.value + n.value - 1 < 0x10000000000000000
          · exact .inl ⟨_, .sized number length pos fits⟩
          · exact .inr ⟨_, .overflow number length pos (Nat.le_of_not_lt fits)⟩
      · exact .inr (rejects_firstBad (.later length (.here bad)))
    · exact .inr (rejects_firstBad (.here bad))

theorem decode_ok_iff {form : Form} {r : AddressRange} : form.decode = .ok (some r) ↔ form.Gives r := by
  refine ⟨fun h => ?_, Gives.decode⟩
  rcases form.gives_or_rejects with ⟨s, hs⟩ | ⟨e, he⟩
  · rw [hs.decode] at h
    cases h
    exact hs
  · rw [he.decode] at h
    cases h

theorem decode_error_iff {form : Form} {e : DecodeError} : form.decode = .error e ↔ form.Rejects e := by
  refine ⟨fun h => ?_, Rejects.decode⟩
  rcases form.gives_or_rejects with ⟨s, hs⟩ | ⟨e', he⟩
  · rw [hs.decode] at h
    cases h
  · rw [he.decode] at h
    cases h
    exact he

theorem decode_ne_none (form : Form) : form.decode ≠ .ok none := by
  rcases form.gives_or_rejects with ⟨s, hs⟩ | ⟨e, he⟩
  · simp [hs.decode]
  · simp [he.decode]

theorem exists_leftmost (cs : List Char) : ∃ form : Form, form.text = cs ∧ form.Leftmost := by
  by_cases hd : '-' ∈ cs
  · obtain ⟨first, last, rfl, hfirst⟩ := List.eq_append_cons_of_mem hd
    exact ⟨.bounds first last, rfl, hfirst⟩
  · by_cases hp : '+' ∈ cs
    · obtain ⟨first, size, rfl, hfirst⟩ := List.eq_append_cons_of_mem hp
      exact ⟨.sized first size, rfl, hd, hfirst⟩
    · exact ⟨.single cs, rfl, hd, hp⟩

theorem decodeChars_leftmost {form : Form} (h : form.Leftmost) (hs : ¬ Skipped (trim form.text)) :
    decodeChars form.text = form.decode := by
  obtain ⟨hne, hhead⟩ := not_or.1 hs
  cases form with
  | single only => exact decodeChars_single hne hhead h.1 h.2
  | bounds first last => exact decodeChars_bounds hhead h
  | sized first size => exact decodeChars_sized hhead h.2 h.1

theorem Gives.leftmost {form : Form} {r : AddressRange} (h : form.Gives r) : form.Leftmost := by
  have dash {token : List Char} {a : Address} (number : Number token a) : '-' ∉ token :=
    number.not_mem (by decide) (by decide)
  have plus {token : List Char} {a : Address} (number : Number token a) : '+' ∉ token :=
    number.not_mem (by decide) (by decide)
  cases h with
  | single number => exact ⟨dash number, plus number⟩
  | bounds number limit le => exact dash number
  | sized number length pos fits => exact ⟨by simp [dash number, dash length], plus number⟩

theorem Gives.not_skipped {form : Form} {r : AddressRange} (h : form.Gives r) : ¬ Skipped form.text := by
  have hash {token : List Char} {a : Address} (number : Number token a) : '#' ∉ token :=
    number.not_mem (by decide) (by decide)
  rintro (hnil | hhead)
  · cases h with
    | single number =>
      rw [text] at hnil
      have ha := number_iff.1 number
      rw [hnil] at ha
      cases ha
    | bounds number limit le => simp [text] at hnil
    | sized number length pos fits => simp [text] at hnil
  · have hmem := List.mem_of_mem_head? hhead
    cases h with
    | single number => exact hash number hmem
    | bounds number limit le => simp [text, hash number, hash limit] at hmem
    | sized number length pos fits => simp [text, hash number, hash length] at hmem

end Form

theorem decodeChars_skipped {cs : List Char} : Skipped (trim cs) → decodeChars cs = .ok none := by
  rintro (h | h) <;> simp [decodeChars, h]

theorem decodeChars_trim (cs : List Char) : decodeChars (trim cs) = decodeChars cs := by
  rw [decodeChars, decodeChars, trim_trim]

/-- The decoder skips empty lines and comments, gives the range of the lines that the grammar has one for, and rejects
the others for what is wrong with them at their first separator. -/
theorem decode_exact (line : String) :
    ∃ (cs : List Char) (form : Form), Trims line.toList cs ∧ form.text = cs ∧ form.Leftmost ∧
      (hexRange.decode line = .ok none ↔ Skipped cs) ∧
      (∀ r, hexRange.decode line = .ok (some r) ↔ ∃ f : Form, f.text = cs ∧ f.Gives r) ∧
      ∀ e, hexRange.decode line = .error e ↔ ¬ Skipped cs ∧ form.Rejects e := by
  obtain ⟨form, htext, hleft⟩ := Form.exists_leftmost (trim line.toList)
  refine ⟨_, form, trims_iff.2 rfl, htext, hleft, ?_⟩
  have hline : hexRange.decode line = decodeChars form.text := by
    rw [htext, decodeChars_trim]
    rfl
  have htrim : trim form.text = form.text := by rw [htext, trim_trim]
  rw [hline, ← htext]
  by_cases hs : Skipped form.text
  · have hnone : decodeChars form.text = .ok none := decodeChars_skipped (by rwa [htrim])
    rw [hnone]
    refine ⟨by simp [hs], fun r => ⟨nofun, ?_⟩, fun e => ⟨nofun, fun h => absurd hs h.1⟩⟩
    rintro ⟨f, hf, hr⟩
    exact absurd hs (hf ▸ hr.not_skipped)
  · have hdecode : decodeChars form.text = form.decode := Form.decodeChars_leftmost hleft (by rwa [htrim])
    refine ⟨?_, fun r => ⟨fun h => ⟨form, rfl, Form.decode_ok_iff.1 (hdecode ▸ h)⟩, ?_⟩, fun e => ?_⟩
    · rw [hdecode]
      exact iff_of_false form.decode_ne_none hs
    · rintro ⟨f, hf, hr⟩
      rw [← hf, Form.decodeChars_leftmost hr.leftmost (by rwa [hf, htrim])]
      exact hr.decode
    · rw [hdecode, Form.decode_error_iff]
      exact (and_iff_right hs).symm

example : hexRange.decode " zz +\t" = .error .malformed := by decide +kernel

end InstructionCoverage.LineDecoder

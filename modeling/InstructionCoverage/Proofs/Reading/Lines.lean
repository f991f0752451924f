import InstructionCoverage.Reading.Line

namespace InstructionCoverage.Lines

def join (lines : List (List UInt8)) : List UInt8 :=
  lines.flatMap fun line => line ++ [0x0a]

def split : List UInt8 → List (List UInt8) × List UInt8
  | [] => ([], [])
  | b :: bytes =>
    if b = 0x0a then ([] :: (split bytes).1, (split bytes).2)
    else match split bytes with
      | ([], tail) => ([], b :: tail)
      | (line :: lines, tail) => ((b :: line) :: lines, tail)

def text (line : List UInt8) : String :=
  String.ofList (line.map charOfByte)

def Printable (line : List UInt8) : Prop :=
  ∀ b ∈ line, 0x20 ≤ b ∧ b ≤ 0x7e

theorem isPrintable_iff {b : UInt8} : isPrintable b = true ↔ 0x20 ≤ b ∧ b ≤ 0x7e := by
  simp [isPrintable]

theorem all_isPrintable (line : List UInt8) : line.all isPrintable = true ↔ Printable line := by
  simp only [List.all_eq_true, isPrintable_iff, Printable]

instance (line : List UInt8) : Decidable (Printable line) :=
  decidable_of_iff (line.all isPrintable = true) (all_isPrintable line)

@[simp] theorem join_nil : join [] = [] := rfl

@[simp] theorem join_cons (line : List UInt8) (lines : List (List UInt8)) :
    join (line :: lines) = line ++ 0x0a :: join lines := by
  simp [join]

theorem join_split (bytes : List UInt8) : join (split bytes).1 ++ (split bytes).2 = bytes := by
  induction bytes with
  | nil => rfl
  | cons b bytes ih =>
    rw [split]
    split
    · rename_i hb
      subst hb
      simpa using ih
    · split <;> rename_i h <;> simpa [h] using ih

theorem not_mem_split (bytes : List UInt8) :
    (∀ line ∈ (split bytes).1, 0x0a ∉ line) ∧ 0x0a ∉ (split bytes).2 := by
  induction bytes with
  | nil => simp [split]
  | cons b bytes ih =>
    rw [split]
    split
    · simpa using ih
    · rename_i hb
      have hb' : 0x0a ≠ b := fun h => hb h.symm
      split <;> rename_i h <;> simp [h] at ih ⊢
      · exact ⟨hb', ih⟩
      · exact ⟨⟨⟨hb', ih.1.1⟩, ih.1.2⟩, ih.2⟩

theorem split_append {line : List UInt8} (h : 0x0a ∉ line) (bytes : List UInt8) :
    split (line ++ 0x0a :: bytes) = (line :: (split bytes).1, (split bytes).2) := by
  induction line with
  | nil => simp [split]
  | cons b line ih =>
    have hb : b ≠ 0x0a := fun e => h (e ▸ List.mem_cons_self)
    rw [List.cons_append, split, if_neg hb, ih fun m => h (List.mem_cons_of_mem _ m)]

theorem split_of_not_mem {tail : List UInt8} (h : 0x0a ∉ tail) : split tail = ([], tail) := by
  induction tail with
  | nil => rfl
  | cons b tail ih =>
    have hb : b ≠ 0x0a := fun e => h (e ▸ List.mem_cons_self)
    rw [split, if_neg hb, ih fun m => h (List.mem_cons_of_mem _ m)]

theorem split_join {lines : List (List UInt8)} (h : ∀ line ∈ lines, 0x0a ∉ line) (bytes : List UInt8) :
    split (join lines ++ bytes) = (lines ++ (split bytes).1, (split bytes).2) := by
  induction lines with
  | nil => rfl
  | cons line lines ih =>
    obtain ⟨hline, hlines⟩ := List.forall_mem_cons.1 h
    rw [join_cons, List.append_assoc, List.cons_append, split_append hline, ih hlines, List.cons_append]

theorem count_join {lines : List (List UInt8)} (h : ∀ line ∈ lines, 0x0a ∉ line) :
    (join lines).count 0x0a = lines.length := by
  induction lines with
  | nil => rfl
  | cons line lines ih =>
    obtain ⟨hline, hlines⟩ := List.forall_mem_cons.1 h
    rw [join_cons, List.count_append, List.count_cons_self, ih hlines, List.count_eq_zero.2 hline, List.length_cons,
      Nat.zero_add]

theorem ne_of_printable {b : UInt8} (h : 0x20 ≤ b ∧ b ≤ 0x7e) : b ≠ 0x0a := by
  rintro rfl
  exact absurd h.1 (by decide)

theorem Printable.not_mem {line : List UInt8} (h : Printable line) : 0x0a ∉ line :=
  fun m => ne_of_printable (h _ m) rfl

theorem Printable.cons {b : UInt8} {line : List UInt8} :
    Printable (b :: line) ↔ (0x20 ≤ b ∧ b ≤ 0x7e) ∧ Printable line :=
  List.forall_mem_cons

theorem printable_or (bytes : List UInt8) :
    Printable bytes ∨ ∃ line b rest, bytes = line ++ b :: rest ∧ Printable line ∧ ¬ (0x20 ≤ b ∧ b ≤ 0x7e) := by
  induction bytes with
  | nil => exact .inl fun b hb => absurd hb (by simp)
  | cons b bytes ih =>
    by_cases hb : 0x20 ≤ b ∧ b ≤ 0x7e
    · rcases ih with h | ⟨line, c, rest, rfl, hl, hc⟩
      · exact .inl (Printable.cons.2 ⟨hb, h⟩)
      · exact .inr ⟨b :: line, c, rest, rfl, Printable.cons.2 ⟨hb, hl⟩, hc⟩
    · exact .inr ⟨[], b, bytes, rfl, fun c hc => absurd hc (by simp), hb⟩

end InstructionCoverage.Lines

namespace InstructionCoverage.Source

open Lines

theorem readChars_of_error {s : Source} {e : LineError} (h : s.next = .error e) : s.readChars = (.error e, s) := by
  rw [readChars]
  split
  · rename_i h'
    rw [h] at h'
    cases h'
    rfl
  · rename_i h'
    rw [h] at h'
    cases h'

theorem readChars_of_next {s t : Source} {b : UInt8} (h : s.next = .ok (b, t)) :
    s.readChars =
      if b = 0x0a then (.ok [], t)
      else if isPrintable b then
        match t.readChars with
        | (.ok line, u) => (.ok (charOfByte b :: line), u)
        | (.error e, u) => (.error e, u)
      else (.error (.invalidByte s.position b), t) := by
  rw [readChars]
  split
  · rename_i h'
    rw [h] at h'
    cases h'
  · rename_i h'
    rw [h] at h'
    cases h'
    rfl

@[simp] theorem next_slice_cons (pos : Nat) (b : UInt8) (rest : List UInt8) :
    next ⟨.slice, pos, b :: rest⟩ = .ok (b, ⟨.slice, pos + 1, rest⟩) := rfl

@[simp] theorem next_slice_nil (pos : Nat) : next ⟨.slice, pos, []⟩ = .error (.truncated pos) := rfl

theorem readChars_printable {line : List UInt8} (h : Printable line) (pos : Nat) (rest : List UInt8) :
    readChars ⟨.slice, pos, line ++ rest⟩ =
      match readChars ⟨.slice, pos + line.length, rest⟩ with
      | (.ok chars, t) => (.ok (line.map charOfByte ++ chars), t)
      | (.error e, t) => (.error e, t) := by
  induction line generalizing pos with
  | nil =>
    simp only [List.nil_append, List.length_nil, Nat.add_zero, List.map_nil]
    split <;> assumption
  | cons b line ih =>
    obtain ⟨hb, hline⟩ := Printable.cons.1 h
    have hlen : pos + (b :: line).length = pos + 1 + line.length := by
      rw [List.length_cons]
      omega
    rw [List.cons_append, readChars_of_next (next_slice_cons pos b (line ++ rest)), if_neg (ne_of_printable hb),
      if_pos (isPrintable_iff.2 hb), ih hline, hlen]
    cases readChars ⟨.slice, pos + 1 + line.length, rest⟩ with
    | mk result t => cases result <;> rfl

theorem readLine_line {line : List UInt8} (h : Printable line) (pos : Nat) (rest : List UInt8) :
    readLine ⟨.slice, pos, line ++ 0x0a :: rest⟩ = (.ok (text line), ⟨.slice, pos + line.length + 1, rest⟩) := by
  rw [readLine, readChars_printable h, readChars_of_next (next_slice_cons _ _ _), if_pos rfl]
  simp [text]

theorem readLine_invalid {line : List UInt8} {b : UInt8} (h : Printable line) (hb : ¬ (0x20 ≤ b ∧ b ≤ 0x7e))
    (hn : b ≠ 0x0a) (pos : Nat) (rest : List UInt8) :
    readLine ⟨.slice, pos, line ++ b :: rest⟩ =
      (.error (.invalidByte (pos + line.length) b), ⟨.slice, pos + line.length + 1, rest⟩) := by
  have hp : ¬ isPrintable b = true := fun hp => hb (isPrintable_iff.1 hp)
  rw [readLine, readChars_printable h, readChars_of_next (next_slice_cons _ _ _), if_neg hn, if_neg hp]

theorem readLine_truncated {line : List UInt8} (h : Printable line) (pos : Nat) :
    readLine ⟨.slice, pos, line⟩ =
      (.error (.truncated (pos + line.length)), ⟨.slice, pos + line.length, []⟩) := by
  have h' := readChars_printable h pos []
  rw [List.append_nil] at h'
  rw [readLine, h', readChars_of_error (next_slice_nil _)]

end InstructionCoverage.Source

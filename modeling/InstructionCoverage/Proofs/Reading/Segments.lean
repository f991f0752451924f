import InstructionCoverage.Proofs.RangeFile.RoundTrip
import InstructionCoverage.Proofs.RangeFile.Streaming

namespace InstructionCoverage

open Lines

structure Segment where
  body : List UInt8
  ending : UInt8
  printable : Printable body
  unprintable : ¬ (0x20 ≤ ending ∧ ending ≤ 0x7e)

namespace Segment

def bytes (g : Segment) : List UInt8 :=
  g.body ++ [g.ending]

def result (g : Segment) (pos : Nat) : Except LineError String :=
  if g.ending = 0x0a then .ok (text g.body) else .error (.invalidByte (pos + g.body.length) g.ending)

def prepend (b : UInt8) (hb : 0x20 ≤ b ∧ b ≤ 0x7e) (g : Segment) : Segment :=
  ⟨b :: g.body, g.ending, Printable.cons.2 ⟨hb, g.printable⟩, g.unprintable⟩

end Segment

def Reading.ofLine : Except LineError String → Reading
  | .ok content => .line content
  | .error e => .failed e

def readings : Nat → List Segment → List (Reading × Nat)
  | _, [] => []
  | pos, g :: segments =>
    (.ofLine (g.result pos), pos + g.bytes.length) :: readings (pos + g.bytes.length) segments

theorem exists_segments (bytes : List UInt8) :
    ∃ (segments : List Segment) (tail : List UInt8), bytes = segments.flatMap Segment.bytes ++ tail ∧ Printable tail := by
  induction bytes with
  | nil => exact ⟨[], [], rfl, nofun⟩
  | cons b bytes ih =>
    obtain ⟨segments, tail, rfl, htail⟩ := ih
    by_cases hb : 0x20 ≤ b ∧ b ≤ 0x7e
    -- A printable byte goes in front of the first segment, or of the tail if there is none.
    · cases segments with
      | nil => exact ⟨[], b :: tail, rfl, Printable.cons.2 ⟨hb, htail⟩⟩
      | cons g segments => exact ⟨g.prepend b hb :: segments, tail, rfl, htail⟩
    · exact ⟨⟨[], b, nofun, hb⟩ :: segments, tail, rfl, htail⟩

namespace Source

def atSlice (bytes : List UInt8) (p : Nat) : Source :=
  ⟨.slice, p, bytes.drop p⟩

theorem readLine_segment (g : Segment) (pos : Nat) (rest : List UInt8) :
    readLine ⟨.slice, pos, g.bytes ++ rest⟩ = (g.result pos, ⟨.slice, pos + g.bytes.length, rest⟩) := by
  have hlen : pos + g.bytes.length = pos + g.body.length + 1 := by
    rw [Segment.bytes, List.length_append, List.length_singleton, Nat.add_assoc]
  rw [hlen, Segment.bytes, List.append_assoc, List.singleton_append, Segment.result]
  by_cases hb : g.ending = 0x0a
  · rw [if_pos hb, hb, readLine_line g.printable]
  · rw [if_neg hb, readLine_invalid g.printable g.unprintable hb]

theorem perform_line (s : Source) : s.perform .line = (.ofLine s.readLine.1, s.readLine.2) := by
  rw [perform]
  cases s.readLine with
  | mk result t => cases result <;> rfl

theorem observe_line (s : Source) (k : Nat) :
    s.observe (List.replicate (k + 1) .line) =
      (.ofLine s.readLine.1, s.readLine.2.position) :: s.readLine.2.observe (List.replicate k .line) := by
  rw [List.replicate_succ, observe, perform_line]

theorem observe_truncated {tail : List UInt8} (h : Printable tail) {pos stop : Nat} (hstop : pos + tail.length = stop)
    (k : Nat) :
    observe ⟨.slice, pos, tail⟩ (List.replicate k .line) = List.replicate k (.failed (.truncated stop), stop) := by
  induction k generalizing tail pos with
  | zero => rfl
  | succ k ih =>
    have hnil : Printable [] := nofun
    rw [observe_line, readLine_truncated h, hstop, ih hnil rfl, List.replicate_succ]
    rfl

theorem observe_segments (segments : List Segment) {tail : List UInt8} (h : Printable tail) {pos stop : Nat}
    (hstop : pos + (segments.flatMap Segment.bytes ++ tail).length = stop) (k : Nat) :
    observe ⟨.slice, pos, segments.flatMap Segment.bytes ++ tail⟩ (List.replicate (segments.length + k) .line) =
      readings pos segments ++ List.replicate k (.failed (.truncated stop), stop) := by
  induction segments generalizing pos with
  | nil =>
    rw [List.length_nil, Nat.zero_add]
    exact observe_truncated h hstop k
  | cons g segments ih =>
    rw [List.flatMap_cons, List.append_assoc] at hstop ⊢
    rw [List.length_append, ← Nat.add_assoc] at hstop
    rw [List.length_cons, Nat.add_right_comm, observe_line, readLine_segment, ih hstop]
    rfl

def readLines (s : Source) : Except LineError (List String) :=
  match s.isExhausted with
  | .error e => .error e
  | .ok true => .ok []
  | .ok false =>
    match _ : s.readLine with
    | (.error e, _) => .error e
    | (.ok line, t) => t.readLines.map (line :: ·)
termination_by s.rest.length
decreasing_by exact readLine_rest_lt (by assumption)

theorem readLines_line {s t : Source} {line : String} (h : s.isExhausted = .ok false) (hr : s.readLine = (.ok line, t)) :
    s.readLines = t.readLines.map (line :: ·) := by
  rw [readLines, h]
  dsimp only
  split <;> rename_i h' <;> rw [hr] at h' <;> cases h'
  rfl

theorem readLines_join {lines : List (List UInt8)} (h : ∀ line ∈ lines, Printable line) (pos : Nat) :
    readLines ⟨.slice, pos, join lines⟩ = .ok (lines.map text) := by
  induction lines generalizing pos with
  | nil => rw [readLines]; rfl
  | cons line lines ih =>
    obtain ⟨hline, hlines⟩ := List.forall_mem_cons.1 h
    have hready : isExhausted ⟨.slice, pos, line ++ 0x0a :: join lines⟩ = .ok false := by
      rw [RangeFile.isExhausted_slice]
      simp
    rw [join_cons, readLines_line hready (readLine_line hline pos _), ih hlines]
    rfl

structure FirstOutside (bytes : List UInt8) (p q : Nat) (b : UInt8) : Prop where
  le : p ≤ q
  found : bytes[q]? = some b
  outside : ¬ (0x20 ≤ b ∧ b ≤ 0x7e)
  before : ∀ i, p ≤ i → i < q → ∀ c ∈ bytes[i]?, 0x20 ≤ c ∧ c ≤ 0x7e

theorem FirstOutside.printable {bytes : List UInt8} {p q : Nat} {b : UInt8} (h : FirstOutside bytes p q b) :
    Printable (bytes.extract p q) := by
  intro c hc
  obtain ⟨i, hi⟩ := List.mem_iff_getElem?.1 hc
  rw [List.extract_eq_take_drop, List.getElem?_take, List.getElem?_drop] at hi
  split at hi
  · exact h.before (p + i) (by omega) (by omega) c hi
  · cases hi

theorem FirstOutside.readLine {bytes : List UInt8} {p q : Nat} {b : UInt8} (h : FirstOutside bytes p q b) :
    (atSlice bytes p).readLine =
      (if b = 0x0a then .ok (text (bytes.extract p q)) else .error (.invalidByte q b), atSlice bytes (q + 1)) := by
  let g : Segment := ⟨bytes.extract p q, b, h.printable, h.outside⟩
  obtain ⟨hq, hb⟩ := List.getElem?_eq_some_iff.1 h.found
  have hle := h.le
  have hbody : g.body.length = q - p := by
    simp only [g, List.extract_eq_take_drop, List.length_take, List.length_drop]
    omega
  have hbytes : bytes.drop p = g.bytes ++ bytes.drop (q + 1) := by
    have hdrop : (bytes.drop p).drop (q - p) = b :: bytes.drop (q + 1) := by
      rw [List.drop_drop, Nat.add_sub_cancel' hle, List.drop_eq_getElem_cons hq, hb]
    rw [Segment.bytes, List.append_assoc, List.singleton_append, ← hdrop]
    exact (List.take_append_drop _ _).symm
  have hresult : g.result p = if b = 0x0a then .ok (text (bytes.extract p q)) else .error (.invalidByte q b) := by
    rw [Segment.result, hbody, Nat.add_sub_cancel' hle]
  have hafter : p + g.bytes.length = q + 1 := by
    rw [Segment.bytes, List.length_append, hbody, List.length_singleton]
    omega
  rw [atSlice, hbytes, readLine_segment, hresult, hafter, atSlice]

/-- From any cursor of loaded bytes, a line is what stands before the first byte that is not printable, if that ends a
line, and the cursor comes to stand behind that byte. So calls that go on after errors come to the end of the input, with
all of it cut into segments, and lines that are written one behind the other are read back. -/
theorem readLine_segments :
    (∀ (bytes : List UInt8) (p : Nat), p ≤ bytes.length →
      ((∀ i, p ≤ i → ∀ b ∈ bytes[i]?, 0x20 ≤ b ∧ b ≤ 0x7e) →
        (atSlice bytes p).readLine = (.error (.truncated bytes.length), atSlice bytes bytes.length)) ∧
      (∀ q b, FirstOutside bytes p q b →
        (atSlice bytes p).readLine =
          (if b = 0x0a then .ok (text (bytes.extract p q)) else .error (.invalidByte q b), atSlice bytes (q + 1))) ∧
      ∃ (segments : List Segment) (tail : List UInt8),
        bytes.drop p = segments.flatMap Segment.bytes ++ tail ∧ Printable tail ∧
          ∀ k, (atSlice bytes p).observe (List.replicate (segments.length + k) .line) =
            readings p segments ++ List.replicate k (.failed (.truncated bytes.length), bytes.length)) ∧
    ∀ lines : List String, (∀ line ∈ lines, ∀ c ∈ line.toList, ' ' ≤ c ∧ c ≤ '~') →
      (ofSlice (lines.flatMap fun line => encode line.toList ++ [0x0a])).readLines = .ok lines := by
  constructor
  · intro bytes p hp
    refine ⟨fun h => ?_, fun q b h => h.readLine, ?_⟩
    · have hprintable : Printable (bytes.drop p) := by
        intro b hb
        obtain ⟨i, hi⟩ := List.mem_iff_getElem?.1 hb
        rw [List.getElem?_drop] at hi
        exact h (p + i) (Nat.le_add_right _ _) b hi
      have hstop : p + (bytes.drop p).length = bytes.length := by
        rw [List.length_drop]
        omega
      rw [atSlice, readLine_truncated hprintable, hstop, atSlice, List.drop_length]
    · obtain ⟨segments, tail, heq, htail⟩ := exists_segments (bytes.drop p)
      have hstop : p + (segments.flatMap Segment.bytes ++ tail).length = bytes.length := by
        rw [← heq, List.length_drop]
        omega
      refine ⟨segments, tail, heq, htail, fun k => ?_⟩
      rw [atSlice, heq, observe_segments segments htail hstop]
  · intro lines h
    have hprintable : ∀ line ∈ lines.map fun line => encode line.toList, Printable line := by
      intro bytes hb
      obtain ⟨line, hl, rfl⟩ := List.mem_map.1 hb
      exact printable_encode (h line hl)
    have htext : (lines.map fun line => encode line.toList).map text = lines := by
      have hline : ∀ line ∈ lines, text (encode line.toList) = line := by
        intro line hl
        rw [text, map_encode (h line hl), String.ofList_toList]
      rw [List.map_map]
      exact (List.map_congr_left hline).trans lines.map_id'
    have hjoin : (lines.flatMap fun line => encode line.toList ++ [0x0a]) =
        join (lines.map fun line => encode line.toList) := by
      rw [join, List.flatMap_map]
    have hread := readLines_join hprintable 0
    rw [htext] at hread
    rw [hjoin]
    exact hread

theorem readLine_segments_resumed :
    let bytes : List UInt8 := [0x61, 0x01, 0x62, 0x0a, 0x7e]
    (FirstOutside bytes 0 1 0x01 ∧ (atSlice bytes 0).readLine = (.error (.invalidByte 1 0x01), atSlice bytes 2)) ∧
      (FirstOutside bytes 2 3 0x0a ∧ (atSlice bytes 2).readLine = (.ok "b", atSlice bytes 4)) ∧
      ((∀ i, 4 ≤ i → ∀ b ∈ bytes[i]?, 0x20 ≤ b ∧ b ≤ 0x7e) ∧
        (atSlice bytes 4).readLine = (.error (.truncated 5), atSlice bytes 5)) ∧
      (∀ line ∈ ["", " ~"], ∀ c ∈ line.toList, ' ' ≤ c ∧ c ≤ '~') ∧
        (ofSlice [0x0a, 0x20, 0x7e, 0x0a]).readLines = .ok ["", " ~"] := by
  intro bytes
  have hinvalid : FirstOutside bytes 0 1 0x01 := by
    refine ⟨by decide, rfl, by decide, ?_⟩
    rintro i - hi c hc
    obtain rfl : i = 0 := by omega
    cases hc
    decide
  have hline : FirstOutside bytes 2 3 0x0a := by
    refine ⟨by decide, rfl, by decide, ?_⟩
    intro i hp hi c hc
    obtain rfl : i = 2 := by omega
    cases hc
    decide
  have htail : ∀ i, 4 ≤ i → ∀ b ∈ bytes[i]?, 0x20 ≤ b ∧ b ≤ 0x7e := by
    intro i hi b hb
    rcases Nat.eq_or_lt_of_le hi with rfl | hlt
    · cases hb
      decide
    · rw [List.getElem?_eq_none hlt] at hb
      cases hb
  have hlines : ∀ line ∈ ["", " ~"], ∀ c ∈ line.toList, ' ' ≤ c ∧ c ≤ '~' := by
    intro line hl c hc
    rcases List.mem_pair.1 hl with rfl | rfl
    · cases hc
    · rcases List.mem_pair.1 hc with rfl | rfl <;> decide
  exact ⟨⟨hinvalid, (readLine_segments.1 bytes 0 (by decide)).2.1 1 0x01 hinvalid⟩,
    ⟨hline, (readLine_segments.1 bytes 2 (by decide)).2.1 3 0x0a hline⟩,
    ⟨htail, (readLine_segments.1 bytes 4 (by decide)).1 htail⟩, hlines, readLine_segments.2 ["", " ~"] hlines⟩

end Source

end InstructionCoverage

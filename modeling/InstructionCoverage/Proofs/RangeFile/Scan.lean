import InstructionCoverage.Proofs.Progress
import InstructionCoverage.Proofs.Reading.Lines
import InstructionCoverage.RangeFile

/-!
Parsing loaded bytes is a scan over whole lines, one poll before each. The scan says what is found,
and the stretch of polls whether the parser gets to see it.
-/

namespace InstructionCoverage.RangeFile

open Lines Progress

def badByte? : List UInt8 → Option (Nat × UInt8)
  | [] => none
  | b :: bytes => if isPrintable b then (badByte? bytes).map fun found => (found.1 + 1, found.2) else some (0, b)

def Accepted (d : LineDecoder) (line : List UInt8) : Prop :=
  Printable line ∧ ∃ r, d.decode (text line) = .ok r

instance (d : LineDecoder) (line : List UInt8) : Decidable (Accepted d line) :=
  decidable_of_iff (Printable line ∧ (d.decode (text line)).isOk) <|
    and_congr_right' <| by cases d.decode (text line) <;> simp [Except.isOk, Except.toBool]

def readTerminated (d : LineDecoder) (n offset : Nat) (line : List UInt8) : Except ImportFault (Option AddressRange) :=
  match badByte? line with
  | some (i, b) => .error (.badLine (n + 1) (.invalidByte (offset + i) b))
  | none =>
    match d.decode (text line) with
    | .error e => .error (.undecodable (n + 1) (text line) e)
    | .ok r => .ok r

def unterminatedFault (n offset : Nat) (tail : List UInt8) : ImportFault :=
  match badByte? tail with
  | some (i, b) => .badLine (n + 1) (.invalidByte (offset + i) b)
  | none => .truncated (n + 1) (offset + tail.length)

def scan (d : LineDecoder) : List (List UInt8) → List UInt8 → Nat → Nat → RangeSet → Except ImportFault (RangeSet × Nat)
  | [], tail, n, offset, ranges =>
    if tail = [] then .ok (ranges, n) else .error (unterminatedFault n offset tail)
  | line :: lines, tail, n, offset, ranges =>
    match readTerminated d n offset line with
    | .error fault => .error fault
    | .ok r => scan d lines tail (n + 1) (offset + line.length + 1) (addRange ranges r)

def begun (d : LineDecoder) : List (List UInt8) → List UInt8 → Nat
  | [], tail => if tail = [] then 0 else 1
  | line :: lines, tail => if Accepted d line then begun d lines tail + 1 else 1

theorem badByte?_eq_none {line : List UInt8} : badByte? line = none ↔ Printable line := by
  induction line with
  | nil => simp [badByte?, Printable]
  | cons b line ih =>
    rw [Printable.cons, badByte?]
    by_cases hb : isPrintable b = true
    · simp [hb, ih, isPrintable_iff.1 hb]
    · simp only [hb, reduceCtorEq, false_iff, not_and, if_false]
      exact fun h => absurd (isPrintable_iff.2 h) hb

theorem badByte?_append {line : List UInt8} {b : UInt8} (h : Printable line) (hb : ¬ (0x20 ≤ b ∧ b ≤ 0x7e))
    (rest : List UInt8) : badByte? (line ++ b :: rest) = some (line.length, b) := by
  induction line with
  | nil => simp [badByte?, mt isPrintable_iff.1 hb]
  | cons c line ih =>
    obtain ⟨hc, hline⟩ := Printable.cons.1 h
    simp [badByte?, isPrintable_iff.2 hc, ih hline]

def afterPolls {α : Type} (file : Path) (found : Except ImportFault α) : Ending × Progress → Except ParseStop α × Progress
  | (.completed, p) => (found.mapError fun fault => .failed ⟨file, fault⟩, p)
  | (.cancelled, p) => (.error (.failed ⟨file, .cancelled⟩), p)
  | (.panicked, p) => (.error .panicked, p)

theorem afterPolls_completed {α : Type} {file : Path} {found : Except ImportFault α} {r : Ending × Progress}
    (h : r.1 = .completed) : afterPolls file found r = (found.mapError fun fault => .failed ⟨file, fault⟩, r.2) := by
  obtain ⟨ending, q⟩ := r
  cases h
  rfl

section Steps

variable {d : LineDecoder} {file : Path} {s t : Source} {n : Nat} {ranges : RangeSet} {p : Progress}

theorem parseLines_exhausted (h : s.isExhausted = .ok true) : parseLines d file s n ranges p = (.ok (ranges, n), p) := by
  rw [parseLines, h]

theorem parseLines_stopped (h : s.isExhausted = .ok false) (hp : p.poll.1 ≠ .completed)
    (found : Except ImportFault (RangeSet × Nat)) : parseLines d file s n ranges p = afterPolls file found p.poll := by
  rw [parseLines, h]
  dsimp only
  split <;> rename_i hq <;> rw [hq] at hp ⊢
  · rfl
  · rfl
  · exact absurd rfl hp

theorem parseLines_unread {e : LineError} (h : s.isExhausted = .ok false) (hp : p.poll.1 = .completed)
    (hr : s.readLine = (.error e, t)) :
    parseLines d file s n ranges p =
      (.error (.failed ⟨file, if e.isEndOfInput then .truncated (n + 1) e.offset else .badLine (n + 1) e⟩), p.poll.2) := by
  rw [parseLines, h]
  dsimp only
  split <;> rename_i hq <;> rw [hq] at hp ⊢ <;> try cases hp
  split <;> rename_i h' <;> rw [hr] at h' <;> cases h'
  rfl

theorem parseLines_undecodable {line : String} {e : DecodeError} (h : s.isExhausted = .ok false)
    (hp : p.poll.1 = .completed) (hr : s.readLine = (.ok line, t)) (hd : d.decode line = .error e) :
    parseLines d file s n ranges p = (.error (.failed ⟨file, .undecodable (n + 1) line e⟩), p.poll.2) := by
  rw [parseLines, h]
  dsimp only
  split <;> rename_i hq <;> rw [hq] at hp ⊢ <;> try cases hp
  split <;> rename_i h' <;> rw [hr] at h' <;> cases h'
  rw [hd]

theorem parseLines_line {line : String} {r : Option AddressRange} (h : s.isExhausted = .ok false)
    (hp : p.poll.1 = .completed) (hr : s.readLine = (.ok line, t)) (hd : d.decode line = .ok r) :
    parseLines d file s n ranges p = parseLines d file t (n + 1) (addRange ranges r) p.poll.2 := by
  rw [parseLines, h]
  dsimp only
  split <;> rename_i hq <;> rw [hq] at hp ⊢ <;> try cases hp
  split <;> rename_i h' <;> rw [hr] at h' <;> cases h'
  rw [hd]

end Steps

theorem isExhausted_slice (pos : Nat) (bytes : List UInt8) :
    Source.isExhausted ⟨.slice, pos, bytes⟩ = .ok bytes.isEmpty := rfl

theorem readLine_terminated {line : List UInt8} (h : 0x0a ∉ line) (pos : Nat) (rest : List UInt8) :
    ∃ t, Source.readLine ⟨.slice, pos, line ++ 0x0a :: rest⟩ =
      match badByte? line with
      | some (i, b) => (.error (.invalidByte (pos + i) b), t)
      | none => (.ok (text line), ⟨.slice, pos + line.length + 1, rest⟩) := by
  rcases printable_or line with hl | ⟨good, b, bad, rfl, hg, hb⟩
  · exact ⟨⟨.slice, pos, []⟩, by rw [badByte?_eq_none.2 hl, Source.readLine_line hl]⟩
  · have hn : b ≠ 0x0a := fun e => h (by simp [e])
    refine ⟨⟨.slice, pos + good.length + 1, bad ++ 0x0a :: rest⟩, ?_⟩
    rw [badByte?_append hg hb, List.append_assoc, List.cons_append, Source.readLine_invalid hg hb hn]

theorem readLine_unterminated {tail : List UInt8} (h : 0x0a ∉ tail) (pos : Nat) :
    ∃ t, Source.readLine ⟨.slice, pos, tail⟩ =
      match badByte? tail with
      | some (i, b) => (.error (.invalidByte (pos + i) b), t)
      | none => (.error (.truncated (pos + tail.length)), t) := by
  rcases printable_or tail with hl | ⟨good, b, bad, rfl, hg, hb⟩
  · exact ⟨⟨.slice, pos + tail.length, []⟩, by rw [badByte?_eq_none.2 hl, Source.readLine_truncated hl]⟩
  · have hn : b ≠ 0x0a := fun e => h (by simp [e])
    refine ⟨⟨.slice, pos + good.length + 1, bad⟩, ?_⟩
    rw [badByte?_append hg hb, Source.readLine_invalid hg hb hn]

theorem parseLines_slice {d : LineDecoder} {file : Path} {lines : List (List UInt8)} {tail : List UInt8}
    (hl : ∀ line ∈ lines, 0x0a ∉ line) (ht : 0x0a ∉ tail) (pos n : Nat) (ranges : RangeSet) (p : Progress) :
    parseLines d file ⟨.slice, pos, join lines ++ tail⟩ n ranges p =
      afterPolls file (scan d lines tail n pos ranges) (p.grant (begun d lines tail)) := by
  induction lines generalizing pos n ranges p with
  | nil =>
    cases tail with
    | nil => exact parseLines_exhausted rfl
    | cons b tail =>
      have hs : Source.isExhausted ⟨.slice, pos, join [] ++ b :: tail⟩ = .ok false := rfl
      have hk : begun d [] (b :: tail) = 0 + 1 := rfl
      rw [hk]
      by_cases hp : p.poll.1 = .completed
      · obtain ⟨t, hr⟩ := readLine_unterminated ht pos
        rw [grant_succ_completed hp, grant_zero, afterPolls_completed rfl, scan, if_neg (by simp), unterminatedFault]
        cases hb : badByte? (b :: tail) with
        | none =>
          rw [hb] at hr
          exact parseLines_unread hs hp hr
        | some found =>
          rw [hb] at hr
          exact parseLines_unread hs hp hr
      · rw [grant_succ_stopped hp]
        exact parseLines_stopped hs hp _
  | cons line lines ih =>
    obtain ⟨hline, hlines⟩ := List.forall_mem_cons.1 hl
    have hs : Source.isExhausted ⟨.slice, pos, join (line :: lines) ++ tail⟩ = .ok false := by
      rw [isExhausted_slice, join_cons]
      simp
    obtain ⟨k, hk⟩ : ∃ k, begun d (line :: lines) tail = k + 1 := by
      rw [begun]
      split
      · exact ⟨_, rfl⟩
      · exact ⟨0, rfl⟩
    by_cases hp : p.poll.1 = .completed
    · obtain ⟨t, hr⟩ := readLine_terminated hline pos (join lines ++ tail)
      rw [← List.cons_append, ← List.append_assoc, ← join_cons] at hr
      cases hb : badByte? line with
      | some found =>
        have hbad : ¬ Accepted d line := fun h => by simp [badByte?_eq_none.2 h.1] at hb
        rw [hb] at hr
        rw [begun, if_neg hbad, scan, readTerminated, hb, ← Nat.zero_add 1, grant_succ_completed hp, grant_zero,
          afterPolls_completed rfl]
        exact parseLines_unread hs hp hr
      | none =>
        rw [hb] at hr
        cases hd : d.decode (text line) with
        | error e =>
          have hbad : ¬ Accepted d line := by
            rintro ⟨-, r, hr⟩
            rw [hd] at hr
            cases hr
          rw [begun, if_neg hbad, scan, readTerminated, hb, hd, ← Nat.zero_add 1, grant_succ_completed hp, grant_zero,
            afterPolls_completed rfl]
          exact parseLines_undecodable hs hp hr hd
        | ok r =>
          have hgood : Accepted d line := ⟨badByte?_eq_none.1 hb, r, hd⟩
          rw [begun, if_pos hgood, scan, readTerminated, hb, hd, grant_succ_completed hp,
            parseLines_line hs hp hr hd, ih hlines]
    · rw [hk, grant_succ_stopped hp]
      exact parseLines_stopped hs hp _

def scanned (d : LineDecoder) (bytes : List UInt8) : Except ImportFault (RangeSet × Nat) :=
  scan d (split bytes).1 (split bytes).2 0 0 .empty

def linesBegun (d : LineDecoder) (bytes : List UInt8) : Nat :=
  begun d (split bytes).1 (split bytes).2

theorem parseLines_ofSlice (d : LineDecoder) (path : Path) (bytes : List UInt8) (p : Progress) :
    parseLines d path (.ofSlice bytes) 0 .empty p =
      afterPolls path (scanned d bytes) (p.grant (linesBegun d bytes)) := by
  have hs : Source.ofSlice bytes = ⟨.slice, 0, join (split bytes).1 ++ (split bytes).2⟩ := by rw [join_split]; rfl
  obtain ⟨hl, ht⟩ := not_mem_split bytes
  rw [hs, parseLines_slice hl ht, ← scanned, ← linesBegun]

theorem parse_stage (d : LineDecoder) (path : Path) (bytes : List UInt8) (p : Progress) :
    parse d path bytes p =
      afterPolls path ((scanned d bytes).map fun found => ⟨path, digestOf bytes, found.1, found.2⟩)
        (p.grant (linesBegun d bytes)) := by
  rw [parse, parseFrom, parseLines_ofSlice]
  cases p.grant (linesBegun d bytes) with
  | mk ending q =>
    cases ending with
    | completed => cases scanned d bytes <;> rfl
    | cancelled => rfl
    | panicked => rfl

end InstructionCoverage.RangeFile

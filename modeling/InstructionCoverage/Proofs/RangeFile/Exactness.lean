import InstructionCoverage.Proofs.RangeFile.Scan

namespace InstructionCoverage.RangeFile

open Lines Progress

def WellFormed (d : LineDecoder) (bytes : List UInt8) : Prop :=
  ∃ lines, bytes = join lines ∧ ∀ line ∈ lines, Accepted d line

def Covers (d : LineDecoder) (bytes : List UInt8) (r : AddressRange) : Prop :=
  ∃ lines, bytes = join lines ∧ (∀ line ∈ lines, Accepted d line) ∧ ∃ line ∈ lines, d.decode (text line) = .ok (some r)

/-- The fault of the first bad line. What stands behind the byte that shows it is arbitrary. -/
inductive FirstFault (d : LineDecoder) (bytes : List UInt8) : ImportFault → Prop
  | invalidByte {lines : List (List UInt8)} {line rest : List UInt8} {b : UInt8}
      (accepted : ∀ l ∈ lines, Accepted d l) (printable : Printable line) (unprintable : ¬ (0x20 ≤ b ∧ b ≤ 0x7e))
      (inside : b ≠ 0x0a) (eq : bytes = join lines ++ (line ++ b :: rest)) :
      FirstFault d bytes
        (.badLine (1 + (join lines).count 0x0a) (.invalidByte ((join lines).length + line.length) b))
  | truncated {lines : List (List UInt8)} {line : List UInt8}
      (accepted : ∀ l ∈ lines, Accepted d l) (printable : Printable line) (begun : line ≠ [])
      (eq : bytes = join lines ++ line) :
      FirstFault d bytes (.truncated (1 + (join lines).count 0x0a) bytes.length)
  | undecodable {lines : List (List UInt8)} {line rest : List UInt8} {e : DecodeError}
      (accepted : ∀ l ∈ lines, Accepted d l) (printable : Printable line) (rejected : d.decode (text line) = .error e)
      (eq : bytes = join lines ++ (line ++ 0x0a :: rest)) :
      FirstFault d bytes (.undecodable (1 + (join lines).count 0x0a) (text line) e)

theorem Accepted.not_mem {d : LineDecoder} {line : List UInt8} (h : Accepted d line) : 0x0a ∉ line :=
  h.1.not_mem

theorem readTerminated_ok_iff {d : LineDecoder} {n offset : Nat} {line : List UInt8} {r : Option AddressRange} :
    readTerminated d n offset line = .ok r ↔ Printable line ∧ d.decode (text line) = .ok r := by
  rw [readTerminated, ← badByte?_eq_none]
  cases badByte? line with
  | some found => simp
  | none => cases d.decode (text line) <;> simp

theorem scan_ok_iff {d : LineDecoder} {lines : List (List UInt8)} {tail : List UInt8} {n offset m : Nat}
    {ranges found : RangeSet} :
    scan d lines tail n offset ranges = .ok (found, m) ↔
      tail = [] ∧ (∀ line ∈ lines, Accepted d line) ∧ m = n + lines.length ∧
        ∀ r, r ∈ found ↔ r ∈ ranges ∨ ∃ line ∈ lines, d.decode (text line) = .ok (some r) := by
  induction lines generalizing n offset ranges with
  | nil =>
    rw [scan]
    by_cases ht : tail = []
    · simp only [ht, if_true, Except.ok.injEq, Prod.mk.injEq, List.not_mem_nil, false_and, exists_false, or_false,
        List.length_nil, Nat.add_zero, true_and, false_implies, implies_true]
      constructor
      · rintro ⟨rfl, rfl⟩
        exact ⟨rfl, fun r => Iff.rfl⟩
      · rintro ⟨rfl, h⟩
        exact ⟨RangeSet.ext fun r => (h r).symm, rfl⟩
    · simp [ht]
  | cons line lines ih =>
    rw [scan]
    cases hr : readTerminated d n offset line with
    | error fault =>
      have hbad : ¬ Accepted d line := by
        rintro ⟨hp, r, hd⟩
        rw [readTerminated_ok_iff.2 ⟨hp, hd⟩] at hr
        cases hr
      simp [hbad]
    | ok r =>
      obtain ⟨hp, hd⟩ := readTerminated_ok_iff.1 hr
      have hgood : Accepted d line := ⟨hp, r, hd⟩
      have hmem : ∀ x, x ∈ addRange ranges r ↔ x ∈ ranges ∨ r = some x := by
        intro x
        cases r with
        | none => simp [addRange]
        | some y => simp [addRange, or_comm, eq_comm]
      have hm : n + 1 + lines.length = n + (lines.length + 1) := by omega
      simp only [ih, List.length_cons, List.mem_cons, forall_eq_or_imp, exists_eq_or_imp, hgood, true_and, hd,
        Except.ok.injEq, hmem, or_assoc, hm]

theorem scan_append {d : LineDecoder} {lines : List (List UInt8)} (h : ∀ line ∈ lines, Accepted d line)
    (more : List (List UInt8)) (tail : List UInt8) (n offset : Nat) (ranges : RangeSet) :
    ∃ found, scan d (lines ++ more) tail n offset ranges =
      scan d more tail (n + lines.length) (offset + (join lines).length) found := by
  induction lines generalizing n offset ranges with
  | nil => exact ⟨ranges, rfl⟩
  | cons line lines ih =>
    obtain ⟨⟨hp, r, hd⟩, hlines⟩ := List.forall_mem_cons.1 h
    obtain ⟨found, hf⟩ := ih hlines (n + 1) (offset + line.length + 1) (addRange ranges r)
    refine ⟨found, ?_⟩
    rw [List.cons_append, scan, readTerminated_ok_iff.2 ⟨hp, hd⟩]
    dsimp only
    rw [hf, join_cons, List.length_append, List.length_cons, List.length_cons]
    congr 1 <;> omega

theorem split_prefix {line : List UInt8} (h : 0x0a ∉ line) (rest : List UInt8) :
    (∃ tail, split (line ++ rest) = ([], line ++ tail)) ∨
      ∃ more lines tail, split (line ++ rest) = ((line ++ more) :: lines, tail) := by
  induction line with
  | nil =>
    rw [List.nil_append]
    cases hs : split rest with
    | mk lines tail =>
      cases lines with
      | nil => exact .inl ⟨tail, rfl⟩
      | cons l lines => exact .inr ⟨l, lines, tail, rfl⟩
  | cons b line ih =>
    have hb : b ≠ 0x0a := fun e => h (e ▸ List.mem_cons_self)
    rw [List.cons_append, split, if_neg hb]
    rcases ih fun m => h (List.mem_cons_of_mem _ m) with ⟨tail, ht⟩ | ⟨more, lines, tail, ht⟩
    · exact .inl ⟨tail, by rw [ht]; rfl⟩
    · exact .inr ⟨more, lines, tail, by rw [ht]; rfl⟩

theorem scanned_of_accepted {d : LineDecoder} {lines : List (List UInt8)} (h : ∀ line ∈ lines, Accepted d line)
    (bytes : List UInt8) :
    ∃ found, scanned d (join lines ++ bytes) =
      scan d (split bytes).1 (split bytes).2 ((join lines).count 0x0a) (join lines).length found := by
  have hn : ∀ line ∈ lines, 0x0a ∉ line := fun line hl => (h line hl).not_mem
  obtain ⟨found, hf⟩ := scan_append h (split bytes).1 (split bytes).2 0 0 .empty
  refine ⟨found, ?_⟩
  rw [scanned, split_join hn, hf, count_join hn, Nat.zero_add, Nat.zero_add]

theorem scanned_of_wellFormed {d : LineDecoder} {bytes : List UInt8} (h : WellFormed d bytes) :
    ∃ found, scanned d bytes = .ok found := by
  obtain ⟨lines, rfl, ha⟩ := h
  obtain ⟨found, hf⟩ := scanned_of_accepted ha []
  rw [List.append_nil] at hf
  exact ⟨_, hf⟩

theorem scanned_of_firstFault {d : LineDecoder} {bytes : List UInt8} {fault : ImportFault}
    (h : FirstFault d bytes fault) : scanned d bytes = .error fault := by
  cases h with
  | @invalidByte lines line rest b accepted printable unprintable inside eq =>
    obtain ⟨found, hf⟩ := scanned_of_accepted accepted (line ++ b :: rest)
    have hline : 0x0a ∉ line ++ [b] := by
      simp only [List.mem_append, List.mem_singleton, not_or]
      exact ⟨printable.not_mem, fun e => inside e.symm⟩
    have hsplit : line ++ b :: rest = line ++ [b] ++ rest := by simp
    rw [eq, hf, hsplit]
    rcases split_prefix hline rest with ⟨tail, ht⟩ | ⟨more, ls, tail, ht⟩
    · rw [ht, scan, if_neg (by simp), unterminatedFault]
      simp [badByte?_append printable unprintable, Nat.add_comm]
    · rw [ht, scan, readTerminated]
      simp [badByte?_append printable unprintable, Nat.add_comm]
  | @truncated lines line accepted printable begun eq =>
    obtain ⟨found, hf⟩ := scanned_of_accepted accepted line
    rw [eq, hf, split_of_not_mem printable.not_mem, scan, if_neg begun, unterminatedFault,
      badByte?_eq_none.2 printable, List.length_append, Nat.add_comm 1]
  | @undecodable lines line rest e accepted printable rejected eq =>
    obtain ⟨found, hf⟩ := scanned_of_accepted accepted (line ++ 0x0a :: rest)
    rw [eq, hf, split_append printable.not_mem, scan, readTerminated, badByte?_eq_none.2 printable, rejected,
      Nat.add_comm 1]

theorem firstFault_of_terminated {d : LineDecoder} {before : List (List UInt8)} {line : List UInt8}
    {fault : ImportFault} (hb : ∀ l ∈ before, Accepted d l) (hl : 0x0a ∉ line)
    (h : readTerminated d ((join before).count 0x0a) (join before).length line = .error fault) (rest : List UInt8) :
    FirstFault d (join before ++ (line ++ 0x0a :: rest)) fault := by
  rcases printable_or line with hp | ⟨good, b, bad, rfl, hg, hbad⟩
  · rw [readTerminated, badByte?_eq_none.2 hp] at h
    cases hd : d.decode (text line) with
    | ok r => rw [hd] at h; cases h
    | error e =>
      rw [hd] at h
      cases h
      rw [Nat.add_comm]
      exact .undecodable hb hp hd rfl
  · have hn : b ≠ 0x0a := fun e => hl (by simp [e])
    rw [readTerminated, badByte?_append hg hbad] at h
    cases h
    rw [Nat.add_comm, List.append_assoc, List.cons_append]
    exact .invalidByte hb hg hbad hn rfl

theorem firstFault_of_unterminated {d : LineDecoder} {before : List (List UInt8)} {tail : List UInt8}
    (hb : ∀ l ∈ before, Accepted d l) (ht : 0x0a ∉ tail) (hne : tail ≠ []) :
    FirstFault d (join before ++ tail) (unterminatedFault ((join before).count 0x0a) (join before).length tail) := by
  rw [unterminatedFault]
  rcases printable_or tail with hp | ⟨good, b, bad, rfl, hg, hbad⟩
  · rw [badByte?_eq_none.2 hp, ← List.length_append, Nat.add_comm]
    exact .truncated hb hp hne rfl
  · have hn : b ≠ 0x0a := fun e => ht (by simp [e])
    rw [badByte?_append hg hbad, Nat.add_comm]
    exact .invalidByte hb hg hbad hn rfl

theorem firstFault_of_scan {d : LineDecoder} {before lines : List (List UInt8)} {tail : List UInt8}
    {ranges : RangeSet} {fault : ImportFault} (hb : ∀ line ∈ before, Accepted d line)
    (hl : ∀ line ∈ lines, 0x0a ∉ line) (ht : 0x0a ∉ tail)
    (h : scan d lines tail ((join before).count 0x0a) (join before).length ranges = .error fault) :
    FirstFault d (join before ++ (join lines ++ tail)) fault := by
  induction lines generalizing before ranges with
  | nil =>
    rw [scan] at h
    split at h
    · cases h
    · cases h
      exact firstFault_of_unterminated hb ht (by assumption)
  | cons line lines ih =>
    obtain ⟨hline, hlines⟩ := List.forall_mem_cons.1 hl
    rw [scan] at h
    split at h
    · rename_i hr
      cases h
      rw [join_cons, List.append_assoc, List.cons_append]
      exact firstFault_of_terminated hb hline hr _
    · rename_i r hr
      obtain ⟨hp, hd⟩ := readTerminated_ok_iff.1 hr
      have hb' : ∀ l ∈ before ++ [line], Accepted d l := by
        intro l hmem
        rcases List.mem_append.1 hmem with hmem | hmem
        · exact hb l hmem
        · rw [List.mem_singleton.1 hmem]
          exact ⟨hp, r, hd⟩
      have hjoin : join (before ++ [line]) = join before ++ (line ++ [0x0a]) := by simp [join]
      have hcount : (join (before ++ [line])).count 0x0a = (join before).count 0x0a + 1 := by
        rw [hjoin, List.count_append, List.count_append, List.count_eq_zero.2 hline]
        rfl
      have hlength : (join (before ++ [line])).length = (join before).length + line.length + 1 := by
        rw [hjoin]
        simp
        omega
      have hbytes : join before ++ (join (line :: lines) ++ tail) = join (before ++ [line]) ++ (join lines ++ tail) := by
        rw [hjoin, join_cons]
        simp
      rw [← hcount, ← hlength] at h
      rw [hbytes]
      exact ih hb' hlines h

theorem scanned_error_iff {d : LineDecoder} {bytes : List UInt8} {fault : ImportFault} :
    scanned d bytes = .error fault ↔ FirstFault d bytes fault := by
  constructor
  · intro h
    obtain ⟨hl, ht⟩ := not_mem_split bytes
    have hnone : ∀ line ∈ ([] : List (List UInt8)), Accepted d line := by simp
    have hf := firstFault_of_scan hnone hl ht h
    rwa [join_nil, List.nil_append, join_split] at hf
  · exact scanned_of_firstFault

theorem eq_join_iff {d : LineDecoder} {bytes : List UInt8} {lines : List (List UInt8)}
    (h : ∀ line ∈ lines, Accepted d line) : bytes = join lines ↔ split bytes = (lines, []) := by
  constructor
  · rintro rfl
    have hs := split_join (fun line hl => (h line hl).not_mem) []
    simpa [split] using hs
  · intro hs
    have hj := join_split bytes
    rw [hs, List.append_nil] at hj
    exact hj.symm

theorem wellFormed_iff {d : LineDecoder} {bytes : List UInt8} :
    WellFormed d bytes ↔ (split bytes).2 = [] ∧ ∀ line ∈ (split bytes).1, Accepted d line := by
  constructor
  · rintro ⟨lines, hj, ha⟩
    rw [(eq_join_iff ha).1 hj]
    exact ⟨rfl, ha⟩
  · rintro ⟨ht, ha⟩
    exact ⟨_, (eq_join_iff ha).2 (Prod.ext rfl ht), ha⟩

theorem covers_iff {d : LineDecoder} {bytes : List UInt8} {r : AddressRange} :
    Covers d bytes r ↔ WellFormed d bytes ∧ ∃ line ∈ (split bytes).1, d.decode (text line) = .ok (some r) := by
  constructor
  · rintro ⟨lines, hj, ha, hr⟩
    rw [(eq_join_iff ha).1 hj]
    exact ⟨⟨lines, hj, ha⟩, hr⟩
  · rintro ⟨⟨lines, hj, ha⟩, hr⟩
    rw [(eq_join_iff ha).1 hj] at hr
    exact ⟨lines, hj, ha, hr⟩

theorem scanned_ok_iff {d : LineDecoder} {bytes : List UInt8} {found : RangeSet} {n : Nat} :
    scanned d bytes = .ok (found, n) ↔
      WellFormed d bytes ∧ n = bytes.count 0x0a ∧ ∀ r, r ∈ found ↔ Covers d bytes r := by
  have hempty : ∀ r, ¬ r ∈ RangeSet.empty := fun r h => by simp [RangeSet.mem_def, RangeSet.empty] at h
  rw [scanned, scan_ok_iff, Nat.zero_add, ← and_assoc, ← wellFormed_iff]
  apply and_congr_right
  intro hw
  have hcount : (split bytes).1.length = bytes.count 0x0a := by
    obtain ⟨lines, rfl, ha⟩ := hw
    rw [(eq_join_iff ha).1 rfl, count_join fun line hl => (ha line hl).not_mem]
  simp only [hcount, covers_iff, hw, hempty, false_or, true_and]

theorem parse_lenient {p : Progress} (hp : p.Lenient) (d : LineDecoder) (path : Path) (bytes : List UInt8) :
    (parse d path bytes p).1 =
      match scanned d bytes with
      | .ok (found, n) => .ok ⟨path, digestOf bytes, found, n⟩
      | .error fault => .error (.failed ⟨path, fault⟩) := by
  rw [parse_stage, afterPolls_completed (hp.grant _)]
  cases scanned d bytes <;> rfl

theorem parse_exact (d : LineDecoder) (path : Path) (bytes : List UInt8) {p : Progress} (hp : p.Lenient) :
    ((∃ f, (parse d path bytes p).1 = .ok f) ↔ WellFormed d bytes) ∧
      (∀ f, (parse d path bytes p).1 = .ok f →
        f.path = path ∧ f.digest = digestOf bytes ∧ f.lineCount = bytes.count 0x0a ∧
          ∀ r, r ∈ f.ranges ↔ Covers d bytes r) ∧
      ∀ stop, (parse d path bytes p).1 = .error stop ↔
        ∃ fault, stop = .failed ⟨path, fault⟩ ∧ FirstFault d bytes fault := by
  rw [parse_lenient hp]
  cases h : scanned d bytes with
  | ok found =>
    obtain ⟨hw, hn, hm⟩ := scanned_ok_iff.1 h
    refine ⟨⟨fun _ => hw, fun _ => ⟨_, rfl⟩⟩, ?_, ?_⟩
    · rintro f ⟨⟩
      exact ⟨rfl, rfl, hn, hm⟩
    · intro stop
      constructor
      · rintro ⟨⟩
      · rintro ⟨fault, -, hf⟩
        rw [scanned_error_iff.2 hf] at h
        cases h
  | error fault =>
    refine ⟨⟨?_, ?_⟩, ?_, ?_⟩
    · rintro ⟨f, ⟨⟩⟩
    · intro hw
      obtain ⟨found, hf⟩ := scanned_of_wellFormed hw
      rw [hf] at h
      cases h
    · rintro f ⟨⟩
    · intro stop
      constructor
      · rintro ⟨⟩
        exact ⟨fault, rfl, scanned_error_iff.1 h⟩
      · rintro ⟨fault', rfl, hf⟩
        rw [scanned_error_iff.2 hf] at h
        cases h
        rfl

theorem hexRange_text (line : List UInt8) :
    LineDecoder.hexRange.decode (text line) = LineDecoder.decodeChars (line.map charOfByte) := by
  simp [LineDecoder.hexRange, text]

theorem parse_exact_carriage_return :
    unbounded.Lenient ∧
      (parse .hexRange ⟨"a.cov"⟩ [0x31, 0x30, 0x2d, 0x31, 0x66, 0x0a, 0x23, 0x0d, 0x0a] unbounded).1 =
        .error (.failed ⟨⟨"a.cov"⟩, .badLine 2 (.invalidByte 7 0x0d)⟩) := by
  refine ⟨unbounded_lenient, ((parse_exact _ _ _ unbounded_lenient).2.2 _).2 ⟨_, rfl, ?_⟩⟩
  have accepted : ∀ l ∈ [[0x31, 0x30, 0x2d, 0x31, 0x66]], Accepted .hexRange l := by
    intro l hl
    rw [List.mem_singleton.1 hl]
    exact ⟨by decide, _, (hexRange_text _).trans rfl⟩
  have hline : Printable [0x23] := by decide
  have hbytes : [0x31, 0x30, 0x2d, 0x31, 0x66, 0x0a, 0x23, 0x0d, 0x0a] =
      join [[0x31, 0x30, 0x2d, 0x31, 0x66]] ++ ([0x23] ++ 0x0d :: [0x0a]) := rfl
  exact .invalidByte accepted hline (by decide) (by decide) hbytes

end InstructionCoverage.RangeFile

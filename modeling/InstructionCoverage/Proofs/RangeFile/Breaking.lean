import InstructionCoverage.Proofs.RangeFile.Exactness
import InstructionCoverage.Proofs.RangeFile.Streaming

namespace InstructionCoverage

def LineError.broken (kind : FailureKind) (e : LineError) : LineError :=
  if e.isEndOfInput then .unreadable e.offset kind "stream broke" else e

def ImportFault.broken (kind : FailureKind) : ImportFault → ImportFault
  | .truncated line offset =>
    if kind = .unexpectedEof then .truncated line offset else .badLine line (.unreadable offset kind "stream broke")
  | f => f

namespace Source

structure Breaks (chunk : Nat) (fault : Fault) (s t : Source) : Prop where
  slice : s.supply = .slice
  stream : t.supply = .stream chunk (some fault)
  position : t.position = s.position
  reach : s.position + s.rest.length = fault.after
  delivers : s.rest <+: t.rest

section Breaks

variable {chunk : Nat} {fault : Fault} {s t : Source}

theorem Breaks.window_nil (h : Breaks chunk fault s t) (hs : s.rest = []) :
    t.window chunk (some fault) = .error (.unreadable s.position fault.kind "stream broke") := by
  have hreach := h.reach
  rw [hs, List.length_nil] at hreach
  rw [Source.window, if_pos (by rw [h.position]; omega), h.position]

theorem Breaks.window_cons (h : Breaks chunk fault s t) (hchunk : 0 < chunk) {b : UInt8} {rest : List UInt8}
    (hs : s.rest = b :: rest) : ∃ more, t.window chunk (some fault) = .ok (b :: more) := by
  have hreach := h.reach
  obtain ⟨behind, hbehind⟩ := h.delivers
  rw [hs, List.length_cons] at hreach
  obtain ⟨k, hk⟩ : ∃ k, min chunk (fault.after - t.position) = k + 1 := by
    rw [h.position]
    exact ⟨min chunk (fault.after - s.position) - 1, by omega⟩
  rw [Source.window, if_neg (by rw [h.position]; omega), ← hbehind, hs, hk]
  exact ⟨_, rfl⟩

theorem Breaks.step (h : Breaks chunk fault s t) {b : UInt8} {rest : List UInt8} (hs : s.rest = b :: rest) :
    Breaks chunk fault s.step t.step where
  slice := h.slice
  stream := h.stream
  position := by rw [Source.step, Source.step, h.position]
  reach := by
    have hreach := h.reach
    simp only [Source.step, hs, List.tail_cons, List.length_cons] at hreach ⊢
    omega
  delivers := by
    obtain ⟨behind, hbehind⟩ := h.delivers
    refine ⟨behind, ?_⟩
    simp only [Source.step, ← hbehind, hs, List.tail_cons, List.cons_append]

theorem breaks_follows (hchunk : 0 < chunk) : Follows (LineError.broken fault.kind) (Breaks chunk fault) where
  position h := h.position
  byte := by
    intro s s' t b h hs
    rw [next, h.slice] at hs
    rw [next, h.stream]
    dsimp only at hs ⊢
    cases hr : s.rest with
    | nil =>
      rw [hr] at hs
      cases hs
    | cons c rest =>
      rw [hr] at hs
      cases hs
      obtain ⟨more, hw⟩ := h.window_cons hchunk hr
      exact ⟨t.step, by rw [hw], h.step hr⟩
  failure := by
    intro s t e h hs
    rw [next, h.slice] at hs
    rw [next, h.stream]
    dsimp only at hs ⊢
    cases hr : s.rest with
    | nil =>
      rw [hr] at hs
      cases hs
      rw [h.window_nil hr]
      rfl
    | cons c rest =>
      rw [hr] at hs
      cases hs
  invalid _ _ := rfl

theorem Breaks.isExhausted (h : Breaks chunk fault s t) (hchunk : 0 < chunk) :
    s.isExhausted = .ok s.rest.isEmpty ∧
      t.isExhausted =
        if s.rest.isEmpty then .error (.unreadable s.position fault.kind "stream broke") else .ok false := by
  rw [Source.isExhausted, Source.isExhausted, h.slice, h.stream]
  refine ⟨rfl, ?_⟩
  dsimp only
  cases hr : s.rest with
  | nil => rw [h.window_nil hr]; rfl
  | cons b rest =>
    obtain ⟨more, hw⟩ := h.window_cons hchunk hr
    rw [hw]
    rfl

end Breaks

theorem ofStream_breaks {fault : Fault} {bytes : List UInt8} (h : fault.after ≤ bytes.length) (chunk : Nat) :
    Breaks chunk fault (.ofSlice (bytes.take fault.after)) (.ofStream chunk (some fault) bytes) where
  slice := rfl
  stream := rfl
  position := rfl
  reach := by simp [ofSlice, h]
  delivers := List.take_prefix _ _

end Source

namespace RangeFile

open Lines Progress Source

def broken (file : Path) (fault : Fault) : Except ParseStop (RangeSet × Nat) → Except ParseStop (RangeSet × Nat)
  | .ok found => .error (.failed ⟨file, .badLine (found.2 + 1) (.unreadable fault.after fault.kind "stream broke")⟩)
  | .error (.failed e) => .error (.failed ⟨e.file, e.fault.broken fault.kind⟩)
  | .error .panicked => .error .panicked

theorem parseLines_unready {d : LineDecoder} {file : Path} {s : Source} {n : Nat} {ranges : RangeSet} {p : Progress}
    {e : LineError} (h : s.isExhausted = .error e) :
    parseLines d file s n ranges p = (.error (.failed ⟨file, .badLine (n + 1) e⟩), p) := by
  rw [parseLines, h]

theorem parseLines_breaks {chunk : Nat} {fault : Fault} {s t : Source} (h : Breaks chunk fault s t)
    (hchunk : 0 < chunk) (d : LineDecoder) (file : Path) (n : Nat) (ranges : RangeSet) (p : Progress) :
    parseLines d file t n ranges p =
      (broken file fault (parseLines d file s n ranges p).1, (parseLines d file s n ranges p).2) := by
  have hready {s t : Source} (h : Breaks chunk fault s t) (hs : s.isExhausted = .ok false) :
      t.isExhausted = .ok false := by
    obtain ⟨hslice, hstream⟩ := h.isExhausted hchunk
    rw [hslice, Except.ok.injEq] at hs
    rw [hstream, hs]
    rfl
  induction s, n, ranges, p using parseLines.induct d file generalizing t with
  | case1 s n ranges p e hs =>
    rw [(h.isExhausted hchunk).1] at hs
    cases hs
  | case2 s n ranges p hs =>
    -- The slice is at its end between two lines, so the stream breaks when it is asked for more.
    obtain ⟨hslice, hstream⟩ := h.isExhausted hchunk
    have hempty : s.rest.isEmpty = true := by rwa [hslice, Except.ok.injEq] at hs
    have hreach : s.position = fault.after := by
      have hr := h.reach
      rwa [List.isEmpty_iff.1 hempty, List.length_nil, Nat.add_zero] at hr
    rw [hempty, if_pos rfl] at hstream
    rw [parseLines_exhausted hs, parseLines_unready hstream, hreach]
    rfl
  | case3 s n ranges p hs q hp =>
    have hstop : p.poll.1 ≠ .completed := by simp [hp]
    rw [parseLines_stopped hs hstop (.ok (ranges, n)), parseLines_stopped (hready h hs) hstop (.ok (ranges, n)), hp]
    rfl
  | case4 s n ranges p hs q hp =>
    have hstop : p.poll.1 ≠ .completed := by simp [hp]
    rw [parseLines_stopped hs hstop (.ok (ranges, n)), parseLines_stopped (hready h hs) hstop (.ok (ranges, n)), hp]
    rfl
  | case5 s n ranges p hs q hp e s' hr =>
    obtain ⟨t', ht, -⟩ := (breaks_follows hchunk).readLine h hr
    have hgo : p.poll.1 = .completed := by rw [hp]
    rw [parseLines_unread hs hgo hr, parseLines_unread (hready h hs) hgo ht, LineError.broken]
    cases hend : e.isEndOfInput with
    | true => simp [broken, ImportFault.broken, LineError.isEndOfInput, LineError.offset]
    | false => simp [hend, broken, ImportFault.broken]
  | case6 s n ranges p hs q hp line s' hr e hd =>
    obtain ⟨t', ht, -⟩ := (breaks_follows hchunk).readLine h hr
    have hgo : p.poll.1 = .completed := by rw [hp]
    rw [parseLines_undecodable hs hgo hr hd, parseLines_undecodable (hready h hs) hgo ht hd]
    rfl
  | case7 s n ranges p hs q hp line s' hr r hd ih =>
    obtain ⟨t', ht, hm⟩ := (breaks_follows hchunk).readLine h hr
    have hgo : p.poll.1 = .completed := by rw [hp]
    have hq : p.poll.2 = q := by rw [hp]
    rw [parseLines_line hs hgo hr hd, parseLines_line (hready h hs) hgo ht hd, hq]
    exact ih hm

def shownAfter (bytes : List UInt8) : ImportFault → Option Nat
  | .badLine _ e => some (e.offset + 1)
  | .undecodable line _ _ => some (join ((split bytes).1.take line)).length
  | _ => none

def ShownWithin (bytes : List UInt8) (n : Nat) (fault : ImportFault) : Prop :=
  ∃ k ∈ shownAfter bytes fault, k ≤ n

def breakFault (bytes : List UInt8) (n : Nat) (kind : FailureKind) : ImportFault :=
  let line := 1 + (bytes.take n).count 0x0a
  if (0 < n ∧ bytes[n - 1]? ≠ some 0x0a) ∧ kind = .unexpectedEof then .truncated line n
  else .badLine line (.unreadable n kind "stream broke")

theorem FirstFault.broken_of_shown {d : LineDecoder} {bytes : List UInt8} {fault : ImportFault}
    (h : FirstFault d bytes fault) {k : Nat} (hk : k ∈ shownAfter bytes fault) (kind : FailureKind) :
    fault.broken kind = fault := by
  cases h with
  | invalidByte accepted printable unprintable inside eq => rfl
  | truncated accepted printable begun eq => cases hk
  | undecodable accepted printable rejected eq => rfl

theorem shownAfter_undecodable {d : LineDecoder} {lines : List (List UInt8)} (h : ∀ line ∈ lines, Accepted d line)
    {line : List UInt8} (hline : 0x0a ∉ line) (behind : List UInt8) (text : String) (e : DecodeError) :
    shownAfter (join lines ++ (line ++ 0x0a :: behind)) (.undecodable (1 + (join lines).count 0x0a) text e) =
      some (join lines ++ (line ++ [0x0a])).length := by
  have hlines : ∀ line ∈ lines, 0x0a ∉ line := fun line hl => (h line hl).not_mem
  have htake (more : List (List UInt8)) : (lines ++ line :: more).take (1 + lines.length) = lines ++ [line] := by
    rw [Nat.add_comm, List.take_length_add_append]
    rfl
  rw [shownAfter, split_join hlines, split_append hline, count_join hlines, htake]
  simp [join]

theorem FirstFault.stable {d : LineDecoder} {bytes : List UInt8} {fault : ImportFault} (h : FirstFault d bytes fault)
    {k : Nat} (hk : k ∈ shownAfter bytes fault) (rest : List UInt8) :
    k ≤ bytes.length ∧ FirstFault d (bytes.take k ++ rest) fault ∧ k ∈ shownAfter (bytes.take k ++ rest) fault := by
  cases h with
  | @invalidByte lines line behind b accepted printable unprintable inside eq =>
    have hread : k = (join lines ++ (line ++ [b])).length := by
      cases hk
      simp only [LineError.offset, List.length_append, List.length_singleton]
      omega
    have hbytes : bytes = (join lines ++ (line ++ [b])) ++ behind := by simp [eq]
    rw [hbytes, hread, List.take_left]
    refine ⟨by simp, .invalidByte accepted printable unprintable inside (by simp; rfl), ?_⟩
    rw [← hread]
    exact hk
  | truncated accepted printable begun eq => cases hk
  | @undecodable lines line behind e accepted printable rejected eq =>
    have hread : k = (join lines ++ (line ++ [0x0a])).length := by
      rw [eq, shownAfter_undecodable accepted printable.not_mem] at hk
      exact (Option.some.inj hk).symm
    have hbytes : bytes = (join lines ++ (line ++ [0x0a])) ++ behind := by simp [eq]
    have hrest : (join lines ++ (line ++ [0x0a])) ++ rest = join lines ++ (line ++ 0x0a :: rest) := by simp
    rw [hbytes, hread, List.take_left, hrest]
    refine ⟨by simp, .undecodable accepted printable rejected rfl, ?_⟩
    exact shownAfter_undecodable accepted printable.not_mem rest _ e

theorem firstFault_take_iff {d : LineDecoder} {bytes : List UInt8} {n : Nat} {fault : ImportFault} :
    FirstFault d bytes fault ∧ ShownWithin bytes n fault ↔
      FirstFault d (bytes.take n) fault ∧ (shownAfter (bytes.take n) fault).isSome := by
  constructor
  · rintro ⟨h, k, hk, hkn⟩
    have htake := List.take_append_drop k (bytes.take n)
    rw [List.take_take, Nat.min_eq_left hkn] at htake
    obtain ⟨-, hfault, hshown⟩ := h.stable hk ((bytes.take n).drop k)
    rw [htake] at hfault hshown
    exact ⟨hfault, Option.isSome_of_mem hshown⟩
  · rintro ⟨h, hsome⟩
    obtain ⟨k, hk⟩ := Option.isSome_iff_exists.1 hsome
    obtain ⟨hlen, hfault, hshown⟩ := h.stable hk ((bytes.take n).drop k ++ bytes.drop n)
    rw [← List.append_assoc, List.take_append_drop, List.take_append_drop] at hfault hshown
    exact ⟨hfault, k, hshown, Nat.le_trans hlen (List.length_take_le _ _)⟩

theorem getLast?_join {lines : List (List UInt8)} (h : lines ≠ []) : (join lines).getLast? = some 0x0a := by
  obtain ⟨front, line, rfl⟩ := (List.eq_nil_or_concat lines).resolve_left h
  simp [join]

theorem getLast?_take_pos {bytes : List UInt8} {n : Nat} (hn : n ≤ bytes.length) (hpos : 0 < n) :
    (bytes.take n).getLast? = bytes[n - 1]? := by
  rw [List.getLast?_eq_getElem?, List.length_take, Nat.min_eq_left hn, List.getElem?_take_of_lt (by omega)]

theorem breakFault_between {d : LineDecoder} {bytes : List UInt8} {n : Nat} (hn : n ≤ bytes.length)
    (h : WellFormed d (bytes.take n)) (kind : FailureKind) :
    breakFault bytes n kind = .badLine ((bytes.take n).count 0x0a + 1) (.unreadable n kind "stream broke") := by
  have hend : ¬ (0 < n ∧ bytes[n - 1]? ≠ some 0x0a) := by
    rintro ⟨hpos, hlast⟩
    obtain ⟨lines, hlines, -⟩ := h
    have hne : lines ≠ [] := by
      rintro rfl
      have hlen := congrArg List.length hlines
      simp only [List.length_take, join_nil, List.length_nil] at hlen
      omega
    rw [← getLast?_take_pos hn hpos, hlines, getLast?_join hne] at hlast
    exact hlast rfl
  rw [breakFault, if_neg fun hboth => hend hboth.1, Nat.add_comm]

theorem breakFault_inside {d : LineDecoder} {bytes : List UInt8} {n line offset : Nat} (hn : n ≤ bytes.length)
    (h : FirstFault d (bytes.take n) (.truncated line offset)) (kind : FailureKind) :
    breakFault bytes n kind = (ImportFault.truncated line offset).broken kind := by
  generalize hfault : ImportFault.truncated line offset = fault at h
  cases h with
  | invalidByte accepted printable unprintable inside eq => cases hfault
  | undecodable accepted printable rejected eq => cases hfault
  | @truncated lines tail accepted printable begun eq =>
    have hlen : (bytes.take n).length = n := by simp [hn]
    have hcount : (bytes.take n).count 0x0a = (join lines).count 0x0a := by
      rw [eq, List.count_append, List.count_eq_zero.2 printable.not_mem, Nat.add_zero]
    have hinside : 0 < n ∧ bytes[n - 1]? ≠ some 0x0a := by
      have hpos : 0 < n := by
        have htail := List.length_pos_iff.2 begun
        rw [eq, List.length_append] at hlen
        omega
      refine ⟨hpos, fun hlast => ?_⟩
      rw [← getLast?_take_pos hn hpos, eq, List.getLast?_append, List.getLast?_eq_some_getLast begun] at hlast
      exact printable.not_mem (Option.some.inj hlast ▸ List.getLast_mem begun)
    cases hfault
    rw [breakFault, hcount, hlen]
    simp only [and_iff_right hinside, ImportFault.broken]

theorem parseFrom_breaks {chunk : Nat} (hchunk : 0 < chunk) {fault : Fault} {bytes : List UInt8}
    (hn : fault.after ≤ bytes.length) {p : Progress} (hp : p.Lenient) (d : LineDecoder) (path : Path) (digest : String) :
    (parseFrom d path digest (.ofStream chunk (some fault) bytes) p).1 =
      match scanned d (bytes.take fault.after) with
      | .ok found => .error (.failed ⟨path, .badLine (found.2 + 1) (.unreadable fault.after fault.kind "stream broke")⟩)
      | .error f => .error (.failed ⟨path, f.broken fault.kind⟩) := by
  have hgranted := hp.grant (linesBegun d (bytes.take fault.after))
  rw [parseFrom, parseLines_breaks (ofStream_breaks hn chunk) hchunk, parseLines_ofSlice, afterPolls_completed hgranted]
  cases scanned d (bytes.take fault.after) <;> rfl

/-- A file whose stream breaks is rejected: for the fault of its first bad line if that shows in the bytes before the
break, else for the break. A break behind the end of the file is never met. -/
theorem broken_stream {chunk : Nat} (hchunk : 0 < chunk) (n : Nat) (kind : FailureKind) (d : LineDecoder) (path : Path)
    (bytes : List UInt8) {p : Progress} (hp : p.Lenient) :
    (n ≤ bytes.length →
      ∃ fault, (parseFrom d path (digestOf bytes) (.ofStream chunk (some ⟨n, kind⟩) bytes) p).1 =
          .error (.failed ⟨path, fault⟩) ∧
        (∀ f, (parse d path bytes p).1 = .error (.failed ⟨path, f⟩) → ShownWithin bytes n f → fault = f) ∧
        ((∀ f, (parse d path bytes p).1 = .error (.failed ⟨path, f⟩) → ¬ ShownWithin bytes n f) →
          fault = breakFault bytes n kind)) ∧
    (bytes.length < n →
      parseFrom d path (digestOf bytes) (.ofStream chunk (some ⟨n, kind⟩) bytes) p = parse d path bytes p) := by
  constructor
  · intro hn
    have hwhole : ∀ f, (parse d path bytes p).1 = .error (.failed ⟨path, f⟩) ↔ FirstFault d bytes f := by
      intro f
      rw [parse_lenient hp, ← scanned_error_iff]
      cases scanned d bytes <;> simp
    simp only [hwhole]
    rw [parseFrom_breaks hchunk hn hp]
    cases hs : scanned d (bytes.take n) with
    | ok found =>
      obtain ⟨hw, hcount, -⟩ := scanned_ok_iff.1 hs
      refine ⟨_, rfl, fun f hf hshown => ?_, fun _ => ?_⟩
      · have hf' := scanned_error_iff.2 (firstFault_take_iff.1 ⟨hf, hshown⟩).1
        rw [hs] at hf'
        cases hf'
      · rw [breakFault_between hn hw, hcount]
    | error f =>
      have hf := scanned_error_iff.1 hs
      refine ⟨_, rfl, fun g hg hshown => ?_, fun hnone => ?_⟩
      · obtain ⟨hg', hk⟩ := firstFault_take_iff.1 ⟨hg, hshown⟩
        obtain ⟨k, hk⟩ := Option.isSome_iff_exists.1 hk
        have hfg := scanned_error_iff.2 hg'
        rw [hs] at hfg
        cases hfg
        exact hg'.broken_of_shown hk kind
      · cases hk : shownAfter (bytes.take n) f with
        | some k =>
          obtain ⟨hf', hshown⟩ := firstFault_take_iff.2 ⟨hf, by rw [hk]; rfl⟩
          exact absurd hshown (hnone f hf')
        | none =>
          cases f with
          | truncated line offset => exact (breakFault_inside hn hf kind).symm
          | unreadable e => cases hf
          | badLine line e => cases hk
          | undecodable line text e => cases hk
          | cancelled => cases hf
  · intro hn
    have hunbroken : Unbroken (some ⟨n, kind⟩) bytes.length := by
      rintro f ⟨⟩
      exact hn
    rw [parse, parseFrom, parseFrom, parseLines_mirrors (ofStream_mirrors hunbroken chunk) hchunk]

def badBytes : List UInt8 :=
  [0x31, 0x30, 0x2d, 0x31, 0x34, 0x0a, 0x7a, 0x7a, 0x0a]

theorem broken_stream_cut :
    unbounded.Lenient ∧
      (parseFrom .hexRange ⟨"a.cov"⟩ (digestOf badBytes) (.ofStream 2 (some ⟨8, .unexpectedEof⟩) badBytes)
          unbounded).1 = .error (.failed ⟨⟨"a.cov"⟩, .truncated 2 8⟩) ∧
      (parseFrom .hexRange ⟨"a.cov"⟩ (digestOf badBytes) (.ofStream 2 (some ⟨9, .unexpectedEof⟩) badBytes)
          unbounded).1 =
        .error (.failed ⟨⟨"a.cov"⟩, .undecodable 2 "zz" (.range (.invalidAddress "zz"))⟩) ∧
      (parseFrom .hexRange ⟨"a.cov"⟩ (digestOf badBytes) (.ofStream 2 (some ⟨6, .unexpectedEof⟩) badBytes)
          unbounded).1 = .error (.failed ⟨⟨"a.cov"⟩, .badLine 2 (.unreadable 6 .unexpectedEof "stream broke")⟩) := by
  have hwhole : (parse .hexRange ⟨"a.cov"⟩ badBytes unbounded).1 =
      .error (.failed ⟨⟨"a.cov"⟩, .undecodable 2 "zz" (.range (.invalidAddress "zz"))⟩) := by
    have accepted : ∀ l ∈ [[0x31, 0x30, 0x2d, 0x31, 0x34]], Accepted .hexRange l := by
      intro l hl
      rw [List.mem_singleton.1 hl]
      exact ⟨by decide, _, (hexRange_text _).trans rfl⟩
    have hline : Printable [0x7a, 0x7a] := by decide
    have hfault : FirstFault .hexRange badBytes (.undecodable 2 "zz" (.range (.invalidAddress "zz"))) :=
      .undecodable accepted hline ((hexRange_text _).trans rfl) rfl
    rw [parse_lenient unbounded_lenient, scanned_error_iff.2 hfault]
  have hlate {n : Nat} (hn : n < 9) : ∀ f, (parse .hexRange ⟨"a.cov"⟩ badBytes unbounded).1 =
      .error (.failed ⟨⟨"a.cov"⟩, f⟩) → ¬ ShownWithin badBytes n f := by
    intro f hf
    rw [hwhole] at hf
    cases hf
    rintro ⟨k, ⟨⟩, hk⟩
    have hnine : (join ((split badBytes).1.take 2)).length = 9 := by decide
    omega
  have run (n : Nat) := broken_stream Nat.zero_lt_two n .unexpectedEof .hexRange ⟨"a.cov"⟩ badBytes unbounded_lenient
  refine ⟨unbounded_lenient, ?_, ?_, ?_⟩
  · obtain ⟨fault, hr, -, hbreak⟩ := (run 8).1 (by decide)
    rw [hr, hbreak (hlate (by decide))]
    rfl
  · obtain ⟨fault, hr, hshown, -⟩ := (run 9).1 (by decide)
    rw [hr, hshown _ hwhole ⟨9, by decide, Nat.le_refl 9⟩]
  · obtain ⟨fault, hr, -, hbreak⟩ := (run 6).1 (by decide)
    rw [hr, hbreak (hlate (by decide))]
    rfl

end RangeFile

end InstructionCoverage

import InstructionCoverage.Proofs.RangeFile.Scan
import InstructionCoverage.Proofs.Reading.Simulation

/-!
A stream that does not break reads like the loaded bytes that it supplies, however small the pieces that it offers.
Only the error at the end of the input is another one.
-/

namespace InstructionCoverage

def LineError.streamed : LineError → LineError
  | .truncated offset => .unreadable offset .unexpectedEof "failed to fill whole buffer"
  | e => e

@[simp] theorem LineError.streamed_offset (e : LineError) : e.streamed.offset = e.offset := by
  cases e <;> rfl

@[simp] theorem LineError.streamed_isEndOfInput (e : LineError) : e.streamed.isEndOfInput = e.isEndOfInput := by
  cases e <;> rfl

theorem LineError.streamed_of_not_end {e : LineError} (h : e.isEndOfInput = false) : e.streamed = e := by
  cases e with
  | truncated offset => cases h
  | invalidByte offset byte => rfl
  | unreadable offset kind text => rfl

inductive ReadStep where
  | line
  | byte
  | exhausted

inductive Reading where
  | line (text : String)
  | byte (b : UInt8)
  | exhausted (yes : Bool)
  | failed (e : LineError)
  deriving DecidableEq

def Reading.streamed : Reading → Reading
  | .failed e => .failed e.streamed
  | r => r

namespace Source

def perform (s : Source) : ReadStep → Reading × Source
  | .line =>
    match s.readLine with
    | (.ok text, t) => (.line text, t)
    | (.error e, t) => (.failed e, t)
  | .byte =>
    match s.next with
    | .ok (b, t) => (.byte b, t)
    | .error e => (.failed e, s)
  | .exhausted =>
    match s.isExhausted with
    | .ok yes => (.exhausted yes, s)
    | .error e => (.failed e, s)

def observe (s : Source) : List ReadStep → List (Reading × Nat)
  | [] => []
  | step :: steps =>
    let r := s.perform step
    (r.1, r.2.position) :: r.2.observe steps

def Unbroken (fault : Option Fault) (size : Nat) : Prop :=
  ∀ f ∈ fault, size < f.after

structure Mirrors (chunk : Nat) (fault : Option Fault) (s t : Source) : Prop where
  slice : s.supply = .slice
  stream : t = { s with supply := .stream chunk fault }
  unbroken : Unbroken fault (s.position + s.rest.length)

section Mirrors

variable {chunk : Nat} {fault : Option Fault} {s t : Source}

theorem Mirrors.position (h : Mirrors chunk fault s t) : t.position = s.position := by
  rw [h.stream]

theorem Mirrors.window (h : Mirrors chunk fault s t) (hchunk : 0 < chunk) :
    ∃ n, t.window chunk fault = .ok (s.rest.take (n + 1)) := by
  obtain ⟨hslice, rfl, hunbroken⟩ := h
  cases fault with
  | none =>
    obtain ⟨n, rfl⟩ := Nat.exists_eq_add_of_lt hchunk
    exact ⟨n, by rw [Source.window, Nat.zero_add]⟩
  | some f =>
    have hf : s.position < f.after := Nat.lt_of_le_of_lt (Nat.le_add_right _ _) (hunbroken f rfl)
    obtain ⟨n, hn⟩ : ∃ n, min chunk (f.after - s.position) = n + 1 :=
      ⟨min chunk (f.after - s.position) - 1, by omega⟩
    refine ⟨n, ?_⟩
    rw [Source.window, if_neg (Nat.not_le.2 hf)]
    exact congrArg (fun k => Except.ok (s.rest.take k)) hn

theorem Mirrors.isExhausted (h : Mirrors chunk fault s t) (hchunk : 0 < chunk) :
    t.isExhausted = s.isExhausted ∧ s.isExhausted = .ok s.rest.isEmpty := by
  obtain ⟨n, hw⟩ := h.window hchunk
  have hslice : s.isExhausted = .ok s.rest.isEmpty := by rw [Source.isExhausted, h.slice]
  refine ⟨?_, hslice⟩
  have hsupply : t.supply = .stream chunk fault := by rw [h.stream]
  rw [hslice, Source.isExhausted, hsupply]
  dsimp only
  rw [hw]
  cases s.rest <;> rfl

theorem Mirrors.next (h : Mirrors chunk fault s t) (hchunk : 0 < chunk) :
    match s.next with
    | .ok (b, s') => ∃ t', t.next = .ok (b, t') ∧ Mirrors chunk fault s' t'
    | .error e => t.next = .error e.streamed := by
  obtain ⟨n, hw⟩ := h.window hchunk
  have hsupply : t.supply = .stream chunk fault := by rw [h.stream]
  rw [Source.next, Source.next, h.slice, hsupply]
  dsimp only
  rw [hw]
  cases hr : s.rest with
  | nil => rw [h.stream]; rfl
  | cons b rest =>
    refine ⟨t.step, rfl, h.slice, by rw [h.stream]; rfl, ?_⟩
    have hleft : s.step.position + s.step.rest.length = s.position + s.rest.length := by
      simp only [step, hr, List.tail_cons, List.length_cons]
      omega
    rw [hleft]
    exact h.unbroken

theorem Mirrors.next_ok (h : Mirrors chunk fault s t) (hchunk : 0 < chunk) {b : UInt8} {s' : Source}
    (hs : s.next = .ok (b, s')) : ∃ t', t.next = .ok (b, t') ∧ Mirrors chunk fault s' t' := by
  have hnext := h.next hchunk
  rwa [hs] at hnext

theorem Mirrors.next_error (h : Mirrors chunk fault s t) (hchunk : 0 < chunk) {e : LineError}
    (hs : s.next = .error e) : t.next = .error e.streamed := by
  have hnext := h.next hchunk
  rwa [hs] at hnext

theorem mirrors_follows (hchunk : 0 < chunk) : Follows LineError.streamed (Mirrors chunk fault) where
  position h := h.position
  byte h hs := h.next_ok hchunk hs
  failure h hs := h.next_error hchunk hs
  invalid _ _ := rfl

theorem Mirrors.readLine (h : Mirrors chunk fault s t) (hchunk : 0 < chunk) {result : Except LineError String}
    {s' : Source} (hs : s.readLine = (result, s')) :
    ∃ t', t.readLine = (result.mapError LineError.streamed, t') ∧ Mirrors chunk fault s' t' :=
  (mirrors_follows hchunk).readLine h hs

theorem Mirrors.perform (h : Mirrors chunk fault s t) (hchunk : 0 < chunk) (step : ReadStep) :
    (t.perform step).1 = (s.perform step).1.streamed ∧ Mirrors chunk fault (s.perform step).2 (t.perform step).2 := by
  rw [Source.perform.eq_def, Source.perform.eq_def]
  cases step with
  | line =>
    cases hs : s.readLine with
    | mk result s' =>
      obtain ⟨t', ht, hm⟩ := h.readLine hchunk hs
      rw [ht]
      cases result with
      | ok text => exact ⟨rfl, hm⟩
      | error e => exact ⟨rfl, hm⟩
  | byte =>
    cases hs : s.next with
    | ok found =>
      obtain ⟨b, s'⟩ := found
      obtain ⟨t', ht, hm⟩ := h.next_ok hchunk hs
      rw [ht]
      exact ⟨rfl, hm⟩
    | error e =>
      rw [h.next_error hchunk hs]
      exact ⟨rfl, h⟩
  | exhausted =>
    obtain ⟨hsame, hempty⟩ := h.isExhausted hchunk
    rw [hsame, hempty]
    exact ⟨rfl, h⟩

theorem Mirrors.observe (h : Mirrors chunk fault s t) (hchunk : 0 < chunk) (steps : List ReadStep) :
    t.observe steps = (s.observe steps).map fun r => (r.1.streamed, r.2) := by
  induction steps generalizing s t with
  | nil => rfl
  | cons step steps ih =>
    obtain ⟨hresult, hm⟩ := h.perform hchunk step
    rw [Source.observe, Source.observe, List.map_cons, ← ih hm, hresult, hm.position]

end Mirrors

end Source

namespace RangeFile

open Source

theorem parseLines_mirrors {chunk : Nat} {fault : Option Fault} {s t : Source} (h : Mirrors chunk fault s t)
    (hchunk : 0 < chunk) (d : LineDecoder) (file : Path) (n : Nat) (ranges : RangeSet) (p : Progress) :
    parseLines d file t n ranges p = parseLines d file s n ranges p := by
  have hsame {s t : Source} (h : Mirrors chunk fault s t) := (h.isExhausted hchunk).1
  induction s, n, ranges, p using parseLines.induct d file generalizing t with
  | case1 s n ranges p e hs =>
    rw [(h.isExhausted hchunk).2] at hs
    cases hs
  | case2 s n ranges p hs => rw [parseLines_exhausted hs, parseLines_exhausted ((hsame h).trans hs)]
  | case3 s n ranges p hs q hp =>
    have hstop : p.poll.1 ≠ .completed := by simp [hp]
    rw [parseLines_stopped hs hstop (.ok (ranges, n)), parseLines_stopped ((hsame h).trans hs) hstop]
  | case4 s n ranges p hs q hp =>
    have hstop : p.poll.1 ≠ .completed := by simp [hp]
    rw [parseLines_stopped hs hstop (.ok (ranges, n)), parseLines_stopped ((hsame h).trans hs) hstop]
  | case5 s n ranges p hs q hp e s' hr =>
    obtain ⟨t', ht, -⟩ := h.readLine hchunk hr
    have hgo : p.poll.1 = .completed := by rw [hp]
    rw [parseLines_unread hs hgo hr, parseLines_unread ((hsame h).trans hs) hgo ht, LineError.streamed_isEndOfInput,
      LineError.streamed_offset]
    cases hend : e.isEndOfInput with
    | true => rfl
    | false => rw [LineError.streamed_of_not_end hend]
  | case6 s n ranges p hs q hp line s' hr e hd =>
    obtain ⟨t', ht, -⟩ := h.readLine hchunk hr
    have hgo : p.poll.1 = .completed := by rw [hp]
    rw [parseLines_undecodable hs hgo hr hd, parseLines_undecodable ((hsame h).trans hs) hgo ht hd]
  | case7 s n ranges p hs q hp line s' hr r hd ih =>
    obtain ⟨t', ht, hm⟩ := h.readLine hchunk hr
    have hgo : p.poll.1 = .completed := by rw [hp]
    have hq : p.poll.2 = q := by rw [hp]
    rw [parseLines_line hs hgo hr hd, parseLines_line ((hsame h).trans hs) hgo ht hd, hq]
    exact ih hm

theorem ofStream_mirrors {fault : Option Fault} {bytes : List UInt8} (h : Unbroken fault bytes.length) (chunk : Nat) :
    Mirrors chunk fault (.ofSlice bytes) (.ofStream chunk fault bytes) :=
  ⟨rfl, rfl, by simpa [ofSlice] using h⟩

/-- Whatever sequence of steps a cursor is taken through, a stream that does not break gives what the loaded bytes
give, at the same positions; and a file is parsed alike from both, with the same polls of the handle. -/
theorem stream_like_slice {chunk : Nat} (hchunk : 0 < chunk) {fault : Option Fault} {bytes : List UInt8}
    (hfault : Unbroken fault bytes.length) :
    (∀ steps, (Source.ofStream chunk fault bytes).observe steps =
      ((Source.ofSlice bytes).observe steps).map fun r => (r.1.streamed, r.2)) ∧
    ∀ d path p, parseFrom d path (digestOf bytes) (.ofStream chunk fault bytes) p = parse d path bytes p := by
  have hm := ofStream_mirrors hfault chunk
  refine ⟨hm.observe hchunk, ?_⟩
  intro d path p
  rw [parse, parseFrom, parseFrom, parseLines_mirrors hm hchunk]

def cutBytes : List UInt8 :=
  [0x31, 0x30, 0x2d, 0x31, 0x34, 0x0a, 0x31, 0x30]

theorem stream_like_slice_cut :
    Unbroken (some ⟨9, .other⟩) cutBytes.length ∧
      (Source.ofStream 2 (some ⟨9, .other⟩) cutBytes).observe [.line, .exhausted, .byte, .line, .byte, .exhausted] =
        [(.line "10-14", 6), (.exhausted false, 6), (.byte 0x31, 7),
          (.failed (.unreadable 8 .unexpectedEof "failed to fill whole buffer"), 8),
          (.failed (.unreadable 8 .unexpectedEof "failed to fill whole buffer"), 8), (.exhausted true, 8)] ∧
      (parseFrom .hexRange ⟨"a.cov"⟩ (digestOf cutBytes) (.ofStream 2 (some ⟨9, .other⟩) cutBytes) .unbounded).2.polls =
        2 := by
  have hfault : Unbroken (some ⟨9, .other⟩) cutBytes.length := by
    rintro f ⟨⟩
    decide
  obtain ⟨hsteps, hparse⟩ := stream_like_slice Nat.zero_lt_two hfault
  rw [hsteps, hparse]
  exact ⟨hfault, by decide +kernel, by decide +kernel⟩

end RangeFile

end InstructionCoverage

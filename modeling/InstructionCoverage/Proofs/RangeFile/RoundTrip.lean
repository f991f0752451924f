import InstructionCoverage.Proofs.RangeFile.Exactness
import InstructionCoverage.Proofs.Reading.Spelling

namespace InstructionCoverage

namespace Lines

def encode (cs : List Char) : List UInt8 :=
  cs.map fun c => UInt8.ofNat c.toNat

section Encode

variable {cs : List Char} (h : ∀ c ∈ cs, ' ' ≤ c ∧ c ≤ '~')

include h

theorem toNat_encode : ∀ c ∈ cs, (UInt8.ofNat c.toNat).toNat = c.toNat := by
  intro c hc
  have hhigh : c.toNat ≤ 0x7e := (h c hc).2
  rw [UInt8.toNat_ofNat']
  omega

theorem map_encode : (encode cs).map charOfByte = cs := by
  have hid : ∀ c ∈ cs, charOfByte (UInt8.ofNat c.toNat) = c := by
    intro c hc
    rw [charOfByte, toNat_encode h c hc, Char.ofNat_toNat]
  rw [encode, List.map_map]
  exact (List.map_congr_left hid).trans cs.map_id'

theorem printable_encode : Printable (encode cs) := by
  intro b hb
  obtain ⟨c, hc, rfl⟩ := List.mem_map.1 hb
  have hlow : 0x20 ≤ c.toNat := (h c hc).1
  have hhigh : c.toNat ≤ 0x7e := (h c hc).2
  rw [UInt8.le_iff_toNat_le, UInt8.le_iff_toNat_le, toNat_encode h c hc]
  exact ⟨hlow, hhigh⟩

end Encode

end Lines

inductive WrittenLine where
  | range (r : AddressRange) (s : Spelling r)
  | blank (spaces : Nat)
  | comment (spaces : Nat) (text : List UInt8) (h : Lines.Printable text)

namespace WrittenLine

open Lines

def bytes : WrittenLine → List UInt8
  | range _ s => encode s.chars
  | blank spaces => List.replicate spaces 0x20
  | comment spaces text _ => List.replicate spaces 0x20 ++ 0x23 :: text

def range? : WrittenLine → Option AddressRange
  | range r _ => some r
  | blank _ => none
  | comment _ _ _ => none

theorem range?_eq_some {line : WrittenLine} {r : AddressRange} : line.range? = some r ↔ ∃ s, line = range r s := by
  cases line with
  | range r' s =>
    constructor
    · intro h
      cases h
      exact ⟨s, rfl⟩
    · rintro ⟨s', h⟩
      cases h
      rfl
  | blank spaces => simp [range?]
  | comment spaces text h => simp [range?]

theorem printable_spaces (n : Nat) : Printable (List.replicate n 0x20) := by
  intro b hb
  rw [List.eq_of_mem_replicate hb]
  decide

theorem blank_spaces (n : Nat) : LineDecoder.Blank ((List.replicate n 0x20).map charOfByte) := by
  intro c hc
  rw [List.map_replicate] at hc
  rw [List.eq_of_mem_replicate hc]
  rfl

theorem printable (line : WrittenLine) : Printable line.bytes := by
  cases line with
  | range r s => exact printable_encode s.printable
  | blank spaces => exact printable_spaces spaces
  | comment spaces text h =>
    have htext : Printable (0x23 :: text) := Printable.cons.2 ⟨by decide, h⟩
    intro b hb
    rcases List.mem_append.1 hb with hb | hb
    · exact printable_spaces spaces b hb
    · exact htext b hb

theorem decode (line : WrittenLine) : LineDecoder.hexRange.decode (text line.bytes) = .ok line.range? := by
  rw [RangeFile.hexRange_text]
  cases line with
  | range r s =>
    rw [bytes, map_encode s.printable]
    exact s.decode
  | blank spaces => exact LineDecoder.decodeChars_blank (blank_spaces spaces)
  | comment spaces text h =>
    rw [bytes, List.map_append]
    exact LineDecoder.decodeChars_comment (blank_spaces spaces) _

theorem accepted (line : WrittenLine) : RangeFile.Accepted .hexRange line.bytes :=
  ⟨line.printable, _, line.decode⟩

end WrittenLine

namespace RangeFile

open Lines Progress

def write (lines : List WrittenLine) : List UInt8 :=
  join (lines.map WrittenLine.bytes)

def writtenRanges (lines : List WrittenLine) : RangeSet :=
  .ofList (lines.filterMap WrittenLine.range?)

theorem mem_writtenRanges {lines : List WrittenLine} {r : AddressRange} :
    r ∈ writtenRanges lines ↔ ∃ s, .range r s ∈ lines := by
  rw [writtenRanges, RangeSet.mem_ofList, List.mem_filterMap]
  constructor
  · rintro ⟨line, hl, hr⟩
    obtain ⟨s, rfl⟩ := WrittenLine.range?_eq_some.1 hr
    exact ⟨s, hl⟩
  · rintro ⟨s, hl⟩
    exact ⟨_, hl, rfl⟩

theorem scanned_write (lines : List WrittenLine) :
    scanned .hexRange (write lines) = .ok (writtenRanges lines, lines.length) := by
  have ha : ∀ line ∈ lines.map WrittenLine.bytes, Accepted .hexRange line := by
    intro line hl
    obtain ⟨l, -, rfl⟩ := List.mem_map.1 hl
    exact l.accepted
  have hs : split (write lines) = (lines.map WrittenLine.bytes, []) := (eq_join_iff ha).1 rfl
  rw [scanned, hs]
  refine scan_ok_iff.2 ⟨rfl, ha, by simp, fun r => ?_⟩
  have hnone : r ∉ RangeSet.empty := List.not_mem_nil
  simp [WrittenLine.decode, hnone, writtenRanges]

theorem parse_lines {p : Progress} (hp : p.Lenient) (path : Path) (lines : List WrittenLine) :
    (parse .hexRange path (write lines) p).1 =
      .ok ⟨path, digestOf (write lines), writtenRanges lines, lines.length⟩ := by
  rw [parse_lenient hp, scanned_write]

theorem parse_write {p : Progress} (hp : p.Lenient) (path : Path) (lines : List WrittenLine) :
    (∀ r, AddressRange.ofStartLength r.min r.length = .ok r ↔ r ≠ .whole) ∧
      ∃ f, (parse .hexRange path (write lines) p).1 = .ok f ∧ f.lineCount = lines.length ∧
        (∀ r, r ∈ f.ranges ↔ ∃ s, .range r s ∈ lines) ∧
        ∀ lines', (∀ r, (∃ s, .range r s ∈ lines') ↔ ∃ s, .range r s ∈ lines) →
          ∃ g, (parse .hexRange path (write lines') p).1 = .ok g ∧ g.ranges = f.ranges := by
  refine ⟨fun r => AddressRange.ofStartLength_length, _, parse_lines hp path lines, rfl,
    fun r => mem_writtenRanges, ?_⟩
  intro lines' hl
  refine ⟨_, parse_lines hp path lines', ?_⟩
  ext r
  rw [mem_writtenRanges, mem_writtenRanges, hl]

def topRange : AddressRange :=
  ⟨⟨0xfffffffffffffff0, by decide⟩, .top, by decide⟩

def topSpelling : Spelling topRange :=
  .sized ⟨1, ⟨.upper, 2, fun i => i < 3⟩, 2⟩ ⟨0, ⟨.absent, 1, fun _ => false⟩, 1⟩ (by decide)

def wholeSpelling : Spelling .whole :=
  .bounds ⟨0, ⟨.absent, 0, fun _ => false⟩, 0⟩ ⟨1, ⟨.lower, 0, fun _ => true⟩, 0⟩

def mixedLines : List WrittenLine :=
  [.comment 1 [0x7e] (by decide), .range _ topSpelling, .blank 2, .range _ wholeSpelling]

theorem parse_write_mixed :
    write mixedLines =
        encode " #~\n 0X00FFFffffffffffff0  +010 \n  \n0- 0xFFFFFFFFFFFFFFFF\n".toList ∧
      unbounded.Lenient ∧
      ∃ f, (parse .hexRange ⟨"a.cov"⟩ (write mixedLines) unbounded).1 = .ok f ∧ f.lineCount = 4 ∧
        topRange ∈ f.ranges ∧
        ∃ g, (parse .hexRange ⟨"a.cov"⟩ (write (mixedLines.reverse ++ mixedLines)) unbounded).1 = .ok g ∧
          g.ranges = f.ranges := by
  obtain ⟨-, f, hf, hn, hr, hsame⟩ := parse_write unbounded_lenient ⟨"a.cov"⟩ mixedLines
  have htop : topRange ∈ f.ranges := (hr _).2 ⟨topSpelling, by simp [mixedLines]⟩
  have hmem : ∀ line, line ∈ mixedLines.reverse ++ mixedLines ↔ line ∈ mixedLines := by simp
  refine ⟨?_, unbounded_lenient, f, hf, hn, htop, hsame _ fun r => exists_congr fun s => hmem _⟩
  decide +kernel

end RangeFile

end InstructionCoverage

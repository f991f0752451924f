import InstructionCoverage.CommandLine
import InstructionCoverage.Proofs.Reading.Spelling

namespace InstructionCoverage

namespace Json

theorem prettyItems_eq_map (depth : Nat) (items : List Json) : prettyItems depth items = items.map (prettyAt depth) := by
  induction items with
  | nil => rfl
  | cons item items ih => rw [prettyItems, ih, List.map_cons]

theorem block_cons (opening closing : String) (depth : Nat) (line : String) (lines : List String) :
    block opening closing depth (line :: lines) = opening ++ (newline (depth + 1) ++
      (("," ++ newline (depth + 1)).intercalate (line :: lines) ++ (newline depth ++ closing))) := by
  simp only [block, List.isEmpty_cons, Bool.false_eq_true, if_false, String.append_assoc]

end Json

namespace CommandLine

def hitLine (span : AddressRange) : String :=
  s!"  {span.min.toString}-{span.max.toString}"

theorem decode_hitLine (span : AddressRange) : LineDecoder.hexRange.decode (hitLine span) = .ok (some span) := by
  have hline : (hitLine span).toList =
      (Spelling.bounds (r := span) ⟨2, .plain .lower 0, 0⟩ ⟨0, .plain .lower 0, 0⟩).chars := by
    simp [hitLine, toString, Spelling.chars, Token.chars, Address.toList_toString]
  rw [LineDecoder.hexRange]
  dsimp only
  rw [hline]
  exact Spelling.decode _

theorem map_decode_hitLine (hits : List AddressRange) :
    (hits.map hitLine).map LineDecoder.hexRange.decode = hits.map fun span => .ok (some span) := by
  rw [List.map_map]
  exact List.map_congr_left fun span _ => decode_hitLine span

theorem rangesText_eq (label : String) (hits : List AddressRange) : rangesText label hits =
    s!"{label}: {hits.length}\n" ++ String.join ((hits.map hitLine).map (· ++ "\n")) := by
  rw [rangesText, List.map_map]
  rfl

def hitMembers (span : AddressRange) : String :=
  "\x7b\n      \"min\": " ++ toString span.min.value ++ ",\n      \"max\": " ++ toString span.max.value ++ "\n    \x7d"

def hitItems : List AddressRange → String
  | [] => "[]"
  | span :: hits => "[\n    " ++ ",\n    ".intercalate ((span :: hits).map hitMembers) ++ "\n  ]"

def hitsDocument (files rawRanges : Nat) (hits : List AddressRange) : String :=
  "\x7b\n  \"files\": " ++ toString files ++ ",\n  \"raw_ranges\": " ++ toString rawRanges ++ ",\n  \"hits\": " ++
    hitItems hits ++ "\n\x7d\n"

def hitsText (json : Bool) (files rawRanges : Nat) (hits : List AddressRange) : String :=
  if json then hitsDocument files rawRanges hits
  else s!"Instruction hits: {hits.length}\n" ++ String.join ((hits.map hitLine).map (· ++ "\n"))

section Document

open Json

theorem prettyAt_range (r : AddressRange) : r.toJson.prettyAt 2 = hitMembers r := by
  have hmin : "\x7b\n      \"min\": " = openBrace ++ newline 3 ++ quote "min" ++ ": " := by decide
  have hmax : ",\n      \"max\": " = "," ++ newline 3 ++ quote "max" ++ ": " := by decide
  have hend : "\n    \x7d" = newline 2 ++ closeBrace := by decide
  unfold hitMembers
  simp only [hmin, hmax, hend, AddressRange.toJson, Json.nat, prettyAt, prettyMembers, block_cons,
    String.intercalate_cons_cons, String.intercalate_singleton, String.append_assoc]

theorem prettyAt_ranges (hits : List AddressRange) :
    (Json.array (hits.map AddressRange.toJson)).prettyAt 1 = hitItems hits := by
  have hitems : prettyItems 2 (hits.map AddressRange.toJson) = hits.map hitMembers := by
    rw [prettyItems_eq_map, List.map_map]
    exact List.map_congr_left fun r _ => prettyAt_range r
  have hbegin : "[\n    " = "[" ++ newline 2 := by decide
  have hbetween : ",\n    " = "," ++ newline 2 := by decide
  have hend : "\n  ]" = newline 1 ++ "]" := by decide
  rw [prettyAt, hitems]
  cases hits with
  | nil => rfl
  | cons span hits =>
    simp only [List.map_cons, block_cons, hitItems, hbegin, hbetween, hend, String.append_assoc]

theorem pretty_alignJson (files rawRanges : Nat) (hits : List AddressRange) :
    (alignJson files rawRanges hits).pretty ++ "\n" = hitsDocument files rawRanges hits := by
  have hfiles : "\x7b\n  \"files\": " = openBrace ++ newline 1 ++ quote "files" ++ ": " := by decide
  have hraw : ",\n  \"raw_ranges\": " = "," ++ newline 1 ++ quote "raw_ranges" ++ ": " := by decide
  have hhits : ",\n  \"hits\": " = "," ++ newline 1 ++ quote "hits" ++ ": " := by decide
  have hend : "\n\x7d\n" = newline 0 ++ closeBrace ++ "\n" := by decide
  have hmembers : (alignJson files rawRanges hits).pretty = block openBrace closeBrace 0
      [quote "files" ++ ": " ++ toString files, quote "raw_ranges" ++ ": " ++ toString rawRanges,
        quote "hits" ++ ": " ++ hitItems hits] := by
    rw [← prettyAt_ranges]
    simp only [alignJson, pretty, prettyAt, prettyMembers, Json.nat]
  unfold hitsDocument
  simp only [hfiles, hraw, hhits, hend, hmembers, block_cons, String.intercalate_cons_cons,
    String.intercalate_singleton, String.append_assoc]

end Document

end CommandLine

end InstructionCoverage

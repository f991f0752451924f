import InstructionCoverage.Decimal.Fixed
import InstructionCoverage.Summary

namespace InstructionCoverage.CommandLine

def rangeLine (r : AddressRange) : String :=
  s!"  {r.min.toString}-{r.max.toString}\n"

def rangesText (label : String) (ranges : List AddressRange) : String :=
  s!"{label}: {ranges.length}\n" ++ String.join (ranges.map rangeLine)

def percent (ratio : Binary64) : String :=
  Decimal.fixed 1 (ratio.scale 100)

def rowLine (r : Row) : String :=
  let share := Decimal.alignRight 6 (percent r.ratio)
  let hit := Decimal.alignRight 5 (toString r.hitInstructions)
  let all := Decimal.alignLeft 5 (toString r.instructions)
  s!"  {share}%  {hit}/{all}  {r.name} ({r.start.toString}-{r.last.toString})\n"

def summaryText (s : Summary) : String :=
  let share := s!"{percent s.ratio}% ({s.hitInstructions}/{s.instructions} instructions, "
  let head := s!"Coverage: {share}{s.hitRanges} hit ranges)\n"
  if s.rows.isEmpty then head ++ "Functions: (none)\n"
  else head ++ "Functions:\n" ++ String.join (s.rows.map rowLine)

end InstructionCoverage.CommandLine

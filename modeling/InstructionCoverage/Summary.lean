import InstructionCoverage.Address.RangeSet
import InstructionCoverage.Decimal.Shortest
import InstructionCoverage.Json.Writer
import InstructionCoverage.Listing

namespace InstructionCoverage

structure Row where
  name : String
  start : Address
  last : Address
  instructions : Nat
  hitInstructions : Nat
  hitBytes : Nat
  ratio : Binary64
  deriving DecidableEq

/-- The coverage of a program. `hitRanges` counts all hits, also those outside every region. -/
structure Summary where
  rows : List Row
  instructions : Nat
  hitInstructions : Nat
  hitRanges : Nat
  ratio : Binary64
  deriving DecidableEq

namespace Summary

def rowOf (l : Listing) (hits : RangeSet) (region : Region) : Row :=
  let inside := l.instructionsIn region.range
  let hit := inside.filter fun i => i.span ∈ hits
  { name := region.name
    start := region.range.min
    last := region.range.max
    instructions := inside.length
    hitInstructions := hit.length
    hitBytes := (hit.map fun i => i.span.length).foldr (· + ·) 0 % 0x10000000000000000
    ratio := Binary64.ofQuotient hit.length inside.length }

def rowOrder (a b : Row) : Bool :=
  b.ratio.bits < a.ratio.bits || (a.ratio.bits == b.ratio.bits && a.start ≤ b.start)

def ofHits (l : Listing) (hits : RangeSet) : Summary :=
  let rows := (l.regions.map (rowOf l hits)).mergeSort rowOrder
  let instructions := (rows.map Row.instructions).foldr (· + ·) 0
  let hitInstructions := (rows.map Row.hitInstructions).foldr (· + ·) 0
  { rows := rows
    instructions := instructions
    hitInstructions := hitInstructions
    hitRanges := hits.size
    ratio := Binary64.ofQuotient hitInstructions instructions }

end Summary

def AddressRange.toJson (r : AddressRange) : Json :=
  .object [("min", .nat r.min.value), ("max", .nat r.max.value)]

def Row.toJson (r : Row) : Json :=
  .object [("name", .string r.name), ("start", .nat r.start.value), ("end", .nat r.last.value),
    ("instructions", .nat r.instructions), ("hit_instructions", .nat r.hitInstructions),
    ("hit_bytes", .nat r.hitBytes), ("ratio", .number (Decimal.shortestText r.ratio))]

def Summary.toJson (s : Summary) : Json :=
  .object [("regions", .array (s.rows.map Row.toJson)), ("instructions", .nat s.instructions),
    ("hit_instructions", .nat s.hitInstructions), ("hit_ranges", .nat s.hitRanges),
    ("ratio", .number (Decimal.shortestText s.ratio))]

end InstructionCoverage

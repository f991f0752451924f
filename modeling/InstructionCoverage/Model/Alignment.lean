import InstructionCoverage.Listing
import InstructionCoverage.Model.Aggregate

namespace InstructionCoverage

structure Alignment where
  ranges : Option (List AddressRange)
  alignedFrom : Option (List AddressRange)
  hits : RangeSet
  state : ModelState
  deriving DecidableEq

def Listing.instructionsWithin (l : Listing) (r : AddressRange) : List Instruction :=
  (l.instructionsFrom r.min).takeWhile fun i => i.last ≤ r.max

namespace Alignment

def empty : Alignment := ⟨none, none, ∅, .empty⟩

def spans (l : Listing) (ranges : List AddressRange) : List AddressRange :=
  ranges.flatMap fun r => (l.instructionsWithin r).map Instruction.span

def hitsOf (l : Listing) (ranges : List AddressRange) : RangeSet :=
  .ofList (spans l ranges)

def align (l : Listing) : List AddressRange → List AddressRange → Progress → Ending × List AddressRange × Progress
  | [], found, p => (.completed, found, p)
  | r :: rest, found, p =>
    match p.poll with
    | (.completed, p) => align l rest (found ++ (l.instructionsWithin r).map Instruction.span) p
    | (stop, p) => (stop, found, p)

def load (a : Alignment) (ranges : List AddressRange) : Alignment :=
  { a with ranges := some ranges, state := .loaded }

def rebuild (l : Listing) (a : Alignment) (p : Progress) : Ending × Alignment × Progress :=
  match a.ranges with
  | none => (.completed, { a with hits := ∅, alignedFrom := none, state := .empty }, p)
  | some ranges =>
    match align l ranges [] p with
    | (.completed, found, p) =>
      (.completed, { a with hits := .ofList found, alignedFrom := some ranges, state := .loaded }, p)
    | (stop, _, p) => (stop, a, p)

def cleared (_ : Alignment) : Alignment := .empty

/-- Takes over what the aggregate has published. A cancelled recompute puts the ranges and the state back; one that
panics does not get that far. -/
def follow (l : Listing) (published : Option (List AddressRange)) (a : Alignment) (p : Progress) :
    Ending × Alignment × Progress :=
  let stale := { a with state := .stale }
  match published with
  | none => (.completed, stale.cleared, p)
  | some ranges =>
    match rebuild l (stale.load ranges) p with
    | (.cancelled, b, p) => (.cancelled, { b with ranges := a.ranges, state := a.state }, p)
    | result => result

def stateName : ModelState → String
  | .empty => "Empty"
  | .loaded => "Loaded"
  | .stale => "Stale"

def describe (a : Alignment) : String :=
  let ranges := match a.ranges with
    | none => "None"
    | some ranges => "Some(" ++ toString ranges.length ++ ")"
  "InstructionAlignmentModel \x7b ranges: " ++ ranges ++ ", hits: " ++ toString a.hits.size ++ ", state: " ++
    stateName a.state ++ " \x7d"

end Alignment

end InstructionCoverage

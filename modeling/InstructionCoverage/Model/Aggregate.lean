import InstructionCoverage.Model.FileTable

namespace InstructionCoverage

inductive ModelState where
  | empty
  | loaded
  | stale
  deriving DecidableEq

/-- All imported files and the union of the enabled ones as of the last merge. `published` is what dependents
read: the union, or nothing when no file was loaded. -/
structure Aggregate where
  files : FileTable
  union : List AddressRange
  published : Option (List AddressRange)
  state : ModelState
  deriving DecidableEq

namespace Aggregate

def empty : Aggregate := ⟨.empty, [], none, .empty⟩

def load (a : Aggregate) (f : RangeFile) : Aggregate :=
  { a with files := a.files.load f, state := .loaded }

def loadAll (a : Aggregate) (fs : List RangeFile) : Aggregate :=
  fs.foldl load a

def remove? (a : Aggregate) (p : Path) : Option Aggregate :=
  if a.files.contains p then some { a with files := a.files.erase p } else none

def setEnabled? (a : Aggregate) (p : Path) (enabled : Bool) : Option Aggregate :=
  if a.files.contains p then some { a with files := a.files.setEnabled p enabled } else none

def merge : List Entry → List AddressRange → Progress → Ending × List AddressRange × Progress
  | [], union, p => (.completed, union, p)
  | e :: rest, union, p =>
    match p.poll with
    | (.completed, p) =>
      if e.enabled then merge rest (union ++ e.file.ranges.toList) (p.announce s!"merging {e.path.text}")
      else merge rest union p
    | (stop, p) => (stop, union, p)

def publish (a : Aggregate) (union : List AddressRange) : Aggregate :=
  if a.files.entries.isEmpty then { a with union := union, published := none, state := .empty }
  else { a with union := union, published := some union, state := .loaded }

def recompute (a : Aggregate) (p : Progress) : Ending × Aggregate × Progress :=
  match merge a.files.entries [] p with
  | (.completed, union, p) => (.completed, a.publish union, p)
  | (stop, _, p) => (stop, a, p)

def cleared (_ : Aggregate) : Aggregate := .empty

end Aggregate

end InstructionCoverage

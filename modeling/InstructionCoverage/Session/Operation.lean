import InstructionCoverage.Model.Network

namespace InstructionCoverage

inductive Operation where
  | importFiles (paths : List Path)
  | spawnImport (paths : List Path) (token : CancellationToken)
  | refresh
  | clear
  | remove (path : Path)
  | setEnabled (path : Path) (enabled : Bool)

inductive SessionError where
  | busy
  | unknownFile (path : Path)
  | poisoned
  deriving DecidableEq

def SessionError.message : SessionError → String
  | .busy => "another coverage operation is already running"
  | .unknownFile path => s!"coverage file is not loaded: {path.text}"
  | .poisoned => "coverage model lock poisoned"

inductive Outcome where
  | completed
  | cancelled
  deriving DecidableEq

structure ImportReport where
  imported : List FileStatus
  failed : List ImportError
  outcome : Outcome
  deriving DecidableEq

def ImportReport.isSuccess (r : ImportReport) : Bool :=
  r.failed.isEmpty && r.outcome == .completed

inductive Answer where
  | report (r : ImportReport)
  | outcome (o : Outcome)
  | refused (e : SessionError)
  | panicked
  deriving DecidableEq

/-- A value behind a lock, which a panic of its holder poisons. -/
structure Guarded (α : Type) where
  value : α
  poisoned : Bool
  deriving DecidableEq

def Guarded.read (g : Guarded α) : Except SessionError α :=
  if g.poisoned then .error .poisoned else .ok g.value

structure View where
  files : Except SessionError (List FileStatus)
  raw : Except SessionError (List AddressRange)
  hits : Except SessionError (List AddressRange)
  states : Except SessionError (ModelState × ModelState)
  decoder : String
  busy : Bool

structure Subscriber where
  name : String
  requests : List Operation
  react : Reaction

structure Notice where
  name : String
  view : View
  answers : List Answer

end InstructionCoverage

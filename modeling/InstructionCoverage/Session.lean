import InstructionCoverage.Session.Operation
import InstructionCoverage.Summary

/-!
A session runs one operation at a time over an aggregate and the alignment that follows it. Subscribers are
notified once the models are unlocked again, while the session is still busy.
-/

namespace InstructionCoverage

structure Session where
  listing : Listing
  decoder : LineDecoder
  aggregate : Guarded Aggregate
  alignment : Guarded Alignment
  busy : Bool
  changed : Bool
  subscribers : List Subscriber

structure Run where
  answer : Answer
  session : Session
  progress : Progress
  notices : List Notice

namespace Session

def ofListing (l : Listing) : Session :=
  ⟨l, .hexRange, ⟨.empty, false⟩, ⟨.empty, false⟩, false, false, []⟩

def subscribe (s : Session) (u : Subscriber) : Session :=
  { s with subscribers := s.subscribers ++ [u] }

def files (s : Session) : Except SessionError (List FileStatus) :=
  s.aggregate.read.map fun a => a.files.statuses

def rawRanges (s : Session) : Except SessionError (List AddressRange) :=
  s.aggregate.read.map Aggregate.union

def hits (s : Session) : Except SessionError (List AddressRange) :=
  s.alignment.read.map fun a => a.hits.toList

def states (s : Session) : Except SessionError (ModelState × ModelState) := do
  let a ← s.aggregate.read
  let b ← s.alignment.read
  return (a.state, b.state)

def summary (s : Session) : Except SessionError Summary :=
  s.alignment.read.map fun a => Summary.ofHits s.listing a.hits

def view (s : Session) : View :=
  ⟨s.files, s.rawRanges, s.hits, s.states, s.decoder.name, s.busy⟩

def propagate (s : Session) (a : Aggregate) (p : Progress) : Ending × Session × Progress :=
  match s.alignment.value.follow s.listing a.published p with
  | (.panicked, b, p) => (.panicked, { s with aggregate := ⟨a, true⟩, alignment := ⟨b, true⟩ }, p)
  | (.cancelled, b, p) =>
    (.cancelled, { s with aggregate := { s.aggregate with value := a },
                          alignment := { s.alignment with value := b } }, p)
  | (.completed, b, p) =>
    (.completed, { s with aggregate := { s.aggregate with value := a },
                          alignment := { s.alignment with value := b }, changed := true }, p)

def recompute (s : Session) (a : Aggregate) (p : Progress) : Ending × Session × Progress :=
  match a.recompute p with
  | (.panicked, b, p) => (.panicked, { s with aggregate := ⟨b, true⟩ }, p)
  | (.cancelled, b, p) => (.cancelled, { s with aggregate := { s.aggregate with value := b } }, p)
  | (.completed, b, p) => s.propagate b p

def ask (nested : Operation → Session → Run) : List Operation → Session → List Answer → Session × List Answer
  | [], s, answers => (s, answers)
  | op :: rest, s, answers =>
    let r := nested op s
    ask nested rest r.session (answers ++ [r.answer])

def notify (nested : Operation → Session → Run) :
    List Subscriber → Session → Progress → List Notice → Ending × Session × Progress × List Notice
  | [], s, p, notices => (.completed, s, p, notices)
  | u :: rest, s, p, notices =>
    let view := s.view
    let (s, answers) := ask nested u.requests s []
    let notices := notices ++ [⟨u.name, view, answers⟩]
    match u.react p with
    | (.completed, p) => notify nested rest s p notices
    | (stop, p) => (stop, s, p, notices)

def publish (nested : Operation → Session → Run) (answer : Outcome → Answer) (ending : Outcome) (s : Session)
    (p : Progress) : Run :=
  if s.changed then
    match notify nested s.subscribers { s with changed := false } p [] with
    | (.completed, s, p, notices) => ⟨answer ending, s, p, notices⟩
    | (.cancelled, s, p, notices) => ⟨answer .cancelled, s, p, notices⟩
    | (.panicked, s, p, notices) => ⟨.panicked, s, p, notices⟩
  else ⟨answer ending, s, p, []⟩

def conclude (nested : Operation → Session → Run) (answer : Outcome → Answer) :
    Ending × Session × Progress → Run
  | (.completed, s, p) => publish nested answer .completed s p
  | (.cancelled, s, p) => publish nested answer .cancelled s p
  | (.panicked, s, p) => ⟨.panicked, s, p, []⟩

def parseBatch (disk : FileSystem) (decoder : LineDecoder) :
    List Path → List RangeFile → List ImportError → Progress → Ending × List RangeFile × List ImportError × Progress
  | [], parsed, failed, p => (.completed, parsed, failed, p)
  | path :: rest, parsed, failed, p =>
    match RangeFile.importFile disk decoder path (p.announce s!"importing {path.text}") with
    | (.ok f, p) => parseBatch disk decoder rest (parsed ++ [f]) failed p
    | (.error .panicked, p) => (.panicked, parsed, failed, p)
    | (.error (.failed e), p) =>
      if e.fault = .cancelled then (.cancelled, parsed, failed, p)
      else parseBatch disk decoder rest parsed (failed ++ [e]) p

inductive Plan where
  | answer (a : Answer)
  | merge (a : Aggregate) (answer : Outcome → Answer)
  | clear (a : Aggregate)

def importPlan (disk : FileSystem) (paths : List Path) (s : Session) (p : Progress) : Plan × Progress :=
  match parseBatch disk s.decoder paths [] [] p with
  | (.panicked, _, _, p) => (.answer .panicked, p)
  | (.cancelled, _, failed, p) => (.answer (.report ⟨[], failed, .cancelled⟩), p)
  | (.completed, parsed, failed, p) =>
    if parsed.isEmpty then (.answer (.report ⟨[], failed, .completed⟩), p)
    else match p.poll with
      | (.panicked, p) => (.answer .panicked, p)
      | (.cancelled, p) => (.answer (.report ⟨[], failed, .cancelled⟩), p)
      | (.completed, p) =>
        match s.aggregate.read with
        | .error e => (.answer (.refused e), p)
        | .ok a => (.merge (a.loadAll parsed) fun o => .report ⟨parsed.map fun f => f.status true, failed, o⟩, p)

def changePlan (s : Session) (step : Aggregate → Except SessionError Aggregate) : Plan :=
  match s.aggregate.read >>= step with
  | .error e => .answer (.refused e)
  | .ok a => .merge a .outcome

def known (path : Path) : Option Aggregate → Except SessionError Aggregate
  | some a => .ok a
  | none => .error (.unknownFile path)

def plan (disk : FileSystem) (op : Operation) (s : Session) (p : Progress) : Plan × Progress :=
  match op with
  | .importFiles paths => importPlan disk paths s p
  | .spawnImport paths token => importPlan disk paths s (.ofToken token.cancelled)
  | .refresh => (s.changePlan .ok, p)
  | .clear =>
    match s.aggregate.read with
    | .error e => (.answer (.refused e), p)
    | .ok a => (.clear a.cleared, p)
  | .remove path => (s.changePlan fun a => known path (a.remove? path), p)
  | .setEnabled path enabled => (s.changePlan fun a => known path (a.setEnabled? path enabled), p)

def execute (nested : Operation → Session → Run) (s : Session) : Plan → Progress → Run
  | .answer a, p => ⟨a, s, p, []⟩
  | .merge a answer, p => conclude nested answer (s.recompute a p)
  | .clear a, p => conclude nested .outcome (s.propagate a p)

/-- The handle that the caller of an operation is left with; a worker thread polls its token and not the handle. -/
def handleLeft : Operation → Progress → Progress → Progress
  | .spawnImport _ _, given, _ => given
  | _, _, used => used

def act (nested : Operation → Session → Run) (disk : FileSystem) (op : Operation) (s : Session) (p : Progress) : Run :=
  let (pl, q) := plan disk op s p
  let r := execute nested s pl q
  { r with progress := handleLeft op p r.progress }

def perform (nested : Operation → Session → Run) (disk : FileSystem) (op : Operation) (s : Session) (p : Progress) :
    Run :=
  if s.busy then ⟨.refused .busy, s, p, []⟩
  else
    let r := act nested disk op { s with busy := true } p
    { r with session := { r.session with busy := false } }

def decline (_ : Operation) (s : Session) : Run :=
  ⟨.refused .busy, s, .unbounded, []⟩

/-- Runs an operation. Requests made from inside its notifications are performed in turn; they find the session
busy, so no third level is reached. -/
def run (disk : FileSystem) (op : Operation) (s : Session) (p : Progress) : Run :=
  perform (fun op s => perform decline disk op s .unbounded) disk op s p

def describe (decoder : String) (busy : Bool) : String :=
  "CoverageSession \x7b decoder: " ++ Text.quoted decoder ++ ", busy: " ++ (if busy then "true" else "false") ++ " \x7d"

end Session

end InstructionCoverage

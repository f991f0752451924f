import InstructionCoverage.CommandLine.Arguments
import InstructionCoverage.CommandLine.Check
import InstructionCoverage.CommandLine.Failure
import InstructionCoverage.CommandLine.Report
import InstructionCoverage.Release
import InstructionCoverage.Session

namespace InstructionCoverage.CommandLine

structure Result where
  out : String
  warnings : List ImportError
  failure : Option Failure

namespace Result

def success (out : String) : Result := ⟨out, [], none⟩

def exitCode (r : Result) : Nat :=
  if r.failure.isSome then 1 else 0

def errors (r : Result) : String :=
  String.join (r.warnings.map fun e => s!"warning: {e.message}\n") ++
    (r.failure.elim "" fun f => f.complaint.report)

end Result

def baseAddress : Option String → Except Failure Address
  | none => .ok .zero
  | some text => (Address.parse text).mapError (.invalidBase text)

def openSession (disk : FileSystem) (t : Target) (decoder : LineDecoder) (m : Disassembler := Architecture.decoder) :
    Except Failure Session := do
  let base ← baseAddress t.base
  let bytes ← (disk t.binary).mapError (.unreadableBinary t.binary)
  let d ← (Disassembly.load bytes t.architecture base m).mapError (.notDisassembled t.binary)
  return { Session.ofListing d.listing.toListing with decoder := decoder }

def importFailure (files : List Path) : Answer → Option Failure
  | .report r =>
    if r.outcome = .cancelled then some .importCancelled
    else if r.imported.isEmpty ∧ files ≠ [] then some .nothingImported
    else none
  | .refused e => some (.refused e)
  | .outcome _ => none
  | .panicked => some .workerPanicked

def warningsOf : Answer → List ImportError
  | .report r => r.failed
  | _ => []

def importedCount : Answer → Nat
  | .report r => r.imported.length
  | _ => 0

def withImported (disk : FileSystem) (files : List Path) (token : CancellationToken) (s : Session)
    (print : Session → Nat → Except SessionError String) : Result :=
  let r := Session.run disk (.spawnImport files token) s .unbounded
  let warnings := warningsOf r.answer
  match importFailure files r.answer with
  | some f => ⟨"", warnings, some f⟩
  | none =>
    match print r.session (importedCount r.answer) with
    | .ok out => ⟨out, warnings, none⟩
    | .error e => ⟨"", warnings, some (.refused e)⟩

def withSession (disk : FileSystem) (t : Target) (decoder : LineDecoder) (files : List Path)
    (token : CancellationToken) (print : Session → Nat → Except SessionError String)
    (m : Disassembler := Architecture.decoder) : Result :=
  match openSession disk t decoder m with
  | .error f => ⟨"", [], some f⟩
  | .ok s => withImported disk files token s print

def checkCommand (disk : FileSystem) (files : List Path) (json : Bool) : Result :=
  let checks := checkFiles disk files
  let failed := (checks.filter fun c => !c.isOk).length
  let out := if json then (Json.array (checks.map FileCheck.toJson)).pretty ++ "\n"
    else "Coverage files:\n" ++ String.join (checks.map FileCheck.line)
  ⟨out, [], if failed = 0 then none else some (.rejectedFiles failed checks.length)⟩

def alignJson (imported : Nat) (rawRanges : Nat) (ranges : List AddressRange) : Json :=
  .object [("files", .nat imported), ("raw_ranges", .nat rawRanges),
    ("hits", .array (ranges.map AddressRange.toJson))]

def printRanges (raw json : Bool) (s : Session) (imported : Nat) : Except SessionError String := do
  let union ← s.rawRanges
  let ranges ← if raw then pure union else s.hits
  if json then return (alignJson imported union.length ranges).pretty ++ "\n"
  return rangesText (if raw then "Raw covered ranges" else "Instruction hits") ranges

def printSummary (json : Bool) (s : Session) (_ : Nat) : Except SessionError String := do
  let summary ← s.summary
  return if json then summary.toJson.pretty ++ "\n" else summaryText summary

def alignCommand (disk : FileSystem) (t : Target) (files : List Path) (raw json : Bool)
    (token : CancellationToken) (m : Disassembler := Architecture.decoder) : Result :=
  withSession disk t .hexRange files token (printRanges raw json) m

def summaryCommand (disk : FileSystem) (t : Target) (decoder : LineDecoder) (files : List Path) (json : Bool)
    (token : CancellationToken) (m : Disassembler := Architecture.decoder) : Result :=
  withSession disk t decoder files token (printSummary json) m

def Target.ofConfig (c : Config) : Target :=
  ⟨c.binary, c.architecture, c.base⟩

def runCommand (disk : FileSystem) (config : Path) (json : Bool) (token : CancellationToken)
    (m : Disassembler := Architecture.decoder) : Result :=
  match Config.load disk config with
  | .error e => ⟨"", [], some (.config e)⟩
  | .ok c =>
    match c.lineDecoder with
    | .error e => ⟨"", [], some (.config e)⟩
    | .ok decoder => summaryCommand disk (.ofConfig c) decoder c.coverage json token m

def Command.result (disk : FileSystem) (token : CancellationToken) : Command → Result
  | .check files json => checkCommand disk files json
  | .align t files raw json => alignCommand disk t files raw json token
  | .summary t files json => summaryCommand disk t .hexRange files json token
  | .run config json => runCommand disk config json token

def Command.paths (disk : FileSystem) : Command → List Path
  | .check files _ => files
  | .align t files _ _ => t.binary :: files
  | .summary t files _ => t.binary :: files
  | .run config _ =>
    match Config.load disk config with
    | .ok c => config :: c.binary :: c.coverage
    | .error _ => [config]

def usage : String :=
  "Instruction-aligned coverage from external coverage records\n\n" ++
  "Usage: covkeeper [-v] <COMMAND>\n\n" ++
  "Commands:\n" ++
  "  check [--json] <FILES>...\n" ++
  "  align --binary <BINARY> [--arch <ARCH>] [--base <BASE>] [--raw] [--json] <FILES>...\n" ++
  "  summary --binary <BINARY> [--arch <ARCH>] [--base <BASE>] [--json] <FILES>...\n" ++
  "  run --config <CONFIG> [--json]\n"

def Request.result (disk : FileSystem) (token : CancellationToken) : Request → Result
  | .version => .success s!"covkeeper {InstructionCoverage.version}\n"
  | .help => .success usage
  | .command c => c.result disk token

end InstructionCoverage.CommandLine

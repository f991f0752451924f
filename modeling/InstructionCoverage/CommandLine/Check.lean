import InstructionCoverage.Json.Writer
import InstructionCoverage.RangeFile

namespace InstructionCoverage.CommandLine

structure FileCheck where
  path : Path
  result : Except ImportError RangeFile

namespace FileCheck

def ofPath (disk : FileSystem) (path : Path) : FileCheck :=
  match (RangeFile.importFile disk .hexRange path .unbounded).1 with
  | .ok f => ⟨path, .ok f⟩
  | .error (.failed e) => ⟨path, .error e⟩
  | .error .panicked => ⟨path, .error ⟨path, .cancelled⟩⟩

def isOk (c : FileCheck) : Bool :=
  match c.result with
  | .ok _ => true
  | .error _ => false

def line (c : FileCheck) : String :=
  match c.result with
  | .ok f => s!"- {c.path.text} ok ({f.ranges.size} ranges, {f.lineCount} lines)\n"
  | .error e => s!"- {c.path.text} FAILED: {e.message}\n"

def toJson (c : FileCheck) : Json :=
  match c.result with
  | .ok f => .object [("path", .string c.path.text), ("ok", .bool true), ("lines", .nat f.lineCount),
      ("ranges", .nat f.ranges.size), ("digest", .string f.digest)]
  | .error e => .object [("path", .string c.path.text), ("ok", .bool false), ("error", .string e.message)]

end FileCheck

def checkFiles (disk : FileSystem) (files : List Path) : List FileCheck :=
  files.map (FileCheck.ofPath disk)

end InstructionCoverage.CommandLine

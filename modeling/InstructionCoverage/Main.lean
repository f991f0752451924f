import InstructionCoverage.CommandLine

namespace InstructionCoverage.CommandLine

def readErrorOf (e : IO.Error) : ReadError :=
  match e with
  | .noFileOrDirectory _ _ _ => .notFound
  | .inappropriateType _ code _ => if code = 20 then .notDirectory else .isDirectory
  | e => .other e.toString

def readPath (path : Path) : IO (Except ReadError (List UInt8)) := do
  try return .ok (← IO.FS.readBinFile path.text).toList
  catch e => return .error (readErrorOf e)

def readPaths (paths : List Path) : IO FileSystem := do
  let read ← paths.mapM fun path => do return (path, ← readPath path)
  return fun path => (read.lookup path).getD (.error .notFound)

def diskFor (c : Command) : IO FileSystem := do
  let first ← readPaths (c.paths fun _ => .error .notFound)
  readPaths (c.paths first)

end InstructionCoverage.CommandLine

open InstructionCoverage CommandLine in
def main (args : List String) : IO UInt32 := do
  match request? args with
  | none =>
    IO.eprint usage
    return 2
  | some request =>
    let disk ← match request with
      | .command c => diskFor c
      | _ => pure fun _ => .error .notFound
    let result := request.result disk .fresh
    IO.print result.out
    IO.eprint result.errors
    return UInt32.ofNat result.exitCode

namespace InstructionCoverage

structure Complaint where
  message : String
  cause : Option String := none
  deriving DecidableEq

namespace Complaint

def inline (c : Complaint) : String :=
  match c.cause with
  | none => c.message
  | some cause => c.message ++ ": " ++ cause

def hang (margin : String) (text : String) : String :=
  String.join (text.toList.map fun c => if c = '\n' then "\n" ++ margin else c.toString)

def report (c : Complaint) : String :=
  match c.cause with
  | none => "Error: " ++ c.message ++ "\n"
  | some cause => "Error: " ++ c.message ++ "\n\nCaused by:\n    " ++ hang "    " cause ++ "\n"

end Complaint

end InstructionCoverage

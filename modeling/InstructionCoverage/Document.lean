namespace InstructionCoverage

structure Scalar where
  text? : Option String
  isNull : Bool
  isBlank : Bool
  deriving DecidableEq

namespace Scalar

def ofText (s : String) : Scalar := ⟨some s, false, false⟩

def null : Scalar := ⟨none, true, false⟩

def other : Scalar := ⟨none, false, false⟩

end Scalar

inductive Document where
  | scalar (s : Scalar)
  | sequence (items : List Document)
  | mapping (members : List (Document × Document))

namespace Document

def text? : Document → Option String
  | .scalar s => s.text?
  | _ => none

def optionalText? : Document → Option (Option String)
  | .scalar s => if s.isNull then some none else s.text?.map some
  | _ => none

def texts? : Document → Option (List String)
  | .scalar s => if s.isBlank then some [] else none
  | .sequence items => items.mapM text?
  | .mapping _ => none

end Document

end InstructionCoverage

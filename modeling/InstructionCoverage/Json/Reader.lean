import InstructionCoverage.Document
import InstructionCoverage.Json.Token

/-!
Reading JSON text. A machine takes one token after the other and keeps a stack of the lists and records that are
still open, so that nesting has no limit.
-/

namespace InstructionCoverage.Json

inductive Frame where
  | list (done : List Document)
  | record (done : List (Document × Document))
  | member (done : List (Document × Document)) (key : Scalar)

inductive Wanted where
  | value
  | firstItem
  | key
  | firstKey
  | colon (key : Scalar)
  | done (d : Document)

structure Machine where
  wanted : Wanted
  frames : List Frame

namespace Machine

def start : Machine := ⟨.value, []⟩

def value? (frames : List Frame) : Token → Option Machine
  | .openList => some ⟨.firstItem, .list [] :: frames⟩
  | .openRecord => some ⟨.firstKey, .record [] :: frames⟩
  | .null => some ⟨.done (.scalar .null), frames⟩
  | .other => some ⟨.done (.scalar .other), frames⟩
  | .string text? => some ⟨.done (.scalar ⟨text?, false, false⟩), frames⟩
  | _ => none

def after? (d : Document) : List Frame → Token → Option Machine
  | .list done :: frames, .comma => some ⟨.value, .list (d :: done) :: frames⟩
  | .list done :: frames, .closeList => some ⟨.done (.sequence (d :: done).reverse), frames⟩
  | .member done key :: frames, .comma => some ⟨.key, .record ((.scalar key, d) :: done) :: frames⟩
  | .member done key :: frames, .closeRecord =>
    some ⟨.done (.mapping ((.scalar key, d) :: done).reverse), frames⟩
  | _, _ => none

def step? (m : Machine) (t : Token) : Option Machine :=
  match m.wanted, m.frames, t with
  | .value, frames, t => value? frames t
  | .firstItem, .list [] :: frames, .closeList => some ⟨.done (.sequence []), frames⟩
  | .firstItem, frames, t => value? frames t
  | .firstKey, .record [] :: frames, .closeRecord => some ⟨.done (.mapping []), frames⟩
  | .firstKey, frames, .string text? => some ⟨.colon ⟨text?, false, false⟩, frames⟩
  | .key, frames, .string text? => some ⟨.colon ⟨text?, false, false⟩, frames⟩
  | .colon key, .record done :: frames, .colon => some ⟨.value, .member done key :: frames⟩
  | .done d, frames, t => after? d frames t
  | _, _, _ => none

def result? (m : Machine) : Option Document :=
  match m.wanted, m.frames with
  | .done d, [] => some d
  | _, _ => none

end Machine

def read? (text : String) : Option Document := do
  let tokens ← Token.scan? text.toList
  (← tokens.foldlM Machine.step? Machine.start).result?

end InstructionCoverage.Json

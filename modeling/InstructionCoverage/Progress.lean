namespace InstructionCoverage

inductive Ending where
  | completed
  | cancelled
  | panicked
  deriving DecidableEq

structure Progress where
  answers : Nat → Ending
  polls : Nat
  messages : List String

namespace Progress

def ofAnswers (answers : Nat → Ending) : Progress :=
  ⟨answers, 0, []⟩

def unbounded : Progress :=
  ofAnswers fun _ => .completed

def cancelAfter (n : Nat) : Progress :=
  ofAnswers fun k => if k < n then .completed else .cancelled

def panicAfter (n : Nat) : Progress :=
  ofAnswers fun k => if k < n then .completed else .panicked

def ofToken (cancelled : Bool) : Progress :=
  ofAnswers fun _ => if cancelled then .cancelled else .completed

def poll (p : Progress) : Ending × Progress :=
  (p.answers p.polls, { p with polls := p.polls + 1 })

def announce (p : Progress) (message : String) : Progress :=
  { p with messages := p.messages ++ [message] }

end Progress

structure CancellationToken where
  cancelled : Bool
  deriving DecidableEq

namespace CancellationToken

def fresh : CancellationToken := ⟨false⟩

def cancel (_ : CancellationToken) : CancellationToken := ⟨true⟩

def reset (_ : CancellationToken) : CancellationToken := ⟨false⟩

def check (t : CancellationToken) : Ending :=
  if t.cancelled then .cancelled else .completed

end CancellationToken

def Ending.message : Ending → String
  | .completed => "completed"
  | .cancelled => "cancelled: operation cancelled"
  | .panicked => "panicked"

end InstructionCoverage

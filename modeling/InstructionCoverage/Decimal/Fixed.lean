import InstructionCoverage.Decimal.Binary64

namespace InstructionCoverage.Decimal

def fixed (places : Nat) (x : Binary64) : String :=
  let one := Nat.pow 10 places
  let units := roundDiv (x.numerator * one) x.denominator
  let fraction := toString (units % one)
  let zeros := String.ofList (List.replicate (places - fraction.length) '0')
  toString (units / one) ++ "." ++ zeros ++ fraction

def alignRight (width : Nat) (text : String) : String :=
  String.ofList (List.replicate (width - text.length) ' ') ++ text

def alignLeft (width : Nat) (text : String) : String :=
  text ++ String.ofList (List.replicate (width - text.length) ' ')

end InstructionCoverage.Decimal

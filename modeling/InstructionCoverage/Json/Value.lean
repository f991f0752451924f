namespace InstructionCoverage

inductive Json where
  | null
  | bool (value : Bool)
  | number (text : String)
  | string (text : String)
  | array (items : List Json)
  | object (members : List (String × Json))

def Json.nat (n : Nat) : Json :=
  .number (toString n)

end InstructionCoverage

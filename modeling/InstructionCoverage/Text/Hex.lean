namespace InstructionCoverage.Hex

def digit? (c : Char) : Option Nat :=
  if '0' ≤ c ∧ c ≤ '9' then some (c.toNat - 48)
  else if 'a' ≤ c ∧ c ≤ 'f' then some (c.toNat - 87)
  else if 'A' ≤ c ∧ c ≤ 'F' then some (c.toNat - 55)
  else none

def extend? : Nat → List Char → Option Nat
  | value, [] => some value
  | value, c :: cs =>
    match digit? c with
    | some d => extend? (value * 16 + d) cs
    | none => none

def value? : List Char → Option Nat
  | [] => none
  | c :: cs => extend? 0 (c :: cs)

def digitChar (d : Nat) : Char :=
  if d < 10 then Char.ofNat (d + 48) else Char.ofNat (d + 87)

def digits (n : Nat) : List Char :=
  if n < 16 then [digitChar n] else digits (n / 16) ++ [digitChar (n % 16)]
termination_by n
decreasing_by omega

def padded (width n : Nat) : List Char :=
  List.replicate (width - (digits n).length) '0' ++ digits n

def text (n : Nat) : String :=
  String.ofList (digits n)

def ofBytes (bytes : List UInt8) : String :=
  String.ofList (bytes.flatMap fun b => padded 2 b.toNat)

end InstructionCoverage.Hex

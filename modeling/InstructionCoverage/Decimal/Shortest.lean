import InstructionCoverage.Decimal.Binary64

/-!
The shortest decimal that reads back as a given double: the value's two neighbours on ever finer
decimal grids are tried against the interval of numbers that round to the double.
-/

namespace InstructionCoverage.Decimal

structure Interval where
  low : Nat
  value : Nat
  high : Nat
  unit : Nat
  closed : Bool

def interval (x : Binary64) : Interval :=
  let n := 4 * x.numerator
  let step := Nat.pow 2 x.exponent.toNat
  let narrow := x.significand = Binary64.fullSignificand ∧ -1074 < x.exponent
  ⟨n - (if narrow then step else 2 * step), n, n + 2 * step, 4 * x.denominator, x.significand % 2 = 0⟩

def Interval.holds (i : Interval) (n d : Nat) : Bool :=
  if i.closed then i.low * d ≤ n * i.unit && n * i.unit ≤ i.high * d
  else i.low * d < n * i.unit && n * i.unit < i.high * d

structure Scientific where
  digits : Nat
  power : Int
  deriving DecidableEq

def onGrid? (i : Interval) (power : Int) : Option Scientific :=
  let up := Nat.pow 10 power.toNat
  let down := Nat.pow 10 (-power).toNat
  let q := i.value * down / (i.unit * up)
  let below := i.holds (q * up) down
  let above := i.holds ((q + 1) * up) down
  let doubled := 2 * (i.value * down)
  let middle := (2 * q + 1) * (i.unit * up)
  if below && above then some ⟨if doubled < middle ∨ doubled = middle ∧ q % 2 = 0 then q else q + 1, power⟩
  else if below then some ⟨q, power⟩
  else if above then some ⟨q + 1, power⟩
  else none

def magnitude (n d : Nat) : Int :=
  if d ≤ n then Int.ofNat (Nat.toDigits 10 (n / d)).length - 1
  else match (List.range 400).find? fun j => d ≤ n * Nat.pow 10 j with
    | some j => -Int.ofNat j
    | none => -400

def stripZeros (digits : Nat) (power : Int) : Scientific :=
  if digits ≠ 0 ∧ digits % 10 = 0 then stripZeros (digits / 10) (power + 1) else ⟨digits, power⟩
termination_by digits
decreasing_by omega

def shortest (x : Binary64) : Scientific :=
  let i := interval x
  let top := magnitude i.value i.unit
  match (List.range 17).findSome? fun k => onGrid? i (top - Int.ofNat k) with
  | some s => stripZeros s.digits s.power
  | none => ⟨0, 0⟩

def zeros (n : Nat) : String :=
  String.ofList (List.replicate n '0')

def shortestText (x : Binary64) : String :=
  if x.significand = 0 then "0.0"
  else
    let s := shortest x
    let digits := toString s.digits
    let point : Int := Int.ofNat digits.length + s.power
    if 0 ≤ s.power ∧ point ≤ 16 then digits ++ zeros s.power.toNat ++ ".0"
    else if 0 < point ∧ point ≤ 16 then
      String.ofList (digits.toList.take point.toNat) ++ "." ++ String.ofList (digits.toList.drop point.toNat)
    else if -5 < point ∧ point ≤ 0 then "0." ++ zeros (-point).toNat ++ digits
    else
      let exponent := "e" ++ toString (point - 1)
      match digits.toList with
      | [] => exponent
      | [d] => String.ofList [d] ++ exponent
      | d :: rest => String.ofList (d :: '.' :: rest) ++ exponent

end InstructionCoverage.Decimal

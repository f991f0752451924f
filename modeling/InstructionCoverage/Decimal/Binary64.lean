namespace InstructionCoverage

def roundDiv (n d : Nat) : Nat :=
  let q := n / d
  if 2 * (n % d) < d then q
  else if d < 2 * (n % d) then q + 1
  else q + q % 2

/-- The nonnegative double `significand * 2 ^ exponent`: the significand has 53 bits, or fewer at exponent -1074. -/
structure Binary64 where
  significand : Nat
  exponent : Int
  deriving DecidableEq

namespace Binary64

def zero : Binary64 := ⟨0, -1074⟩

def fullSignificand : Nat := 0x10000000000000

def ofQuotient (n d : Nat) : Binary64 :=
  if n = 0 ∨ d = 0 then zero
  else
    let low : Int := Int.ofNat n.log2 - Int.ofNat d.log2 - 53
    let wide := 2 * fullSignificand * d * Nat.pow 2 low.toNat ≤ n * Nat.pow 2 (-low).toNat
    let exponent := max (if wide then low + 1 else low) (-1074)
    let significand := roundDiv (n * Nat.pow 2 (-exponent).toNat) (d * Nat.pow 2 exponent.toNat)
    if significand = 2 * fullSignificand then ⟨fullSignificand, exponent + 1⟩ else ⟨significand, exponent⟩

def numerator (x : Binary64) : Nat :=
  x.significand * Nat.pow 2 x.exponent.toNat

def denominator (x : Binary64) : Nat :=
  Nat.pow 2 (-x.exponent).toNat

def scale (x : Binary64) (factor : Nat) : Binary64 :=
  ofQuotient (x.numerator * factor) x.denominator

/-- The 64 bits of the interchange format; they order nonnegative doubles as their values do. -/
def bits (x : Binary64) : Nat :=
  if x.significand < fullSignificand then x.significand
  else (x.exponent + 1075).toNat * fullSignificand + (x.significand - fullSignificand)

end Binary64

end InstructionCoverage

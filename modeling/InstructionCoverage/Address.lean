import InstructionCoverage.Text.Hex

namespace InstructionCoverage

structure Address where
  value : Nat
  value_lt : value < 0x10000000000000000
  deriving DecidableEq

namespace Address

instance : LE Address := ⟨fun a b => a.value ≤ b.value⟩
instance : LT Address := ⟨fun a b => a.value < b.value⟩
instance (a b : Address) : Decidable (a ≤ b) := inferInstanceAs (Decidable (a.value ≤ b.value))
instance (a b : Address) : Decidable (a < b) := inferInstanceAs (Decidable (a.value < b.value))

def zero : Address := ⟨0, by decide⟩
def top : Address := ⟨0xffffffffffffffff, by decide⟩

instance : Inhabited Address := ⟨zero⟩

@[ext] theorem ext {a b : Address} (h : a.value = b.value) : a = b := by
  cases a; cases b; cases h; rfl

theorem le_def {a b : Address} : a ≤ b ↔ a.value ≤ b.value := Iff.rfl
theorem lt_def {a b : Address} : a < b ↔ a.value < b.value := Iff.rfl

def ofNat? (n : Nat) : Option Address :=
  if h : n < 0x10000000000000000 then some ⟨n, h⟩ else none

def clamp (n : Nat) : Address :=
  ⟨min n 0xffffffffffffffff, by omega⟩

def wrap (n : Nat) : Address :=
  ⟨n % 0x10000000000000000, Nat.mod_lt _ (by decide)⟩

def add? (a : Address) (offset : Nat) : Option Address :=
  ofNat? (a.value + offset)

def addClamped (a : Address) (offset : Nat) : Address :=
  clamp (a.value + offset)

def successor? (a : Address) : Option Address :=
  a.add? 1

def predecessor? (a : Address) : Option Address :=
  if a.value = 0 then none else ofNat? (a.value - 1)

def offsetFrom? (a base : Address) : Option Nat :=
  if base ≤ a then some (a.value - base.value) else none

def unprefixed : List Char → List Char
  | '0' :: 'x' :: cs => cs
  | '0' :: 'X' :: cs => cs
  | cs => cs

def ofChars? (cs : List Char) : Option Address :=
  (Hex.value? (unprefixed cs)).bind ofNat?

def ofString? (s : String) : Option Address :=
  ofChars? s.toList

def hex (a : Address) : String :=
  Hex.text a.value

def padded (a : Address) : String :=
  "0x" ++ String.ofList (Hex.padded 16 a.value)

protected def toString (a : Address) : String :=
  "0x" ++ a.hex

end Address

end InstructionCoverage

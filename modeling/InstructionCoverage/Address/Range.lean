import InstructionCoverage.Address
import InstructionCoverage.Text.Quoted

namespace InstructionCoverage

inductive RangeError where
  | inverted (min max : Address)
  | empty (start : Address)
  | overflow (start : Address) (length : Nat)
  | invalidAddress (text : String)
  deriving DecidableEq

def RangeError.message : RangeError → String
  | .inverted min max => s!"range minimum {min.toString} is greater than maximum {max.toString}"
  | .empty start => s!"range starting at {start.toString} has zero length"
  | .overflow start length =>
    s!"range starting at {start.toString} with length 0x{Hex.text length} overflows the address space"
  | .invalidAddress text => s!"invalid address: {Text.quoted text}"

def Address.parse (s : String) : Except RangeError Address :=
  match Address.ofString? s with
  | some a => .ok a
  | none => .error (.invalidAddress s)

structure AddressRange where
  min : Address
  max : Address
  min_le_max : min ≤ max
  deriving DecidableEq

namespace AddressRange

@[ext] theorem ext {r s : AddressRange} (hmin : r.min = s.min) (hmax : r.max = s.max) : r = s := by
  cases r; cases s; cases hmin; cases hmax; rfl

def ofBounds (min max : Address) : Except RangeError AddressRange :=
  if h : min ≤ max then .ok ⟨min, max, h⟩ else .error (.inverted min max)

def single (a : Address) : AddressRange :=
  ⟨a, a, Nat.le_refl _⟩

def ofStartLength (start : Address) (length : Nat) : Except RangeError AddressRange :=
  if length = 0 then .error (.empty start)
  else if h : start.value + (length - 1) < 0x10000000000000000 then
    .ok ⟨start, ⟨start.value + (length - 1), h⟩, Nat.le_add_right _ _⟩
  else .error (.overflow start length)

def contains (r : AddressRange) (a : Address) : Bool :=
  r.min ≤ a && a ≤ r.max

def overlaps (r s : AddressRange) : Bool :=
  r.min ≤ s.max && s.min ≤ r.max

/-- The number of addresses, one less than that for the whole address space. -/
def length (r : AddressRange) : Nat :=
  Nat.min (r.max.value - r.min.value + 1) 0xffffffffffffffff

protected def toString (r : AddressRange) : String :=
  s!"[{r.min.toString}, {r.max.toString}]"

instance : LT AddressRange := ⟨fun r s => r.min < s.min ∨ r.min = s.min ∧ r.max < s.max⟩

instance (r s : AddressRange) : Decidable (r < s) :=
  inferInstanceAs (Decidable (r.min < s.min ∨ r.min = s.min ∧ r.max < s.max))

theorem lt_iff {r s : AddressRange} :
    r < s ↔ r.min.value < s.min.value ∨ r.min.value = s.min.value ∧ r.max.value < s.max.value := by
  constructor
  · rintro (h | ⟨h, h'⟩)
    · exact .inl h
    · exact .inr ⟨congrArg Address.value h, h'⟩
  · rintro (h | ⟨h, h'⟩)
    · exact .inl h
    · exact .inr ⟨Address.ext h, h'⟩

theorem eq_iff {r s : AddressRange} :
    r = s ↔ r.min.value = s.min.value ∧ r.max.value = s.max.value :=
  ⟨fun h => h ▸ ⟨rfl, rfl⟩, fun h => AddressRange.ext (Address.ext h.1) (Address.ext h.2)⟩

theorem lt_irrefl (r : AddressRange) : ¬ r < r := by
  rw [lt_iff]; omega

theorem lt_trans {r s t : AddressRange} (h : r < s) (h' : s < t) : r < t := by
  rw [lt_iff] at *; omega

theorem lt_trichotomy (r s : AddressRange) : r < s ∨ r = s ∨ s < r := by
  rw [lt_iff, lt_iff, eq_iff]; omega

end AddressRange

end InstructionCoverage

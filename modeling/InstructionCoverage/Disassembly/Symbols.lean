import InstructionCoverage.Listing

namespace InstructionCoverage

structure CodeSection where
  address : Address
  bytes : List UInt8

namespace CodeSection

/-- The address after the section, at most the last one there is. -/
def stop (s : CodeSection) : Nat :=
  (s.address.addClamped s.bytes.length).value

def contains (s : CodeSection) (a : Address) : Bool :=
  s.address ≤ a && a.value < s.stop

end CodeSection

/-- A named address. A size is known or not, and never zero. -/
structure Symbol where
  name : String
  address : Address
  size : Option Nat
  deriving DecidableEq

namespace Symbol

def order (a b : Symbol) : Bool :=
  a.address < b.address || (a.address = b.address && a.name ≤ b.name)

def sameKey (a b : Symbol) : Bool :=
  a.address = b.address && a.name = b.name

def limit (sect : CodeSection) (later : List Symbol) (s : Symbol) : Nat :=
  match s.size with
  | some size => (s.address.addClamped size).value
  | none => match later.find? fun t => s.address < t.address with
    | some next => next.address.value
    | none => sect.stop

def regionUpTo? (s : Symbol) (stop : Nat) : Option Region :=
  match Address.ofNat? (stop - 1) with
  | none => none
  | some last =>
    if h : s.address.value < stop ∧ s.address ≤ last then some ⟨s.name, s.address, last, h.2⟩ else none

def region? (sections : List CodeSection) (later : List Symbol) (s : Symbol) : Option Region :=
  (sections.find? fun sect => sect.contains s.address).bind fun sect =>
    s.regionUpTo? (min (s.limit sect later) sect.stop)

def regionsOfSorted (sections : List CodeSection) : List Symbol → List Region
  | [] => []
  | s :: later =>
    match s.region? sections later with
    | some r => r :: regionsOfSorted sections later
    | none => regionsOfSorted sections later

def regions (sections : List CodeSection) (symbols : List Symbol) : List Region :=
  regionsOfSorted sections ((symbols.mergeSort order).eraseRepsBy sameKey)

end Symbol

end InstructionCoverage

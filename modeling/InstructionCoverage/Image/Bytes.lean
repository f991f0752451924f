namespace InstructionCoverage.Image

abbrev Blob := Array UInt8

inductive Endian where
  | little
  | big
  deriving DecidableEq

namespace Blob

def slice? (b : Blob) (offset length : Nat) : Option (List UInt8) :=
  if offset < b.size ∧ offset + length ≤ b.size then some (b.extract offset (offset + length)).toList else none

def range? (b : Blob) (offset length : Nat) : Option (List UInt8) :=
  if offset + length ≤ b.size then some (b.extract offset (offset + length)).toList else none

def littleEndian : List UInt8 → Nat
  | [] => 0
  | byte :: rest => byte.toNat + 256 * littleEndian rest

def number? (b : Blob) (endian : Endian) (offset width : Nat) : Option Nat :=
  (b.slice? offset width).map fun bytes =>
    littleEndian (if endian = .little then bytes else bytes.reverse)

def textOf? (bytes : List UInt8) : Option String :=
  String.fromUTF8? (ByteArray.mk (bytes.takeWhile (· != 0)).toArray)

def text? (b : Blob) (offset : Nat) : Option String :=
  if offset < b.size then textOf? (b.extract offset b.size).toList else none

end Blob

end InstructionCoverage.Image

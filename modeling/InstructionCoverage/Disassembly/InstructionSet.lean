import InstructionCoverage.Disassembly.Sweep

namespace InstructionCoverage

inductive Cell where
  | byte (value : UInt8)
  | any

instance : OfNat Cell n := ⟨.byte (UInt8.ofNat n)⟩

abbrev Pattern := List Cell

namespace Pattern

def fits : Pattern → List UInt8 → Bool
  | [], _ => true
  | .byte value :: p, b :: bytes => value == b && fits p bytes
  | .any :: p, _ :: bytes => fits p bytes
  | _ :: _, [] => false

theorem length_le_of_fits {p : Pattern} {bytes : List UInt8} (h : fits p bytes = true) : p.length ≤ bytes.length := by
  induction p generalizing bytes with
  | nil => exact Nat.zero_le _
  | cons c p ih =>
    cases bytes with
    | nil => cases c <;> simp [fits] at h
    | cons b bytes =>
      have hp : fits p bytes = true := by
        cases c <;> simp only [fits, Bool.and_eq_true] at h
        · exact h.2
        · exact h
      exact Nat.succ_le_succ (ih hp)

def length? (patterns : List Pattern) (bytes : List UInt8) : Option Nat :=
  (patterns.find? fun p => !p.isEmpty && fits p bytes).map List.length

def decoder (patterns : List Pattern) : InstructionDecoder where
  length? := length? patterns
  bounds h := by
    obtain ⟨p, hp, rfl⟩ := Option.map_eq_some_iff.1 h
    have hfits := List.find?_some hp
    simp only [Bool.and_eq_true, Bool.not_eq_true', List.isEmpty_eq_false_iff] at hfits
    exact ⟨List.length_pos_iff.2 hfits.1, length_le_of_fits hfits.2⟩

end Pattern

namespace InstructionSet

open Cell (any)

def sharedX86 : List Pattern := [
  [0x90], [0x00, 0x00], [0xc3], [0xcc], [0xc9], [0xf4], [0xf8], [0x50], [0x51], [0x52], [0x53], [0x54], [0x55],
  [0x56], [0x57], [0x58], [0x59], [0x5a], [0x5b], [0x5c], [0x5d], [0x5e], [0x5f], [0x66, 0x90],
  [0xc2, any, any], [0x31, 0xc0], [0x85, 0xc0], [0x89, 0xe5], [0x83, 0xec, any], [0x6a, any],
  [0x68, any, any, any, any], [0xb8, any, any, any, any], [0xb9, any, any, any, any],
  [0xba, any, any, any, any], [0xbb, any, any, any, any], [0xbc, any, any, any, any],
  [0xbd, any, any, any, any], [0xbe, any, any, any, any], [0xbf, any, any, any, any],
  [0xe8, any, any, any, any], [0xe9, any, any, any, any], [0xeb, any], [0x74, any], [0x75, any],
  [0x0f, 0x84, any, any, any, any], [0x0f, 0x85, any, any, any, any], [0x0f, 0x1f, 0x00],
  [0x0f, 0x1f, 0x40, 0x00], [0x0f, 0x1f, 0x44, 0x00, 0x00], [0x0f, 0x0b], [0x0f, 0xa2], [0xcd, any],
  [0xf3, 0x0f, 0x1e, 0xfa], [0x66, 0x2e, 0x0f, 0x1f, 0x84, 0x00, 0x00, 0x00, 0x00, 0x00]]

def onlyX86_64 : List Pattern := [
  [0x48, 0x89, 0xe5], [0x48, 0x83, 0xec, any], [0x48, 0x83, 0xc4, any],
  [0x48, 0xb8, any, any, any, any, any, any, any, any], [0x48, 0x8d, 0x05, any, any, any, any], [0x41, 0x54],
  [0x41, 0x5c], [0x0f, 0x05], [0x66, 0x66, 0x2e, 0x0f, 0x1f, 0x84, 0x00, 0x00, 0x00, 0x00, 0x00],
  [0x66, 0x66, 0x66, 0x66, 0x66, 0x66, 0x2e, 0x0f, 0x1f, 0x84, 0x00, 0x00, 0x00, 0x00, 0x00]]

def onlyX86 : List Pattern := [
  [0x40], [0x41], [0x42], [0x43], [0x44], [0x45], [0x46], [0x47], [0x48], [0x49], [0x4a], [0x4b], [0x4c],
  [0x4d], [0x4e], [0x4f], [0x06], [0x0e], [0x16], [0x17], [0x1e], [0x1f], [0x27], [0x2f], [0x37], [0x3f],
  [0x60], [0x61]]

def arm64 : List Pattern := [
  [0x1f, 0x20, 0x03, 0xd5], [0xc0, 0x03, 0x5f, 0xd6], [0xfd, 0x03, 0x00, 0x91], [0xfd, 0x7b, 0xbf, 0xa9],
  [0xfd, 0x7b, 0xc1, 0xa8], [any, any, any, 0x94], [any, any, any, 0x14]]

def arm : List Pattern := [
  [0x00, 0x00, 0x00, 0x00], [0x00, 0x00, 0xa0, 0xe1], [0x1e, 0xff, 0x2f, 0xe1], [0x00, 0x48, 0x2d, 0xe9],
  [0x00, 0x88, 0xbd, 0xe8], [any, any, any, 0xeb], [any, any, any, 0xea], [0x04, 0xb0, 0x8d, 0xe2]]

def riscv64 : List Pattern := [
  [0x13, 0x00, 0x00, 0x00], [0x67, 0x80, 0x00, 0x00], [0x13, 0x01, 0x01, 0xff], [0x13, 0x01, 0x01, 0x01],
  [0x23, 0x34, 0x11, 0x00], [0x83, 0x30, 0x81, 0x00], [0x6f, 0x00, 0x00, 0x00], [0x73, 0x00, 0x00, 0x00]]

def riscv32 : List Pattern := [
  [0x13, 0x00, 0x00, 0x00], [0x67, 0x80, 0x00, 0x00], [0x13, 0x01, 0x01, 0xff], [0x13, 0x01, 0x01, 0x01],
  [0x23, 0x26, 0x11, 0x00], [0x83, 0x20, 0xc1, 0x00], [0x6f, 0x00, 0x00, 0x00], [0x73, 0x00, 0x00, 0x00]]

end InstructionSet

end InstructionCoverage

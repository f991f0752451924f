import InstructionCoverage.Reading.Source
import InstructionCoverage.Text.Hex

namespace InstructionCoverage

namespace LineError

def offset : LineError → Nat
  | .invalidByte offset _ => offset
  | .truncated offset => offset
  | .unreadable offset _ _ => offset

def isEndOfInput : LineError → Bool
  | .invalidByte _ _ => false
  | .truncated _ => true
  | .unreadable _ kind _ => kind == .unexpectedEof

def message : LineError → String
  | .invalidByte offset byte => s!"invalid byte 0x{String.ofList (Hex.padded 2 byte.toNat)} at offset {offset}"
  | .truncated offset => s!"unexpected end of input at offset {offset}"
  | .unreadable offset _ text => s!"read failed at offset {offset}: {text}"

end LineError

def isPrintable (byte : UInt8) : Bool :=
  0x20 ≤ byte && byte ≤ 0x7e

def charOfByte (byte : UInt8) : Char :=
  Char.ofNat byte.toNat

namespace Source

/-- The characters up to the next line feed, which is consumed and left out. A byte that is not printable
is consumed and ends the attempt; the characters before it are lost. -/
def readChars (s : Source) : Except LineError (List Char) × Source :=
  match _ : s.next with
  | .error e => (.error e, s)
  | .ok (byte, t) =>
    if byte = 0x0a then (.ok [], t)
    else if isPrintable byte then
      match t.readChars with
      | (.ok line, u) => (.ok (charOfByte byte :: line), u)
      | (.error e, u) => (.error e, u)
    else (.error (.invalidByte s.position byte), t)
termination_by s.rest.length
decreasing_by exact length_rest_lt (by assumption)

def readLine (s : Source) : Except LineError String × Source :=
  match s.readChars with
  | (.ok line, t) => (.ok (String.ofList line), t)
  | (.error e, t) => (.error e, t)

theorem readChars_rest_lt {s t : Source} {line : List Char} (h : s.readChars = (.ok line, t)) :
    t.rest.length < s.rest.length := by
  fun_induction readChars s generalizing line t with
  | case1 => cases h
  | case2 s u hn =>
    injection h with _ ht
    subst ht
    exact length_rest_lt hn
  | case3 s byte u hn _ _ line' v hv ih =>
    injection h with _ ht
    subst ht
    exact Nat.lt_trans (ih hv) (length_rest_lt hn)
  | case4 => cases h
  | case5 => cases h

theorem readLine_rest_lt {s t : Source} {line : String} (h : s.readLine = (.ok line, t)) :
    t.rest.length < s.rest.length := by
  unfold readLine at h
  split at h
  · rename_i hc
    injection h with _ ht
    exact readChars_rest_lt (ht ▸ hc)
  · cases h

end Source

end InstructionCoverage

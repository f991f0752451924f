import InstructionCoverage.Address.Range

namespace InstructionCoverage

inductive DecodeError where
  | malformed
  | range (e : RangeError)
  deriving DecidableEq

def DecodeError.message : DecodeError → String
  | .malformed => "expected `ADDR`, `START-END` or `START+SIZE`"
  | .range e => e.message

structure LineDecoder where
  name : String
  decode : String → Except DecodeError (Option AddressRange)

namespace LineDecoder

def isBlank (c : Char) : Bool :=
  c == ' ' || c == '\t'

def trim (cs : List Char) : List Char :=
  ((cs.dropWhile isBlank).reverse.dropWhile isBlank).reverse

def cutAt (separator : Char) : List Char → Option (List Char × List Char)
  | [] => none
  | c :: cs =>
    if c = separator then some ([], cs)
    else (cutAt separator cs).map fun parts => (c :: parts.1, parts.2)

def address (token : List Char) : Except DecodeError Address :=
  let token := trim token
  if token.isEmpty then .error .malformed
  else match Address.ofChars? token with
    | some a => .ok a
    | none => .error (.range (.invalidAddress (String.ofList token)))

def range (r : Except RangeError AddressRange) : Except DecodeError (Option AddressRange) :=
  match r with
  | .ok r => .ok (some r)
  | .error e => .error (.range e)

def decodeBounds (start last : List Char) : Except DecodeError (Option AddressRange) := do
  let min ← address start
  let max ← address last
  range (AddressRange.ofBounds min max)

def decodeSized (start size : List Char) : Except DecodeError (Option AddressRange) := do
  let length ← address size
  let min ← address start
  range (AddressRange.ofStartLength min length.value)

def decodeChars (line : List Char) : Except DecodeError (Option AddressRange) :=
  let line := trim line
  if line.isEmpty || line.head? == some '#' then .ok none
  else match cutAt '-' line with
    | some (start, last) => decodeBounds start last
    | none =>
      match cutAt '+' line with
      | some (start, size) => decodeSized start size
      | none => (address line).map fun a => some (AddressRange.single a)

def hexRange : LineDecoder where
  name := "hex-range"
  decode line := decodeChars line.toList

def byName? (name : String) : Option LineDecoder :=
  if name = hexRange.name then some hexRange else none

end LineDecoder

end InstructionCoverage

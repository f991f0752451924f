import InstructionCoverage.Document
import InstructionCoverage.Yaml.Text

/-!
The tokens of a YAML text. Indentation becomes brackets: a block collection starts at the first entry or key of its
column and ends where a line starts further left. Whether a scalar is a key shows only at the colon behind it, so each
place where a key may have started is remembered, and its tokens are put in there.
-/

namespace InstructionCoverage.Yaml

inductive Token where
  | documentStart
  | documentEnd
  | blockSequence
  | blockMapping
  | blockEnd
  | openSequence
  | closeSequence
  | openMapping
  | closeMapping
  | entry
  | comma
  | key
  | value
  | scalar (s : Scalar)
  deriving DecidableEq

def plainScalar (text : String) : Scalar :=
  ⟨some text, ["", "~", "null", "Null", "NULL"].contains text, text.isEmpty⟩

structure KeyPlace where
  position : Nat
  line : Nat
  column : Nat
  index : Nat
  required : Bool

structure Scan where
  rest : List Placed
  tokens : Array Token
  indents : List Nat
  candidate : Option KeyPlace
  outer : List (Option KeyPlace)
  keyAllowed : Bool

namespace Scan

def ofText (text : String) : Scan :=
  ⟨placed text, #[], [], none, [], true⟩

def inFlow (s : Scan) : Bool := !s.outer.isEmpty

def add (s : Scan) (t : Token) : Scan := { s with tokens := s.tokens.push t }

def skip (inFlow inComment keyAllowed : Bool) : List Placed → List Placed × Bool
  | [] => ([], keyAllowed)
  | p :: rest =>
    if p.isBreak then skip inFlow false (keyAllowed || !inFlow) rest
    else if inComment then skip inFlow true keyAllowed rest
    else if p.char = ' ' || (p.char = '\t' && (inFlow || !keyAllowed)) then skip inFlow false keyAllowed rest
    else if p.char = '#' then skip inFlow true keyAllowed rest
    else (p :: rest, keyAllowed)

def skipBlanks (s : Scan) : Scan :=
  let r := skip s.inFlow false s.keyAllowed s.rest
  { s with rest := r.1, keyAllowed := r.2 }

def ended (column : Nat) : List Nat → Nat × List Nat
  | [] => (0, [])
  | indent :: indents =>
    if column < indent then
      let r := ended column indents
      (r.1 + 1, r.2)
    else (0, indent :: indents)

def endCollections (s : Scan) (count : Nat) (indents : List Nat) : Scan :=
  { s with tokens := s.tokens ++ Array.replicate count Token.blockEnd, indents := indents }

def unindent (s : Scan) (column : Nat) : Scan :=
  if s.inFlow then s
  else
    let r := ended column s.indents
    s.endCollections r.1 r.2

def unindentAll (s : Scan) : Scan :=
  if s.inFlow then s else s.endCollections s.indents.length []

def deepens (s : Scan) (column : Nat) : Bool :=
  !s.inFlow && match s.indents with
    | [] => true
    | indent :: _ => indent < column

def indent (s : Scan) (column : Nat) (t : Token) : Scan :=
  if s.deepens column then { s.add t with indents := column :: s.indents } else s

def dropCandidate? (s : Scan) : Option Scan :=
  match s.candidate with
  | some k => if k.required then none else some { s with candidate := none }
  | none => some s

def addCandidate? (s : Scan) (p : Placed) : Option Scan :=
  if s.keyAllowed then
    s.dropCandidate?.map fun s => { s with
      candidate := some ⟨s.tokens.size, p.line, p.column, p.index, !s.inFlow && s.indents.head? == some p.column⟩ }
  else some s

def keyFor? (s : Scan) (colon : Placed) : Option (Option KeyPlace) :=
  match s.candidate with
  | none => some none
  | some k =>
    if k.line = colon.line ∧ colon.index ≤ k.index + 1024 then some (some k)
    else if k.required then none
    else some none

def insertTokens (s : Scan) (position : Nat) (ts : Array Token) : Scan :=
  { s with tokens := s.tokens.extract 0 position ++ ts ++ s.tokens.extract position s.tokens.size }

def acceptKey (s : Scan) (k : KeyPlace) : Scan :=
  let s := { s with candidate := none, keyAllowed := false }
  if s.deepens k.column then
    { s.insertTokens k.position #[.blockMapping, .key] with indents := k.column :: s.indents }
  else s.insertTokens k.position #[.key]

def addIndicator? (s : Scan) (p : Placed) (rest : List Placed) (collection t : Token) : Option Scan :=
  if s.inFlow then
    s.dropCandidate?.map fun s => { s.add t with rest := rest, keyAllowed := t = .entry }
  else if s.keyAllowed then
    (s.indent p.column collection).dropCandidate?.map fun s => { s.add t with rest := rest, keyAllowed := true }
  else none

def addValue? (s : Scan) (p : Placed) (rest : List Placed) : Option Scan :=
  (s.keyFor? p).bind fun key =>
    match key with
    | some k => some { (s.acceptKey k).add .value with rest := rest }
    | none =>
      if s.inFlow then some { s.add .value with rest := rest, keyAllowed := false }
      else if s.keyAllowed then
        some { (s.indent p.column .blockMapping).add .value with rest := rest, keyAllowed := true }
      else none

def openFlow? (s : Scan) (p : Placed) (rest : List Placed) (t : Token) : Option Scan :=
  (s.addCandidate? p).map fun s =>
    { s.add t with rest := rest, keyAllowed := true, outer := s.candidate :: s.outer, candidate := none }

def closeFlow? (s : Scan) (rest : List Placed) (t : Token) : Option Scan :=
  s.dropCandidate?.map fun s =>
    match s.outer with
    | [] => { s.add t with rest := rest, keyAllowed := false }
    | candidate :: outer =>
      { s.add t with rest := rest, keyAllowed := false, candidate := candidate, outer := outer }

def addComma? (s : Scan) (rest : List Placed) : Option Scan :=
  s.dropCandidate?.map fun s => { s.add .comma with rest := rest, keyAllowed := true }

def addMarker? (s : Scan) (t : Token) : Option Scan :=
  s.unindentAll.dropCandidate?.map fun s => { s.add t with rest := s.rest.drop 3, keyAllowed := false }

def addQuoted? (s : Scan) (p : Placed) (rest : List Placed) : Option Scan := do
  let s ← s.addCandidate? p
  let scanned ← quoted? (p.char = '"') rest
  return { s.add (.scalar (.ofText (String.ofList scanned.text))) with rest := scanned.rest, keyAllowed := false }

def addPlain? (s : Scan) (p : Placed) : Option Scan := do
  let s ← s.addCandidate? p
  let indent := match s.indents with
    | [] => 0
    | column :: _ => column + 1
  let (scanned, atBreak) ← plain? s.inFlow indent s.rest
  guard (scanned.rest.length < s.rest.length)
  return { s.add (.scalar (plainScalar (String.ofList scanned.text))) with
    rest := scanned.rest, keyAllowed := atBreak }

def startsPlain (inFlow : Bool) (c : Char) (rest : List Placed) : Bool :=
  if c = '-' then !endsWord rest
  else if c = '?' ∨ c = ':' then !inFlow && !endsWord rest
  else !(isFlowMark c || ['#', '&', '*', '!', '|', '>', '\'', '"', '%', '@', Char.ofNat 96].contains c)

def token? (s : Scan) (p : Placed) (rest : List Placed) : Option Scan :=
  if isMarker '-' s.rest then s.addMarker? .documentStart
  else if isMarker '.' s.rest then s.addMarker? .documentEnd
  else if p.char = '[' then s.openFlow? p rest .openSequence
  else if p.char = '\x7b' then s.openFlow? p rest .openMapping
  else if p.char = ']' then s.closeFlow? rest .closeSequence
  else if p.char = '\x7d' then s.closeFlow? rest .closeMapping
  else if p.char = ',' then s.addComma? rest
  else if p.char = '-' && endsWord rest then s.addIndicator? p rest .blockSequence .entry
  else if p.char = '?' && (s.inFlow || endsWord rest) then s.addIndicator? p rest .blockMapping .key
  else if p.char = ':' && (s.inFlow || endsWord rest) then s.addValue? p rest
  else if p.char = '\'' || p.char = '"' then s.addQuoted? p rest
  else if startsPlain s.inFlow p.char rest then s.addPlain? p
  else none

def finish? (s : Scan) : Option (List Token) :=
  s.unindentAll.dropCandidate?.map fun s => s.tokens.toList

def run? : Nat → Scan → Option (List Token)
  | 0, s => if s.rest.isEmpty then s.finish? else none
  | steps + 1, s =>
    let s := s.skipBlanks
    match s.rest with
    | [] => s.finish?
    | p :: rest => ((s.unindent p.column).token? p rest).bind (run? steps)

end Scan

def tokens? (text : String) : Option (List Token) :=
  if text.toList.all isAllowed then
    let s := Scan.ofText text
    s.run? s.rest.length
  else none

end InstructionCoverage.Yaml

import InstructionCoverage.Yaml.Token

namespace InstructionCoverage.Yaml

def missing : Document := .scalar (plainScalar "")

def isMissing (ends : List Token) : List Token → Bool
  | [] => false
  | t :: _ => ends.contains t

def blockEnds : List Token := [.key, .value, .blockEnd]
def sequenceEnds : List Token := [.comma, .closeSequence]
def mappingEnds : List Token := [.comma, .closeMapping]

mutual

def node? (fuel : Nat) (inBlock inMapping : Bool) (ts : List Token) : Option (Document × List Token) :=
  match fuel with
  | 0 => none
  | fuel + 1 =>
    match ts with
    | .scalar s :: rest => some (.scalar s, rest)
    | .openSequence :: rest => (flowItems? fuel true rest).map fun r => (.sequence r.1, r.2)
    | .openMapping :: rest => (flowMembers? fuel true rest).map fun r => (.mapping r.1, r.2)
    | .blockSequence :: rest =>
      if inBlock then (blockItems? fuel rest).map fun r => (.sequence r.1, r.2) else none
    | .blockMapping :: rest =>
      if inBlock then (blockMembers? fuel rest).map fun r => (.mapping r.1, r.2) else none
    | .entry :: _ =>
      if inMapping then (bareItems? fuel ts).map fun r => (.sequence r.1, r.2) else none
    | _ => none

def optional? (fuel : Nat) (inBlock inMapping : Bool) (ends : List Token) (ts : List Token) :
    Option (Document × List Token) :=
  match fuel with
  | 0 => none
  | fuel + 1 => if isMissing ends ts then some (missing, ts) else node? fuel inBlock inMapping ts

def blockItems? (fuel : Nat) (ts : List Token) : Option (List Document × List Token) :=
  match fuel with
  | 0 => none
  | fuel + 1 =>
    match ts with
    | .blockEnd :: rest => some ([], rest)
    | .entry :: rest => do
      let (item, rest) ← optional? fuel true false [.entry, .blockEnd] rest
      let (items, rest) ← blockItems? fuel rest
      return (item :: items, rest)
    | _ => none

def bareItems? (fuel : Nat) (ts : List Token) : Option (List Document × List Token) :=
  match fuel with
  | 0 => none
  | fuel + 1 =>
    match ts with
    | .entry :: rest => do
      let (item, rest) ← optional? fuel true false (.entry :: blockEnds) rest
      let (items, rest) ← bareItems? fuel rest
      return (item :: items, rest)
    | ts => some ([], ts)

def blockMembers? (fuel : Nat) (ts : List Token) : Option (List (Document × Document) × List Token) :=
  match fuel with
  | 0 => none
  | fuel + 1 =>
    match ts with
    | .blockEnd :: rest => some ([], rest)
    | .key :: rest => do
      let (key, rest) ← optional? fuel true true blockEnds rest
      let (value, rest) ← value? fuel true blockEnds rest
      let (members, rest) ← blockMembers? fuel rest
      return ((key, value) :: members, rest)
    | _ => none

def value? (fuel : Nat) (inBlock : Bool) (ends : List Token) (ts : List Token) : Option (Document × List Token) :=
  match fuel with
  | 0 => none
  | fuel + 1 =>
    match ts with
    | .value :: rest => optional? fuel inBlock inBlock ends rest
    | ts => some (missing, ts)

def flowItems? (fuel : Nat) (first : Bool) (ts : List Token) : Option (List Document × List Token) :=
  match fuel with
  | 0 => none
  | fuel + 1 =>
    match first, ts with
    | _, .closeSequence :: rest => some ([], rest)
    | false, .comma :: .closeSequence :: rest => some ([], rest)
    | false, .comma :: rest => flowItem? fuel rest
    | true, ts => flowItem? fuel ts
    | _, _ => none

def flowItem? (fuel : Nat) (ts : List Token) : Option (List Document × List Token) :=
  match fuel with
  | 0 => none
  | fuel + 1 =>
    match ts with
    | .key :: rest => do
      let (key, rest) ← optional? fuel false false (.value :: sequenceEnds) rest
      let (value, rest) ← value? fuel false sequenceEnds rest
      let (items, rest) ← flowItems? fuel false rest
      return (.mapping [(key, value)] :: items, rest)
    | ts => do
      let (item, rest) ← node? fuel false false ts
      let (items, rest) ← flowItems? fuel false rest
      return (item :: items, rest)

def flowMembers? (fuel : Nat) (first : Bool) (ts : List Token) :
    Option (List (Document × Document) × List Token) :=
  match fuel with
  | 0 => none
  | fuel + 1 =>
    match first, ts with
    | _, .closeMapping :: rest => some ([], rest)
    | false, .comma :: .closeMapping :: rest => some ([], rest)
    | false, .comma :: rest => flowMember? fuel rest
    | true, ts => flowMember? fuel ts
    | _, _ => none

def flowMember? (fuel : Nat) (ts : List Token) : Option (List (Document × Document) × List Token) :=
  match fuel with
  | 0 => none
  | fuel + 1 =>
    match ts with
    | .key :: rest => do
      let (key, rest) ← optional? fuel false false (.value :: mappingEnds) rest
      let (value, rest) ← value? fuel false mappingEnds rest
      let (members, rest) ← flowMembers? fuel false rest
      return ((key, value) :: members, rest)
    | ts => do
      let (key, rest) ← node? fuel false false ts
      let (members, rest) ← flowMembers? fuel false rest
      return ((key, missing) :: members, rest)

end

def document? (ts : List Token) : Option Document :=
  let content := match ts with
    | .documentStart :: rest => rest
    | ts => ts
  match node? (4 * content.length + 4) true false content with
  | some (d, rest) => if rest.all (· = .documentEnd) then some d else none
  | none => none

def read? (text : String) : Option Document :=
  (tokens? text).bind document?

end InstructionCoverage.Yaml

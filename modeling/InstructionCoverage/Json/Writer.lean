import InstructionCoverage.Json.Value
import InstructionCoverage.Text.Hex

namespace InstructionCoverage.Json

def escaped (c : Char) : List Char :=
  if c = '"' then ['\\', '"']
  else if c = '\\' then ['\\', '\\']
  else if c = '\n' then ['\\', 'n']
  else if c = '\r' then ['\\', 'r']
  else if c = '\t' then ['\\', 't']
  else if c.toNat = 8 then ['\\', 'b']
  else if c.toNat = 12 then ['\\', 'f']
  else if c.toNat < 32 then '\\' :: 'u' :: Hex.padded 4 c.toNat
  else [c]

def quote (s : String) : String :=
  String.ofList ('"' :: s.toList.flatMap escaped ++ ['"'])

def openBrace : String := "\x7b"
def closeBrace : String := "\x7d"

mutual

def compact : Json → String
  | .null => "null"
  | .bool value => if value then "true" else "false"
  | .number text => text
  | .string text => quote text
  | .array items => "[" ++ ",".intercalate (compactItems items) ++ "]"
  | .object members => openBrace ++ ",".intercalate (compactMembers members) ++ closeBrace

def compactItems : List Json → List String
  | [] => []
  | item :: items => compact item :: compactItems items

def compactMembers : List (String × Json) → List String
  | [] => []
  | (name, value) :: members => (quote name ++ ":" ++ compact value) :: compactMembers members

end

def newline (depth : Nat) : String :=
  "\n" ++ String.ofList (List.replicate (2 * depth) ' ')

def block (opening closing : String) (depth : Nat) (lines : List String) : String :=
  if lines.isEmpty then opening ++ closing
  else opening ++ newline (depth + 1) ++ ("," ++ newline (depth + 1)).intercalate lines ++ newline depth ++ closing

mutual

def prettyAt (depth : Nat) : Json → String
  | .null => "null"
  | .bool value => if value then "true" else "false"
  | .number text => text
  | .string text => quote text
  | .array items => block "[" "]" depth (prettyItems (depth + 1) items)
  | .object members => block openBrace closeBrace depth (prettyMembers (depth + 1) members)

def prettyItems (depth : Nat) : List Json → List String
  | [] => []
  | item :: items => prettyAt depth item :: prettyItems depth items

def prettyMembers (depth : Nat) : List (String × Json) → List String
  | [] => []
  | (name, value) :: members => (quote name ++ ": " ++ prettyAt depth value) :: prettyMembers depth members

end

def pretty (j : Json) : String :=
  j.prettyAt 0

end InstructionCoverage.Json

namespace InstructionCoverage

structure Path where
  text : String
  deriving DecidableEq, Inhabited

inductive Component where
  | root
  | current
  | parent
  | normal (name : String)
  deriving DecidableEq

namespace Path

def splitSlashes : List Char → List (List Char)
  | [] => [[]]
  | c :: cs =>
    if c = '/' then [] :: splitSlashes cs
    else match splitSlashes cs with
      | [] => [[c]]
      | piece :: rest => (c :: piece) :: rest

def pieces (p : Path) : List String :=
  (splitSlashes p.text.toList).map String.ofList

def isAbsolute (p : Path) : Bool :=
  p.text.startsWith "/"

def isRelative (p : Path) : Bool :=
  !p.isAbsolute

def componentOf? : String → Option Component
  | "" => none
  | "." => none
  | ".." => some .parent
  | name => some (.normal name)

/-- The components of a path: a leading `/` and a leading `.` count, later empty pieces and `.` do not. -/
def key (p : Path) : List Component :=
  match p.pieces with
  | "" :: rest => if p.isAbsolute then .root :: rest.filterMap componentOf? else rest.filterMap componentOf?
  | "." :: rest => .current :: rest.filterMap componentOf?
  | pieces => pieces.filterMap componentOf?

end Path

def Component.rank : Component → List Nat
  | .root => [0]
  | .current => [1]
  | .parent => [2]
  | .normal name => 3 :: name.toList.map Char.toNat

namespace Path

def rank (p : Path) : List (List Nat) :=
  p.key.map Component.rank

def trimPieces : List String → List String
  | [] => []
  | [piece] => if piece = "" then [] else [piece]
  | piece :: next :: rest =>
    if piece = "" ∨ piece = "." then trimPieces (next :: rest) else piece :: next :: rest

def parent? (p : Path) : Option Path :=
  match trimPieces p.pieces.reverse with
  | [] => none
  | _ :: rest =>
    let kept := (trimPieces rest).reverse
    some ⟨if kept.isEmpty && p.isAbsolute then "/" else "/".intercalate kept⟩

def fileName? (p : Path) : Option String :=
  match p.key.getLast? with
  | some (.normal name) => some name
  | _ => none

def extension? (p : Path) : Option String :=
  p.fileName?.bind fun name =>
    let reversed := name.toList.reverse
    match reversed.dropWhile (· != '.') with
    | [] | [_] => none
    | _ :: _ :: _ => some (String.ofList (reversed.takeWhile (· != '.')).reverse)

def join (dir p : Path) : Path :=
  if p.isAbsolute then p
  else if dir.text.isEmpty || dir.text.endsWith "/" then ⟨dir.text ++ p.text⟩
  else ⟨dir.text ++ "/" ++ p.text⟩

end Path

end InstructionCoverage

import InstructionCoverage.Path

namespace InstructionCoverage

inductive ReadError where
  | notFound
  | notDirectory
  | isDirectory
  | nameTooLong
  | zeroInPath
  | other (text : String)
  deriving DecidableEq

def ReadError.message : ReadError → String
  | .notFound => "No such file or directory (os error 2)"
  | .notDirectory => "Not a directory (os error 20)"
  | .isDirectory => "Is a directory (os error 21)"
  | .nameTooLong => "File name too long (os error 36)"
  | .zeroInPath => "file name contained an unexpected NUL byte"
  | .other text => text

abbrev FileSystem := Path → Except ReadError (List UInt8)

inductive FileNode where
  | directory
  | file (bytes : List UInt8)

/-- The files below a working directory, each under its list of names; a file comes after the directories above it. -/
structure FileTree where
  nodes : List (List String × FileNode)

namespace FileTree

def empty : FileTree := ⟨[]⟩

def node? (t : FileTree) (names : List String) : Option FileNode :=
  if names.isEmpty then some .directory else t.nodes.lookup names

inductive Place where
  | inside (names : List String)
  | outside

def walk (t : FileTree) : Place → List String → Except ReadError FileNode
  | _, [] => .ok .directory
  | .outside, piece :: rest =>
    if piece = "" ∨ piece = "." ∨ piece = ".." then walk t .outside rest else .error .notFound
  | .inside names, piece :: rest =>
    if piece = "" ∨ piece = "." then walk t (.inside names) rest
    else if piece = ".." then walk t (if names.isEmpty then .outside else .inside names.dropLast) rest
    else if 255 < piece.utf8ByteSize then .error .nameTooLong
    else match t.node? (names ++ [piece]) with
      | none => .error .notFound
      | some .directory => walk t (.inside (names ++ [piece])) rest
      | some (.file bytes) => if rest.isEmpty then .ok (.file bytes) else .error .notDirectory

def read (t : FileTree) : FileSystem := fun p =>
  if p.text.toList.contains (Char.ofNat 0) then .error .zeroInPath
  else if p.text.isEmpty then .error .notFound
  else if 4096 ≤ p.text.utf8ByteSize then .error .nameTooLong
  else match t.walk (if p.isAbsolute then .outside else .inside []) p.pieces with
    | .ok (.file bytes) => .ok bytes
    | .ok .directory => .error .isDirectory
    | .error e => .error e

def enter (names : List String) (piece : String) : List String :=
  if piece = "" ∨ piece = "." then names
  else if piece = ".." then names.dropLast
  else names ++ [piece]

def visited : List String → List String → List (List String)
  | _, [] => []
  | names, piece :: rest => enter names piece :: visited (enter names piece) rest

def target (p : Path) : List String :=
  p.pieces.foldl enter []

def put (t : FileTree) (names : List String) (node : FileNode) : FileTree :=
  ⟨(names, node) :: t.nodes.filter fun entry => entry.1 != names⟩

def write (t : FileTree) (p : Path) (bytes : List UInt8) : FileTree :=
  let dirs := (visited [] p.pieces).dropLast.filter (!·.isEmpty)
  (dirs.foldl (fun u d => u.put d .directory) t).put (target p) (.file bytes)

def delete? (t : FileTree) (p : Path) : Option FileTree :=
  match t.read p with
  | .ok _ => some ⟨t.nodes.filter fun entry => entry.1 != target p⟩
  | .error _ => none

end FileTree

end InstructionCoverage

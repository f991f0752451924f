import InstructionCoverage.Text.Hex

namespace InstructionCoverage.Yaml

structure Placed where
  char : Char
  line : Nat
  column : Nat
  index : Nat

def lineSeparator : Char := Char.ofNat 0x2028
def paragraphSeparator : Char := Char.ofNat 0x2029
def nextLine : Char := Char.ofNat 0x85

def isBlank (c : Char) : Bool := c = ' ' || c = '\t'
def isBreak (c : Char) : Bool := c = '\n' || c = lineSeparator || c = paragraphSeparator
def isSpace (c : Char) : Bool := isBlank c || isBreak c
def isFlowMark (c : Char) : Bool := [',', '[', ']', '\x7b', '\x7d'].contains c

def isAllowed (c : Char) : Bool :=
  let n := c.toNat
  n = 9 || n = 10 || n = 13 || n = 0x85 || (0x20 ≤ n && n ≤ 0x7e) || (0xa0 ≤ n && n < 0xfffe) || 0x10000 ≤ n

def place (line column index : Nat) : List Char → List Placed
  | [] => []
  | '\x0d' :: '\n' :: rest => ⟨'\n', line, column, index⟩ :: place (line + 1) 0 (index + 2) rest
  | c :: rest =>
    let c := if c = '\x0d' ∨ c = nextLine then '\n' else c
    if isBreak c then ⟨c, line, column, index⟩ :: place (line + 1) 0 (index + 1) rest
    else ⟨c, line, column, index⟩ :: place line (column + 1) (index + 1) rest

def placed (text : String) : List Placed :=
  match text.toList with
  | '\ufeff' :: rest => place 0 1 1 rest
  | cs => place 0 0 0 cs

def Placed.isBlank (p : Placed) : Bool := Yaml.isBlank p.char
def Placed.isBreak (p : Placed) : Bool := Yaml.isBreak p.char
def Placed.isSpace (p : Placed) : Bool := Yaml.isSpace p.char

def endsWord : List Placed → Bool
  | [] => true
  | p :: _ => p.isSpace

def isMarker (mark : Char) : List Placed → Bool
  | p :: q :: r :: rest => p.column == 0 && p.char == mark && q.char == mark && r.char == mark && endsWord rest
  | _ => false

def isDocumentMarker (cs : List Placed) : Bool :=
  isMarker '-' cs || isMarker '.' cs

/-- What white space between two words of a scalar stands for: blanks for themselves, one line end for a blank,
and more line ends for all but the first. -/
def fold (white : List Placed) : List Char :=
  match (white.filter Placed.isBreak).map Placed.char with
  | [] => white.map Placed.char
  | first :: more =>
    if first = '\n' then (if more.isEmpty then [' '] else more) else first :: more

structure Scanned where
  text : List Char
  rest : List Placed

def isStrayAfterColon : List Placed → Bool
  | [] => false
  | p :: _ => isFlowMark p.char || p.char = '?'

def word? (inFlow : Bool) : List Placed → Option (List Char × List Placed)
  | [] => some ([], [])
  | p :: rest =>
    if p.isSpace then some ([], p :: rest)
    else if inFlow && p.char = ':' && isStrayAfterColon rest then none
    else if (p.char = ':' && endsWord rest) || (inFlow && isFlowMark p.char) then some ([], p :: rest)
    else (word? inFlow rest).map fun r => (p.char :: r.1, r.2)

theorem word?_length {inFlow : Bool} {cs rest : List Placed} {w : List Char}
    (h : word? inFlow cs = some (w, rest)) : w.length + rest.length = cs.length := by
  induction cs generalizing w rest with
  | nil =>
    obtain ⟨rfl, rfl⟩ := Prod.mk.inj (Option.some.inj h)
    rfl
  | cons p cs ih =>
    simp only [word?] at h
    split at h
    · obtain ⟨rfl, rfl⟩ := Prod.mk.inj (Option.some.inj h)
      simp
    · split at h
      · simp at h
      · split at h
        · obtain ⟨rfl, rfl⟩ := Prod.mk.inj (Option.some.inj h)
          simp
        · obtain ⟨r, hr, he⟩ := Option.map_eq_some_iff.1 h
          obtain ⟨rfl, rfl⟩ := Prod.mk.inj he
          have := ih hr
          simp only [List.length_cons]
          omega

theorem length_dropWhile_le (f : Placed → Bool) (cs : List Placed) : (cs.dropWhile f).length ≤ cs.length :=
  (List.dropWhile_suffix f).length_le

def hasStrayTab (indent : Nat) (white : List Placed) : Bool :=
  (white.dropWhile Placed.isBlank).any fun p => p.char = '\t' && p.column < indent

def goesOn (inFlow : Bool) (indent : Nat) (white rest : List Placed) : Bool :=
  match rest with
  | [] => false
  | p :: _ => !white.isEmpty && p.char ≠ '#' && !isDocumentMarker rest &&
      (inFlow || !(white.any Placed.isBreak) || indent ≤ p.column)

def plain? (inFlow : Bool) (indent : Nat) (cs : List Placed) : Option (Scanned × Bool) :=
  match _ : word? inFlow cs with
  | none => none
  | some (w, rest) =>
    let white := rest.takeWhile Placed.isSpace
    let next := rest.dropWhile Placed.isSpace
    let last : Scanned × Bool := (⟨w, next⟩, white.any Placed.isBreak)
    if hasStrayTab indent white then none
    else if _ : w = [] then some (⟨[], cs⟩, false)
    else if goesOn inFlow indent white next then
      match plain? inFlow indent next with
      | none => none
      | some (⟨[], _⟩, _) => some last
      | some (⟨more, rest⟩, atBreak) => some (⟨w ++ fold white ++ more, rest⟩, atBreak)
    else some last
termination_by cs.length
decreasing_by
  rename_i hw _ hne _
  have h₁ := word?_length hw
  have h₂ := length_dropWhile_le Placed.isSpace rest
  have h₃ := List.length_pos_iff.2 hne
  omega

def letterEscape? : Char → Option Char
  | '0' => some (Char.ofNat 0)
  | 'a' => some (Char.ofNat 7)
  | 'b' => some (Char.ofNat 8)
  | 't' => some '\t'
  | '\t' => some '\t'
  | 'n' => some '\n'
  | 'v' => some (Char.ofNat 11)
  | 'f' => some (Char.ofNat 12)
  | 'r' => some (Char.ofNat 13)
  | 'e' => some (Char.ofNat 27)
  | ' ' => some ' '
  | '"' => some '"'
  | '/' => some '/'
  | '\\' => some '\\'
  | 'N' => some nextLine
  | '_' => some (Char.ofNat 0xa0)
  | 'L' => some lineSeparator
  | 'P' => some paragraphSeparator
  | _ => none

def escapeWidth? : Char → Option Nat
  | 'x' => some 2
  | 'u' => some 4
  | 'U' => some 8
  | _ => none

def escape? (cs : List Placed) : Option (Char × Nat) :=
  match cs with
  | [] => none
  | p :: rest =>
    match letterEscape? p.char, escapeWidth? p.char with
    | some c, _ => some (c, 1)
    | none, none => none
    | none, some width =>
      let digits := (rest.take width).map Placed.char
      if digits.length = width then
        (Hex.value? digits).bind fun n => if n.isValidChar then some (Char.ofNat n, width + 1) else none
      else none

def quoted? (double : Bool) (cs : List Placed) : Option Scanned :=
  match cs with
  | [] => none
  | p :: rest =>
    if isDocumentMarker (p :: rest) then none
    else if double && p.char = '"' then some ⟨[], rest⟩
    else if double && p.char = '\\' then
      match rest with
      | [] => none
      | q :: rest' =>
        if q.isBreak then
          let white := rest'.takeWhile Placed.isSpace
          (quoted? double (rest'.dropWhile Placed.isSpace)).map fun s =>
            ⟨(white.filter Placed.isBreak).map Placed.char ++ s.text, s.rest⟩
        else match escape? (q :: rest') with
          | none => none
          | some (c, width) => (quoted? double ((q :: rest').drop width)).map fun s => ⟨c :: s.text, s.rest⟩
    else if !double && p.char = '\'' then
      match rest with
      | [] => some ⟨[], []⟩
      | q :: rest' =>
        if q.char = '\'' then (quoted? double rest').map fun s => ⟨'\'' :: s.text, s.rest⟩
        else some ⟨[], rest⟩
    else if p.isSpace then
      (quoted? double (rest.dropWhile Placed.isSpace)).map fun s =>
        ⟨fold (p :: rest.takeWhile Placed.isSpace) ++ s.text, s.rest⟩
    else (quoted? double rest).map fun s => ⟨p.char :: s.text, s.rest⟩
termination_by cs.length
decreasing_by
  · have := length_dropWhile_le Placed.isSpace rest'
    simp only [List.length_cons]
    omega
  · simp only [List.length_drop, List.length_cons]
    omega
  · simp only [List.length_cons]
    omega
  · have := length_dropWhile_le Placed.isSpace rest
    simp only [List.length_cons]
    omega
  · simp only [List.length_cons]
    omega

end InstructionCoverage.Yaml

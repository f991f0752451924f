import InstructionCoverage.Text.Hex

namespace InstructionCoverage.Json

inductive Token where
  | openList
  | closeList
  | openRecord
  | closeRecord
  | colon
  | comma
  | null
  | other
  | string (text? : Option String)
  deriving DecidableEq

inductive Unit16 where
  | char (c : Char)
  | unit (n : Nat)

def isHigh (n : Nat) : Bool := 0xd800 ≤ n && n < 0xdc00
def isLow (n : Nat) : Bool := 0xdc00 ≤ n && n < 0xe000

def joinUnits : List Unit16 → Option (List Char)
  | [] => some []
  | .char c :: rest => (joinUnits rest).map (c :: ·)
  | .unit n :: .unit m :: rest =>
    if isHigh n then
      if isLow m then (joinUnits rest).map (Char.ofNat (0x10000 + (n - 0xd800) * 0x400 + (m - 0xdc00)) :: ·)
      else none
    else if isLow n then none
    else (joinUnits (.unit m :: rest)).map (Char.ofNat n :: ·)
  | .unit n :: rest =>
    if isHigh n || isLow n then none else (joinUnits rest).map (Char.ofNat n :: ·)

def shortEscape? : Char → Option Char
  | '"' => some '"'
  | '\\' => some '\\'
  | '/' => some '/'
  | 'b' => some (Char.ofNat 8)
  | 'f' => some (Char.ofNat 12)
  | 'n' => some '\n'
  | 'r' => some '\r'
  | 't' => some '\t'
  | _ => none

def units? : List Char → Option (List Unit16 × List Char)
  | [] => none
  | '"' :: rest => some ([], rest)
  | '\\' :: 'u' :: a :: b :: c :: d :: rest =>
    match Hex.value? [a, b, c, d], units? rest with
    | some n, some (us, rest) => some (.unit n :: us, rest)
    | _, _ => none
  | '\\' :: c :: rest =>
    match shortEscape? c, units? rest with
    | some e, some (us, rest) => some (.char e :: us, rest)
    | _, _ => none
  | c :: rest =>
    if c.toNat < 32 || c = '\\' then none
    else match units? rest with
      | some (us, rest) => some (.char c :: us, rest)
      | none => none

theorem units?_length {cs rest : List Char} {us : List Unit16} (h : units? cs = some (us, rest)) :
    rest.length < cs.length := by
  fun_induction units? cs generalizing us rest with
  | case1 => simp at h
  | case2 => simp_all
  | case3 a b c d r n us' r' _ _ ih =>
    obtain ⟨rfl, rfl⟩ := Prod.mk.injEq .. ▸ Option.some.injEq .. ▸ h
    have := ih (by assumption)
    simp only [List.length_cons]
    omega
  | case4 => simp at h
  | case5 c r _ e us' r' _ _ ih =>
    obtain ⟨rfl, rfl⟩ := Prod.mk.injEq .. ▸ Option.some.injEq .. ▸ h
    have := ih (by assumption)
    simp only [List.length_cons]
    omega
  | case6 => simp at h
  | case7 => simp at h
  | case8 c r _ _ _ _ us' r' _ ih =>
    obtain ⟨rfl, rfl⟩ := Prod.mk.injEq .. ▸ Option.some.injEq .. ▸ h
    have := ih (by assumption)
    simp only [List.length_cons]
    omega
  | case9 => simp at h

def afterDigits? : List Char → Option (List Char)
  | [] => none
  | c :: rest => if c.isDigit then some (rest.dropWhile Char.isDigit) else none

def afterInteger? : List Char → Option (List Char)
  | '0' :: rest => some rest
  | cs => afterDigits? cs

def afterFraction? : List Char → Option (List Char)
  | '.' :: rest => afterDigits? rest
  | cs => some cs

def afterSign : List Char → List Char
  | '+' :: rest => rest
  | '-' :: rest => rest
  | cs => cs

def afterExponent? : List Char → Option (List Char)
  | 'e' :: rest => afterDigits? (afterSign rest)
  | 'E' :: rest => afterDigits? (afterSign rest)
  | cs => some cs

def afterMinus : List Char → List Char
  | '-' :: rest => rest
  | cs => cs

def afterNumber? (cs : List Char) : Option (List Char) :=
  ((afterInteger? (afterMinus cs)).bind afterFraction?).bind afterExponent?

theorem afterDigits?_length {cs rest : List Char} (h : afterDigits? cs = some rest) : rest.length < cs.length := by
  cases cs with
  | nil => simp [afterDigits?] at h
  | cons c cs =>
    simp only [afterDigits?] at h
    split at h
    · have := (List.dropWhile_suffix Char.isDigit (l := cs)).length_le
      rw [← Option.some.inj h, List.length_cons]
      omega
    · simp at h

theorem afterInteger?_length {cs rest : List Char} (h : afterInteger? cs = some rest) : rest.length < cs.length := by
  unfold afterInteger? at h
  split at h
  · simp [← Option.some.inj h]
  · exact afterDigits?_length h

theorem afterFraction?_length {cs rest : List Char} (h : afterFraction? cs = some rest) :
    rest.length ≤ cs.length := by
  unfold afterFraction? at h
  split at h
  · have := afterDigits?_length h
    simp only [List.length_cons]
    omega
  · exact Nat.le_of_eq (congrArg List.length (Option.some.inj h).symm)

theorem afterSign_length (cs : List Char) : (afterSign cs).length ≤ cs.length := by
  unfold afterSign
  split <;> simp

theorem afterMinus_length (cs : List Char) : (afterMinus cs).length ≤ cs.length := by
  unfold afterMinus
  split <;> simp

theorem afterExponent?_length {cs rest : List Char} (h : afterExponent? cs = some rest) :
    rest.length ≤ cs.length := by
  unfold afterExponent? at h
  split at h
  case h_3 => exact Nat.le_of_eq (congrArg List.length (Option.some.inj h).symm)
  all_goals
    rename_i r
    have h₁ := afterDigits?_length h
    have h₂ := afterSign_length r
    simp only [List.length_cons]
    omega

theorem afterNumber?_length {cs rest : List Char} (h : afterNumber? cs = some rest) : rest.length < cs.length := by
  obtain ⟨b, hb, hrest⟩ := Option.bind_eq_some_iff.1 h
  obtain ⟨a, ha, hab⟩ := Option.bind_eq_some_iff.1 hb
  have h₁ := afterInteger?_length ha
  have h₂ := afterFraction?_length hab
  have h₃ := afterExponent?_length hrest
  have h₄ := afterMinus_length cs
  omega

namespace Token

def next? : List Char → Option (Token × List Char)
  | '[' :: rest => some (openList, rest)
  | ']' :: rest => some (closeList, rest)
  | '\x7b' :: rest => some (openRecord, rest)
  | '\x7d' :: rest => some (closeRecord, rest)
  | ':' :: rest => some (colon, rest)
  | ',' :: rest => some (comma, rest)
  | 'n' :: 'u' :: 'l' :: 'l' :: rest => some (null, rest)
  | 't' :: 'r' :: 'u' :: 'e' :: rest => some (other, rest)
  | 'f' :: 'a' :: 'l' :: 's' :: 'e' :: rest => some (other, rest)
  | '"' :: cs => (units? cs).map fun r => (string ((joinUnits r.1).map String.ofList), r.2)
  | cs => (afterNumber? cs).map fun rest => (other, rest)

theorem next?_length {cs rest : List Char} {t : Token} (h : next? cs = some (t, rest)) :
    rest.length < cs.length := by
  unfold next? at h
  split at h
  case h_10 =>
    obtain ⟨r, hr, he⟩ := Option.map_eq_some_iff.1 h
    have := units?_length hr
    rw [← (Prod.mk.inj he).2, List.length_cons]
    omega
  case h_11 =>
    obtain ⟨r, hr, he⟩ := Option.map_eq_some_iff.1 h
    rw [← (Prod.mk.inj he).2]
    exact afterNumber?_length hr
  all_goals
    rw [← (Prod.mk.inj (Option.some.inj h)).2]
    simp only [List.length_cons]
    omega

def isBlank (c : Char) : Bool :=
  c = ' ' || c = '\t' || c = '\n' || c = '\r'

def scan? (cs : List Char) : Option (List Token) :=
  match cs with
  | [] => some []
  | c :: rest =>
    if isBlank c then scan? rest
    else match _ : next? (c :: rest) with
      | some (t, rest) => (scan? rest).map (t :: ·)
      | none => none
termination_by cs.length
decreasing_by
  · simp
  · exact next?_length (by assumption)

end Token

end InstructionCoverage.Json

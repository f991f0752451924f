import InstructionCoverage.Path

namespace InstructionCoverage.CommandLine

structure Target where
  binary : Path
  architecture : Option String
  base : Option String
  deriving DecidableEq

inductive Command where
  | check (files : List Path) (json : Bool)
  | align (target : Target) (files : List Path) (raw json : Bool)
  | summary (target : Target) (files : List Path) (json : Bool)
  | run (config : Path) (json : Bool)
  deriving DecidableEq

inductive Request where
  | version
  | help
  | command (c : Command)
  deriving DecidableEq

structure Form where
  flags : List String
  paths : List String
  texts : List String
  takesFiles : Bool

structure Found where
  flags : List String
  options : List (String × String)
  files : List String

def Found.nothing : Found := ⟨[], [], []⟩

inductive Argument where
  | plain (text : String)
  | divider
  | letters (cs : List Char)
  | long (name : String) (value : Option String)

namespace Argument

def ofLong (cs : List Char) : Argument :=
  match cs.dropWhile (· != '=') with
  | [] => long (String.ofList cs) none
  | _ :: value => long (String.ofList (cs.takeWhile (· != '='))) (some (String.ofList value))

def ofString (s : String) : Argument :=
  match s.toList with
  | ['-'] => plain s
  | ['-', '-'] => divider
  | '-' :: '-' :: cs => ofLong cs
  | '-' :: cs => letters cs
  | _ => plain s

end Argument

inductive Reached (α : Type) where
  | request (r : Request)
  | found (a : α)

def verbose : String := "verbose"

def Found.addFlag? (f : Found) (name : String) : Option Found :=
  if f.flags.contains name then none else some { f with flags := name :: f.flags }

def Found.addOption? (f : Found) (form : Form) (name value : String) : Option Found :=
  if f.options.any (·.1 == name) || (form.paths.contains name && value.isEmpty) then none
  else some { f with options := (name, value) :: f.options }

def Found.addFile? (f : Found) (form : Form) (file : String) : Option Found :=
  if form.takesFiles && !file.isEmpty then some { f with files := f.files ++ [file] } else none

def letters? (inCommand : Bool) : List Char → Found → Option (Reached Found)
  | [], f => some (.found f)
  | 'v' :: cs, f => (f.addFlag? verbose).bind (letters? inCommand cs)
  | 'h' :: _, _ => some (.request .help)
  | 'V' :: _, _ => if inCommand then none else some (.request .version)
  | _ :: _, _ => none

def isValue (s : String) : Bool :=
  match Argument.ofString s with
  | .plain _ => true
  | _ => false

def read? (form : Form) : List String → Found → Option (Reached Found)
  | [], f => some (.found f)
  | arg :: rest, f =>
    match Argument.ofString arg with
    | .plain file => (f.addFile? form file).bind (read? form rest)
    | .divider => (rest.foldlM (fun f file => Found.addFile? f form file) f).map .found
    | .letters cs =>
      match letters? true cs f with
      | some (.found f) => read? form rest f
      | reached => reached
    | .long name (some value) =>
      if (form.paths ++ form.texts).contains name then (f.addOption? form name value).bind (read? form rest) else none
    | .long name none =>
      if name = "help" then some (.request .help)
      else if (verbose :: form.flags).contains name then (f.addFlag? name).bind (read? form rest)
      else if (form.paths ++ form.texts).contains name then
        match rest with
        | value :: rest =>
          if isValue value then (f.addOption? form name value).bind (read? form rest) else none
        | [] => none
      else none

def Found.option? (f : Found) (name : String) : Option String :=
  f.options.lookup name

def Found.has (f : Found) (flag : String) : Bool :=
  f.flags.contains flag

def Found.paths? (f : Found) : Option (List Path) :=
  if f.files.isEmpty then none else some (f.files.map Path.mk)

def Found.target? (f : Found) : Option Target :=
  (f.option? "binary").map fun binary => ⟨⟨binary⟩, f.option? "arch", f.option? "base"⟩

structure CommandForm where
  form : Form
  make? : Found → Option Command

def check : CommandForm where
  form := ⟨["json"], [], [], true⟩
  make? f := do return .check (← f.paths?) (f.has "json")

def align : CommandForm where
  form := ⟨["raw", "json"], ["binary"], ["arch", "base"], true⟩
  make? f := do return .align (← f.target?) (← f.paths?) (f.has "raw") (f.has "json")

def summary : CommandForm where
  form := ⟨["json"], ["binary"], ["arch", "base"], true⟩
  make? f := do return .summary (← f.target?) (← f.paths?) (f.has "json")

def run : CommandForm where
  form := ⟨["json"], ["config"], [], false⟩
  make? f := do return .run ⟨← f.option? "config"⟩ (f.has "json")

def commandForm? : String → Option CommandForm
  | "check" => some check
  | "align" => some align
  | "summary" => some summary
  | "run" => some run
  | _ => none

def CommandForm.request? (c : CommandForm) (args : List String) : Option Request :=
  match read? c.form args .nothing with
  | some (.request r) => some r
  | some (.found f) => (c.make? f).map .command
  | none => none

def help? : List String → Option Request
  | [] => some .help
  | [name] => if name = "help" ∨ (commandForm? name).isSome then some .help else none
  | _ => none

def requestFrom? : List String → Found → Option Request
  | [], _ => none
  | arg :: rest, f =>
    match Argument.ofString arg with
    | .plain "help" => help? rest
    | .plain name => (commandForm? name).bind fun c => c.request? rest
    | .divider => none
    | .letters cs =>
      match letters? false cs f with
      | some (.request r) => some r
      | some (.found f) => requestFrom? rest f
      | none => none
    | .long "help" none => some .help
    | .long "version" none => some .version
    | .long name none => if name = verbose then (f.addFlag? name).bind (requestFrom? rest) else none
    | .long _ (some _) => none

def request? (args : List String) : Option Request :=
  requestFrom? args .nothing

end InstructionCoverage.CommandLine

import InstructionCoverage.Complaint
import InstructionCoverage.FileSystem
import InstructionCoverage.Json.Reader
import InstructionCoverage.Json.Writer
import InstructionCoverage.Reading.Decoder
import InstructionCoverage.Yaml.Reader

namespace InstructionCoverage

structure Config where
  binary : Path
  architecture : Option String
  base : Option String
  coverage : List Path
  decoder : String
  deriving DecidableEq

inductive ConfigFormat where
  | json
  | yaml
  deriving DecidableEq

def ConfigFormat.name : ConfigFormat → String
  | .json => "JSON"
  | .yaml => "YAML"

inductive ConfigError where
  | unreadable (path : Path) (cause : ReadError)
  | notText (path : Path)
  | malformed (format : ConfigFormat)
  | invalidBase (text : String) (cause : RangeError)
  | unknownDecoder (name : String)
  deriving DecidableEq

def ConfigError.complaint : ConfigError → Complaint
  | .unreadable path cause => ⟨s!"Failed to read session config at {path.text}", some cause.message⟩
  | .notText path => ⟨s!"Failed to read session config at {path.text}", some "stream did not contain valid UTF-8"⟩
  | .malformed format => ⟨s!"Failed to parse session config {format.name}", none⟩
  | .invalidBase text cause => ⟨s!"Invalid base_address in session config: {text}", some cause.message⟩
  | .unknownDecoder name => ⟨s!"Unknown coverage decoder: {name}", none⟩

namespace Config

def ofBinary (binary : Path) : Config :=
  ⟨binary, none, none, [], LineDecoder.hexRange.name⟩

def fieldNames : List String := ["binary", "arch", "base_address", "coverage", "decoder"]

def field? (fields : List (String × Document)) (name : String) : Option (Option Document) :=
  match fields.filter fun f => f.1 = name with
  | [] => some none
  | [f] => some (some f.2)
  | _ => none

def ofFields? (fields : List (String × Document)) : Option Config := do
  let binary ← (← field? fields "binary").bind Document.text?
  let architecture ← (← field? fields "arch").elim (some none) Document.optionalText?
  let base ← (← field? fields "base_address").elim (some none) Document.optionalText?
  let coverage ← (← field? fields "coverage").elim (some []) Document.texts?
  let decoder ← (← field? fields "decoder").elim (some LineDecoder.hexRange.name) Document.text?
  return ⟨⟨binary⟩, architecture, base, coverage.map Path.mk, decoder⟩

def ofMembers? (members : List (Document × Document)) : Option Config :=
  (members.mapM fun (m : Document × Document) => m.1.text?.map fun name => (name, m.2)).bind ofFields?

def ofItems? (items : List Document) : Option Config :=
  if items.length ≤ fieldNames.length then ofFields? (fieldNames.zip items) else none

def ofJson? (text : String) : Option Config :=
  match Json.read? text with
  | some (.mapping members) => ofMembers? members
  | some (.sequence items) => ofItems? items
  | _ => none

def ofYaml? (text : String) : Option Config :=
  match Yaml.read? text with
  | some (.mapping members) => ofMembers? members
  | _ => none

def optionalMember (name : String) : Option String → List (String × Json)
  | none => []
  | some text => [(name, .string text)]

def toJson (c : Config) : Json :=
  .object ([("binary", .string c.binary.text)] ++ optionalMember "arch" c.architecture ++
    optionalMember "base_address" c.base ++
    [("coverage", .array (c.coverage.map fun p => .string p.text)), ("decoder", .string c.decoder)])

def relativeTo (c : Config) (dir : Path) : Config :=
  { c with binary := dir.join c.binary, coverage := c.coverage.map dir.join }

def baseAddress (c : Config) : Except ConfigError Address :=
  match c.base with
  | none => .ok .zero
  | some text => (Address.parse text).mapError (.invalidBase text)

def lineDecoder (c : Config) : Except ConfigError LineDecoder :=
  match LineDecoder.byName? c.decoder with
  | some d => .ok d
  | none => .error (.unknownDecoder c.decoder)

def formatOf (path : Path) : ConfigFormat :=
  if path.extension? = some "yaml" ∨ path.extension? = some "yml" then .yaml else .json

def parse (format : ConfigFormat) (text : String) : Except ConfigError Config :=
  let config := match format with
    | .json => ofJson? text
    | .yaml => ofYaml? text
  match config with
  | some c => .ok c
  | none => .error (.malformed format)

def load (files : FileSystem) (path : Path) : Except ConfigError Config := do
  let bytes ← (files path).mapError (.unreadable path)
  match String.fromUTF8? (ByteArray.mk bytes.toArray) with
  | none => .error (.notText path)
  | some text =>
    let c ← parse (formatOf path) text
    return match path.parent? with
      | some dir => c.relativeTo dir
      | none => c

end Config

end InstructionCoverage

import InstructionCoverage.Address.RangeSet
import InstructionCoverage.Digest.Sha256
import InstructionCoverage.FileSystem
import InstructionCoverage.Progress
import InstructionCoverage.Reading.Decoder
import InstructionCoverage.Reading.Line

namespace InstructionCoverage

inductive ImportFault where
  | unreadable (e : ReadError)
  | badLine (line : Nat) (e : LineError)
  | truncated (line offset : Nat)
  | undecodable (line : Nat) (text : String) (e : DecodeError)
  | cancelled
  deriving DecidableEq

structure ImportError where
  file : Path
  fault : ImportFault
  deriving DecidableEq

def ImportError.message (e : ImportError) : String :=
  let file := e.file.text
  match e.fault with
  | .unreadable e => s!"{file}: cannot read file: {e.message}"
  | .badLine line e => s!"{file}:{line}: {e.message}"
  | .truncated line offset => s!"{file}:{line}: file ends without a line terminator (offset {offset})"
  | .undecodable line text e => s!"{file}:{line}: cannot decode {Text.quoted text}: {e.message}"
  | .cancelled => s!"{file}: import cancelled"

structure RangeFile where
  path : Path
  digest : String
  ranges : RangeSet
  lineCount : Nat
  deriving DecidableEq

inductive ParseStop where
  | failed (e : ImportError)
  | panicked
  deriving DecidableEq

namespace RangeFile

def digestOf (bytes : List UInt8) : String :=
  Hex.ofBytes (Sha256.digest bytes)

def ofRanges (path : Path) (digest : String) (ranges : List AddressRange) : RangeFile :=
  let ranges := RangeSet.ofList ranges
  ⟨path, digest, ranges, ranges.size⟩

def addRange (ranges : RangeSet) : Option AddressRange → RangeSet
  | none => ranges
  | some r => ranges.insert r

def parseLines (decoder : LineDecoder) (file : Path) (s : Source) (lines : Nat) (ranges : RangeSet) (p : Progress) :
    Except ParseStop (RangeSet × Nat) × Progress :=
  let stop (fault : ImportFault) (p : Progress) : Except ParseStop (RangeSet × Nat) × Progress :=
    (.error (.failed ⟨file, fault⟩), p)
  match s.isExhausted with
  | .error e => stop (.badLine (lines + 1) e) p
  | .ok true => (.ok (ranges, lines), p)
  | .ok false =>
    match p.poll with
    | (.panicked, p) => (.error .panicked, p)
    | (.cancelled, p) => stop .cancelled p
    | (.completed, p) =>
      match _ : s.readLine with
      | (.error e, _) =>
        stop (if e.isEndOfInput then .truncated (lines + 1) e.offset else .badLine (lines + 1) e) p
      | (.ok text, t) =>
        match decoder.decode text with
        | .error e => stop (.undecodable (lines + 1) text e) p
        | .ok r => parseLines decoder file t (lines + 1) (addRange ranges r) p
termination_by s.rest.length
decreasing_by exact Source.readLine_rest_lt (by assumption)

def parseFrom (decoder : LineDecoder) (path : Path) (digest : String) (s : Source) (p : Progress) :
    Except ParseStop RangeFile × Progress :=
  match parseLines decoder path s 0 .empty p with
  | (.ok (ranges, lines), p) => (.ok ⟨path, digest, ranges, lines⟩, p)
  | (.error e, p) => (.error e, p)

def parse (decoder : LineDecoder) (path : Path) (bytes : List UInt8) (p : Progress) :
    Except ParseStop RangeFile × Progress :=
  parseFrom decoder path (digestOf bytes) (.ofSlice bytes) p

def importFile (files : FileSystem) (decoder : LineDecoder) (path : Path) (p : Progress) :
    Except ParseStop RangeFile × Progress :=
  match files path with
  | .error e => (.error (.failed ⟨path, .unreadable e⟩), p)
  | .ok bytes => parse decoder path bytes p

end RangeFile

end InstructionCoverage

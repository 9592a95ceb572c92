import Hart.Assembly.Tokens
import Hart.Console.Command

namespace Hart.Console

def usage : String :=
  "usage: rvemu [--elf] [--page-size BYTES] [--ram-pages PAGES] [--max-steps STEPS] " ++
    "[--print-steps] [--dump] INPUT"

def argumentNumber (bits : Nat) (s : String) : Except String Nat :=
  match Assembly.Literal.digits? 10 s.toList with
  | some n => if n < Nat.pow 2 bits then .ok n else .error ("number too large: " ++ s)
  | none => .error ("invalid number: " ++ s)

def parseArguments (o : Options) (input? : Option String) : List String → Except String (Options × String)
  | [] =>
    match input? with
    | some input => .ok (o, input)
    | none => .error usage
  | "--elf" :: rest => parseArguments { o with elf := true } input? rest
  | "--print-steps" :: rest => parseArguments { o with showSteps := true } input? rest
  | "--dump" :: rest => parseArguments { o with dump := true } input? rest
  | "--page-size" :: n :: rest =>
    match argumentNumber 32 n with
    | .ok n => parseArguments { o with pageSize := n } input? rest
    | .error e => .error e
  | "--ram-pages" :: n :: rest =>
    match argumentNumber 32 n with
    | .ok n => parseArguments { o with ramPages := n } input? rest
    | .error e => .error e
  | "--max-steps" :: n :: rest =>
    match argumentNumber 64 n with
    | .ok n => parseArguments { o with maxSteps? := some n } input? rest
    | .error e => .error e
  | input :: rest =>
    if input? = none ∧ ¬ "--".isPrefixOf input then parseArguments o (some input) rest
    else .error usage

def levelOfName? (s : String) : Option (Option Level) :=
  if s = "off" then some none
  else if s = "error" then some (some .error)
  else if s = "warn" then some (some .warn)
  else if s = "info" then some (some .info)
  else if s = "debug" then some (some .debug)
  else if s = "trace" then some (some .trace)
  else none

def readFailure : IO.Error → String
  | .noFileOrDirectory .. => "No such file or directory (os error 2)"
  | .permissionDenied .. => "Permission denied (os error 13)"
  | e => toString e

def readInput (path : String) : IO (Except String (Array Byte)) := do
  try
    let bytes ← IO.FS.readBinFile path
    return .ok (bytes.toList.map fun b => BitVec.ofNat 8 b.toNat).toArray
  catch e => return .error (readFailure e)

def commandLine (arguments : List String) : IO UInt32 := do
  let log ← IO.getEnv "RVEMU_LOG"
  match parseArguments { level? := log.bind levelOfName? } none arguments with
  | .error e =>
    IO.eprintln e
    return 1
  | .ok (options, path) =>
    match run options path (← readInput path) with
    | none => return 1
    | some report =>
      let stdout ← IO.getStdout
      stdout.write (ByteArray.mk (report.stdout.map fun b => UInt8.ofNat b.toNat))
      stdout.flush
      for line in report.stderr do
        IO.eprintln line
      return UInt32.ofNat report.exitCode

end Hart.Console

def main (arguments : List String) : IO UInt32 := Hart.Console.commandLine arguments

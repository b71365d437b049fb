import SumCalc.CommandLine.Invocation

/-!
# The command

Reads the environment and, if one is named, the file of sources, and writes what
`CommandLine.Invocation` makes of them.
-/

namespace SumCalc.CommandLine

/-- The variables of the environment that are set. -/
def currentEnvironment : IO Environment := do
  let names :=
    [Environment.widthVariable, Environment.overflowVariable, Environment.builderVariable]
  names.filterMapM fun name => do
    return (← IO.getEnv name).map fun text => (name, text)

/-- The fault that a failed reading of a file amounts to. -/
def faultOf : IO.Error → FileFault
  | .noFileOrDirectory .. => .notFound
  | .noSuchThing .. => .notFound
  | .inappropriateType _ number _ =>
      if number.toNat = FileFault.notDirectory.number then .notDirectory else .isDirectory
  | .permissionDenied _ number reason => ⟨number.toNat, reason⟩
  | .resourceExhausted _ number reason => ⟨number.toNat, reason⟩
  | error => ⟨5, toString error⟩

/-- The content of a file. -/
def readFile (path : Path) : IO (Except FileFault ByteArray) := do
  match ← (IO.FS.readBinFile path.text).toBaseIO with
  | .ok content => return .ok content
  | .error error => return .error (faultOf error)

/-- Writes an outcome and returns its exit code. -/
def emit (outcome : Outcome) : IO UInt32 := do
  IO.print outcome.stdout
  IO.eprint outcome.stderr
  return outcome.code.toUInt32

/-- Runs the command on arguments. -/
def runCommand (arguments : List String) : IO (Except Fault Outcome) := do
  match Invocation.plan (← currentEnvironment) arguments with
  | .error fault => return .error fault
  | .ok (.finished outcome) => return .ok outcome
  | .ok (.pending request) =>
      let content ←
        match request.file with
        | none => pure (.error .notFound)
        | some path => readFile path
      return request.finish content

end SumCalc.CommandLine

def main (arguments : List String) : IO UInt32 := do
  match ← SumCalc.CommandLine.runCommand arguments with
  | .ok outcome => SumCalc.CommandLine.emit outcome
  | .error fault =>
      IO.eprintln fault.message
      return 1

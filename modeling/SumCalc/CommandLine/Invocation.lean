import SumCalc.CommandLine.Arguments
import SumCalc.CommandLine.FileTree
import SumCalc.CommandLine.Usage
import SumCalc.Environment
import SumCalc.Report
import SumCalc.Text.Lines

/-!
# Invocations

A command line and an environment make a `Request`: a configuration, a layout, sources and perhaps a
file of further sources. Switches go before the environment, and the environment before defaults.
`Invocation.run` reads the file and writes the report; `Invocation.plan` is the part before any
file is read.
-/

namespace SumCalc.CommandLine

/-- What a run of the command leaves behind. -/
structure Outcome where
  code : Nat
  stdout : String
  stderr : String
deriving DecidableEq, Repr

/-- Why a run of the command leaves nothing behind. -/
inductive Fault
  | failed (failure : Failure)
  /-- A double dash stands where a file is to be named. -/
  | noPath
  /-- The name of a file holds the character NUL. -/
  | nullInPath
  /-- The file is no text in UTF-8. -/
  | undecodable
deriving DecidableEq, Repr

def Fault.message : Fault → String
  | failed failure => failure.message
  | noPath => "'list' object has no attribute 'read_text'"
  | nullInPath => "embedded null byte"
  | undecodable => "the file is not encoded in UTF-8"

/-- Sources to be evaluated. -/
structure Request where
  config : Config
  layout : Layout
  sources : List String
  /-- A file with one more source on each line that is not blank. -/
  file : Option Path

/-- The outcome of a refused command line. -/
def refusal (fault : UsageFault) : Outcome :=
  ⟨2, "", usage ++ "intexpr: error: " ++ fault.message ++ "\n"⟩

/-- What the first reading of a command line comes to. -/
inductive Plan
  | finished (outcome : Outcome)
  | pending (request : Request)

namespace Arguments

/-- The configuration that arguments and defaults make. -/
def config (arguments : Arguments) (defaults : Config) : Except ConfigFault Config := do
  let some width := arguments.width.orElse defaults.width | throw (.unknownWidth none)
  let some overflow := arguments.overflow.orElse defaults.overflow | throw (.unknownOverflow none)
  let some builder := arguments.builder.orElse defaults.builder | throw (.unknownBuilder none)
  return ⟨width, overflow, builder⟩

/-- The layout that arguments ask for. -/
def layout (arguments : Arguments) : Layout where
  style := (arguments.style.orElse .sum).getD .sum
  records := arguments.records
  verbose := arguments.verbose

/-- The path of the file that arguments name. -/
def path? (arguments : Arguments) : Except Fault (Option Path) :=
  match arguments.file with
  | .nothing => .ok none
  | .void => .error .noPath
  | .value text =>
      if text.toList.contains '\x00' then .error .nullInPath
      else .ok (some (Path.ofString text))

/-- The request that arguments and defaults make. -/
def request (arguments : Arguments) (defaults : Config) : Except Fault Request := do
  let config ← (arguments.config defaults).mapError fun fault => .failed (.config fault)
  let file ← arguments.path?
  return ⟨config, arguments.layout, arguments.sources.getD [], file⟩

end Arguments

namespace Request

/-- The sources of a request together with those of the file that was read. -/
def allSources (request : Request) (content : Option String) : List String :=
  let sources := request.sources ++ (content.map Text.records).getD []
  if sources.isEmpty then [sample] else sources

/-- The log line before the first source. -/
def opening (config : Config) (count : Nat) : String :=
  "DEBUG intexpr.cli: evaluating " ++ toString count ++ " input(s) with " ++ config.shown ++ "\n"

/-- The outcome of a request when the file, if there is one, was read as a text. -/
def evaluate (request : Request) (content : Option String) : Except Failure Outcome := do
  let sources := request.allSources content
  let log := if request.layout.verbose then opening request.config sources.length else ""
  let report ← Report.ofSources request.config request.layout sources
  return ⟨report.code, report.stdout, log ++ report.stderr⟩

/-- The outcome of a request when reading its file went as stated. -/
def finish (request : Request) (content : Except FileFault ByteArray) : Except Fault Outcome :=
  match request.file with
  | none => (request.evaluate none).mapError .failed
  | some path =>
      match content with
      | .error fault => .ok (refusal (.unreadable (fault.message path)))
      | .ok bytes =>
          match String.fromUTF8? bytes with
          | none => .error .undecodable
          | some text => (request.evaluate (some text)).mapError .failed

end Request

namespace Invocation

/-- What a command line comes to before any file is read. A faulty environment goes before a
faulty command line. -/
def plan (environment : Environment) (arguments : List String) : Except Fault Plan :=
  match environment.config with
  | .error fault => .ok (.finished ⟨2, "", "intexpr: " ++ fault.message ++ "\n"⟩)
  | .ok defaults =>
      match Arguments.ofCommandLine arguments with
      | .error .help => .ok (.finished ⟨0, help defaults.width, ""⟩)
      | .error (.refused fault) => .ok (.finished (refusal fault))
      | .ok arguments => do return .pending (← arguments.request defaults)

/-- The outcome of a command line in an environment and a file tree. -/
def run (environment : Environment) (files : FileTree) (arguments : List String) :
    Except Fault Outcome := do
  match ← plan environment arguments with
  | .finished outcome => return outcome
  | .pending request =>
      request.finish (files.read (request.file.getD (Path.ofString "")))

end Invocation

end SumCalc.CommandLine

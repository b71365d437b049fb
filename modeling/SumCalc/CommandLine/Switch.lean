import SumCalc.Config
import SumCalc.Term.Printer
import SumCalc.Text.DecimalDigit

/-!
# Switches

The switches of the command line, and what single arguments are. An argument is a switch if it is a
spelling of one or begins like exactly one long spelling; a text may be attached to a long spelling
behind an equals sign and to a short one directly. Arguments that do not begin with a dash, negative
numbers and arguments with a blank are positional, and so is all behind a double dash.
-/

namespace SumCalc.CommandLine

/-- The switches. -/
inductive Switch
  | help
  | file
  | width
  | overflow
  | builder
  | style
  | records
  | verbose
deriving DecidableEq, Repr

namespace Switch

/-- The spellings of all switches. -/
def spellings : List (String × Switch) := [
  ("-h", help), ("--help", help), ("--file", file), ("--int-bits", width),
  ("--overflow", overflow), ("--builder", builder), ("--format", style), ("--json", records),
  ("-v", verbose), ("--verbose", verbose)]

/-- The switch with a spelling. -/
def ofSpelling? (spelling : String) : Option Switch := spellings.lookup spelling

/-- A switch in messages: all its spellings. -/
def label (switch : Switch) : String :=
  "/".intercalate ((spellings.filter fun entry => entry.2 = switch).map Prod.fst)

/-- Whether a switch takes a value. No switch with a short spelling does. -/
def takesValue : Switch → Bool
  | help | records | verbose => false
  | file | width | overflow | builder | style => true

end Switch

/-- Why a command line is refused before any source is evaluated. -/
inductive UsageFault
  /-- The argument begins like several spellings. -/
  | ambiguous (argument : String) (spellings : List String)
  | missingValue (switch : Switch)
  /-- A text is attached to a switch that takes no value. -/
  | strayValue (switch : Switch) (value : String)
  | noInteger (switch : Switch) (value : String)
  /-- A value is not among the choices, which are given as messages show them. -/
  | unknownChoice (switch : Switch) (value choices : String)
  | unrecognized (arguments : List String)
  /-- A file cannot be read, for the stated reason. -/
  | unreadable (reason : String)
deriving DecidableEq, Repr

def UsageFault.message : UsageFault → String
  | ambiguous argument spellings =>
      "ambiguous option: " ++ argument ++ " could match " ++ ", ".intercalate spellings
  | missingValue switch => "argument " ++ switch.label ++ ": expected one argument"
  | strayValue switch value =>
      "argument " ++ switch.label ++ ": ignored explicit argument " ++ Text.quote value
  | noInteger switch value =>
      "argument " ++ switch.label ++ ": invalid int value: " ++ Text.quote value
  | unknownChoice switch value choices =>
      "argument " ++ switch.label ++ ": invalid choice: " ++ value ++ " (choose from " ++ choices ++
        ")"
  | unrecognized arguments => "unrecognized arguments: " ++ " ".intercalate arguments
  | unreadable reason => reason

/-- What an argument is. -/
inductive Word
  | positional (text : String)
  /-- The double dash before which alone switches are recognised. -/
  | separator
  /-- A switch in its short or long form, with the text attached to it. -/
  | switch (kind : Switch) (short : Bool) (attached : Option String)
  /-- An argument that looks like a switch and is none. -/
  | unknown (text : String)
deriving DecidableEq, Repr

namespace Word

/-- The part of a text before its first equals sign, and the part behind it if there is one. -/
def splitAtEquals (cs : List Char) : List Char × Option String :=
  match cs.dropWhile (· ≠ '=') with
  | [] => (cs, none)
  | _ :: value => (cs.takeWhile (· ≠ '='), some (String.ofList value))

/-- Whether a text is a dash and a decimal number, with or without a fraction; one line feed may
follow it. -/
def isNegativeNumber (cs : List Char) : Bool :=
  match cs with
  | '-' :: digits =>
      let digits :=
        match digits.reverse with
        | '\n' :: rest => rest.reverse
        | _ => digits
      let fraction := digits.dropWhile Text.isDecimalDigit
      match fraction with
      | [] => !digits.isEmpty
      | '.' :: decimals => !decimals.isEmpty && decimals.all Text.isDecimalDigit
      | _ => false
  | _ => false

/-- The switches whose spelling an argument of at least two characters abbreviates, each with that
spelling. -/
def abbreviated (cs : List Char) : List (String × Word) :=
  match cs with
  | '-' :: '-' :: _ =>
      let (head, value) := splitAtEquals cs
      (Switch.spellings.filter fun entry => head.isPrefixOf entry.1.toList).map fun entry =>
        (entry.1, .switch entry.2 false value)
  | '-' :: c :: rest =>
      (Switch.spellings.filter fun entry => entry.1 = String.ofList ['-', c]).map fun entry =>
        (entry.1, .switch entry.2 true (some (String.ofList rest)))
  | _ => []

/-- Whether a spelling is a short one. -/
def isShort (spelling : String) : Bool := spelling.length = 2

/-- What an argument other than the double dash is. -/
def ofArgument (argument : String) : Except UsageFault Word :=
  let cs := argument.toList
  if cs.head? ≠ some '-' then .ok (.positional argument)
  else
    match Switch.ofSpelling? argument with
    | some kind => .ok (.switch kind (isShort argument) none)
    | none =>
        if cs.length = 1 then .ok (.positional argument)
        else
          let (head, value) := splitAtEquals cs
          match value, Switch.ofSpelling? (String.ofList head) with
          | some value, some kind =>
              .ok (.switch kind (isShort (String.ofList head)) (some value))
          | _, _ =>
              match abbreviated cs with
              | [(_, word)] => .ok word
              | [] =>
                  if isNegativeNumber cs || cs.contains ' ' then .ok (.positional argument)
                  else .ok (.unknown argument)
              | several => .error (.ambiguous argument (several.map Prod.fst))

/-- What the arguments of a command line are. -/
def ofArguments : List String → Except UsageFault (List Word)
  | [] => .ok []
  | argument :: rest => do
      if argument = "--" then return .separator :: rest.map .positional
      let word ← ofArgument argument
      return word :: (← ofArguments rest)

/-- Whether a word is no switch, neither a known nor an unknown one. -/
def isPlain : Word → Bool
  | positional _ => true
  | separator => true
  | switch .. => false
  | unknown _ => false

/-- The argument that a plain word is made of. -/
def text : Word → String
  | positional text => text
  | separator => "--"
  | switch .. => ""
  | unknown text => text

end Word

end SumCalc.CommandLine

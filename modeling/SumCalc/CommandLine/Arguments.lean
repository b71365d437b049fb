import SumCalc.CommandLine.Switch
import SumCalc.Text.Numeral

/-!
# Arguments of a command line

The words of a command line are taken from left to right. The first run of positional words are the
sources; a switch sets its value, the last one counts; a switch that cannot be set and the wish for
help end the reading at once. Words that nothing takes are refused at the very end.
-/

namespace SumCalc.CommandLine

/-- What a switch was given. -/
inductive Given (α : Type)
  | nothing
  /-- A double dash, which stands for no value. -/
  | void
  | value (a : α)
deriving DecidableEq, Repr

/-- The value of a switch, with a default; none for a double dash. -/
def Given.orElse {α : Type} (given : Given α) (fallback : α) : Option α :=
  match given with
  | .nothing => some fallback
  | .void => none
  | .value a => some a

/-- What a command line asks for. -/
structure Arguments where
  /-- The sources, once the first run of positional words has been taken. -/
  sources : Option (List String) := none
  file : Given String := .nothing
  width : Given Width := .nothing
  overflow : Given OverflowPolicy := .nothing
  builder : Given BuilderKind := .nothing
  style : Given Style := .nothing
  records : Bool := false
  verbose : Bool := false
  /-- The words that nothing has taken. -/
  extras : List String := []

/-- Why the reading of a command line ends early. -/
inductive Halt
  | help
  | refused (fault : UsageFault)

namespace Arguments

/-- A choice among names, or the fault of a name that is not among them. -/
def choose {α : Type} (kind : Switch) (ofName? : String → Option α) (choices name : String) :
    Except UsageFault (Given α) :=
  match ofName? name with
  | some a => .ok (.value a)
  | none => .error (.unknownChoice kind (Text.quote name) choices)

/-- The width of a numeral. -/
def chooseWidth (kind : Switch) (numeral : String) : Except UsageFault (Given Width) :=
  match Text.Numeral.read? numeral with
  | none => .error (.noInteger kind numeral)
  | some n =>
      match Width.ofBits? n with
      | some width => .ok (.value width)
      | none => .error (.unknownChoice kind (toString n) Width.choices)

/-- What a text gives to a switch, when it is no double dash. -/
def given {α : Type} (text : String) (read : String → Except UsageFault (Given α)) :
    Except UsageFault (Given α) :=
  if text = "--" then .ok .void else read text

/-- The choice of styles in messages. -/
def styleChoices : String := Text.quoteAll (Style.all.map Style.name)

/-- The arguments after a switch with a value. -/
def assign (arguments : Arguments) (kind : Switch) (text : String) :
    Except UsageFault Arguments :=
  match kind with
  | .file => return { arguments with file := ← given text fun path => .ok (.value path) }
  | .width => return { arguments with width := ← given text (chooseWidth kind) }
  | .overflow => do
      let choice := choose kind OverflowPolicy.ofName? OverflowPolicy.choices
      return { arguments with overflow := ← given text choice }
  | .builder => do
      let choice := choose kind BuilderKind.ofName? BuilderKind.choices
      return { arguments with builder := ← given text choice }
  | .style => do
      let choice := choose kind Style.ofName? styleChoices
      return { arguments with style := ← given text choice }
  | .help | .records | .verbose => .ok arguments

/-- The arguments after switches without values. -/
def turnOn (arguments : Arguments) : List Switch → Except Halt Arguments
  | [] => .ok arguments
  | .help :: _ => .error .help
  | .records :: rest => { arguments with records := true }.turnOn rest
  | .verbose :: rest => { arguments with verbose := true }.turnOn rest
  | _ :: rest => arguments.turnOn rest

/-- The switches that the letters of a short form stand for. A letter that stands for none is a
stray value of the switch before it. -/
def cluster (kind : Switch) : List Char → Except UsageFault (List Switch)
  | [] => .ok [kind]
  | letter :: letters =>
      match Switch.ofSpelling? (String.ofList ['-', letter]) with
      | some next => do return kind :: (← cluster next letters)
      | none => .error (.strayValue kind (String.ofList (letter :: letters)))

/-- The switches without values that one word stands for. -/
def switches (kind : Switch) (short : Bool) (attached : Option String) :
    Except UsageFault (List Switch) :=
  match attached with
  | none => .ok [kind]
  | some text =>
      if short && !text.isEmpty then cluster kind text.toList
      else .error (.strayValue kind text)

/-- The arguments after a run of plain words: the first run are the sources, its first double dash
left out; nothing takes the others. -/
def takePlain (arguments : Arguments) (texts : List String) : Arguments :=
  match arguments.sources with
  | none => { arguments with sources := some (texts.erase "--") }
  | some _ => { arguments with extras := arguments.extras ++ texts }

/-- The arguments after further words. -/
def consume (arguments : Arguments) : List Word → Except Halt Arguments
  | [] => .ok arguments
  | .switch kind short attached :: rest =>
      if kind.takesValue then
        match attached, rest with
        | some text, rest => do
            let next ← (arguments.assign kind text).mapError .refused
            next.consume rest
        | none, .positional text :: rest => do
            let next ← (arguments.assign kind text).mapError .refused
            next.consume rest
        | none, _ => .error (.refused (.missingValue kind))
      else do
        let on ← (switches kind short attached).mapError .refused
        let next ← arguments.turnOn on
        next.consume rest
  | .unknown text :: rest => { arguments with extras := arguments.extras ++ [text] }.consume rest
  | word :: rest =>
      let run := word :: rest.takeWhile Word.isPlain
      (arguments.takePlain (run.map Word.text)).consume (rest.dropWhile Word.isPlain)
termination_by words => words.length
decreasing_by
  all_goals simp only [List.length_cons]
  all_goals try omega
  have shorter := (List.dropWhile_sublist (l := rest) Word.isPlain).length_le
  omega

/-- The arguments that a command line asks for. -/
def ofCommandLine (texts : List String) : Except Halt Arguments := do
  let words ← (Word.ofArguments texts).mapError .refused
  let arguments ← consume {} words
  if arguments.extras.isEmpty then return arguments
  else .error (.refused (.unrecognized arguments.extras))

end Arguments

end SumCalc.CommandLine

import SumCalc.Rejection

/-!
# Configurations

A configuration fixes the width of integers, what happens to a sum beyond that width, and the way
in which expressions are built. The width bounds literals while an expression is built and sums
while it is evaluated. `Width.wrap` is two's complement; `Config.ofSettings` reads a configuration
from numbers and names and refuses the first that is not among the choices.
-/

namespace SumCalc

/-- The number of bits of a signed integer. -/
inductive Width
  | bits8
  | bits16
  | bits32
  | bits64
deriving DecidableEq, Repr

namespace Width

def bits : Width → Nat
  | bits8 => 8
  | bits16 => 16
  | bits32 => 32
  | bits64 => 64

/-- All widths, the narrowest first. -/
def all : List Width := [bits8, bits16, bits32, bits64]

/-- The width with a number of bits. -/
def ofBits? (n : Int) : Option Width := all.find? fun width => (width.bits : Int) = n

theorem ofBits?_bits (width : Width) : ofBits? width.bits = some width := by
  cases width <;> rfl

theorem bits_of_ofBits? {n : Int} {width : Width} (known : ofBits? n = some width) :
    (width.bits : Int) = n := by
  simpa using List.find?_some known

/-- The choice of widths in messages. -/
def choices : String := ", ".intercalate (all.map fun width => toString width.bits)

/-- The least integer of a width. -/
def minInt (width : Width) : Int := -Int.pow 2 (width.bits - 1)

/-- The greatest integer of a width. -/
def maxInt (width : Width) : Int := Int.pow 2 (width.bits - 1) - 1

/-- An integer fits a width if it lies in its range. -/
def Fits (width : Width) (n : Int) : Prop := width.minInt ≤ n ∧ n ≤ width.maxInt

instance (width : Width) (n : Int) : Decidable (width.Fits n) :=
  inferInstanceAs (Decidable (_ ∧ _))

/-- The integer of the width that is congruent to `n` modulo the number of its integers. -/
def wrap (width : Width) (n : Int) : Int := n.bmod (Nat.pow 2 width.bits)

end Width

/-- What becomes of a sum beyond the width. -/
inductive OverflowPolicy
  | fail
  | wrap
deriving DecidableEq, Repr

namespace OverflowPolicy

def name : OverflowPolicy → String
  | fail => "fail"
  | wrap => "wrap"

def all : List OverflowPolicy := [fail, wrap]

/-- The policy of a name. -/
def ofName? (name : String) : Option OverflowPolicy := all.find? fun policy => policy.name = name

theorem ofName?_name (policy : OverflowPolicy) : ofName? policy.name = some policy := by
  cases policy <;> rfl

/-- The choice of policies in messages. -/
def choices : String := Text.quoteAll (all.map name)

end OverflowPolicy

/-- How an expression is built from a parse tree. -/
inductive BuilderKind
  /-- Each sum is folded from its parts. -/
  | recursive
  /-- A builder reacts to the events of a walk. -/
  | stack
deriving DecidableEq, Repr

namespace BuilderKind

def name : BuilderKind → String
  | recursive => "recursive"
  | stack => "stack"

def all : List BuilderKind := [recursive, stack]

/-- The kind of builder of a name. -/
def ofName? (name : String) : Option BuilderKind := all.find? fun kind => kind.name = name

theorem ofName?_name (kind : BuilderKind) : ofName? kind.name = some kind := by
  cases kind <;> rfl

/-- The choice of builders in messages. -/
def choices : String := Text.quoteAll (all.map name)

end BuilderKind

/-- Why settings are no configuration. The setting may lack a value altogether. -/
inductive ConfigFault
  | unknownWidth (got : Option Int)
  | unknownOverflow (got : Option String)
  | unknownBuilder (got : Option String)
  /-- The text of an environment variable is no integer. -/
  | noInteger (name : String) (text : String)
deriving DecidableEq, Repr

namespace ConfigFault

/-- A value that was given, or the empty list that stands for a missing one. -/
def shown {α : Type} (encode : α → String) : Option α → String
  | some value => encode value
  | none => "[]"

def message : ConfigFault → String
  | unknownWidth got =>
      "int_bits must be one of (" ++ Width.choices ++ "), got " ++ shown toString got
  | unknownOverflow got =>
      "overflow must be one of (" ++ OverflowPolicy.choices ++ "), got " ++ shown Text.quote got
  | unknownBuilder got =>
      "builder must be one of (" ++ BuilderKind.choices ++ "), got " ++ shown Text.quote got
  | noInteger name text => name ++ " must be an integer, got " ++ Text.quote text

end ConfigFault

/-- The integers of an evaluation and the way to it. -/
structure Config where
  width : Width := .bits32
  overflow : OverflowPolicy := .fail
  builder : BuilderKind := .recursive
deriving DecidableEq, Repr

namespace Config

/-- The configuration with given settings. -/
def ofSettings (bits : Int) (overflow builder : String) : Except ConfigFault Config := do
  let some width := Width.ofBits? bits | throw (.unknownWidth bits)
  let some policy := OverflowPolicy.ofName? overflow | throw (.unknownOverflow overflow)
  let some kind := BuilderKind.ofName? builder | throw (.unknownBuilder builder)
  return ⟨width, policy, kind⟩

theorem ofSettings_eq_ok_iff {bits : Int} {overflow builder : String} {config : Config} :
    ofSettings bits overflow builder = .ok config ↔
      Width.ofBits? bits = some config.width ∧
      OverflowPolicy.ofName? overflow = some config.overflow ∧
      BuilderKind.ofName? builder = some config.builder := by
  obtain ⟨width, policy, kind⟩ := config
  rw [ofSettings]
  cases Width.ofBits? bits with
  | none => exact iff_of_false nofun nofun
  | some found =>
      cases OverflowPolicy.ofName? overflow with
      | none => exact iff_of_false nofun nofun
      | some foundPolicy =>
          cases BuilderKind.ofName? builder with
          | none => exact iff_of_false nofun nofun
          | some foundKind =>
              show Except.ok (Config.mk found foundPolicy foundKind) = _ ↔ _
              simp

/-- The sum of two integers under a configuration. -/
def add (config : Config) (left right : Int) : Except Rejection Int :=
  if config.width.Fits (left + right) then .ok (left + right)
  else
    match config.overflow with
    | .wrap => .ok (config.width.wrap (left + right))
    | .fail => .error (.nowhere (.sumOverflow left right config.width.bits))

/-- A configuration in log lines. -/
def shown (config : Config) : String :=
  "EvalConfig(int_bits=" ++ toString config.width.bits ++ ", overflow=" ++
    Text.quote config.overflow.name ++ ", builder=" ++ Text.quote config.builder.name ++ ")"

end Config

end SumCalc

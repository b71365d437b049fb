import SumCalc.Token
import SumCalc.Json
import SumCalc.Text.Quoted

/-!
# Rejections

A rejection says why a source has no value: a `Cause` and, as far as it is known, a place. Every
cause has a stable code, a message, and details of its own.
-/

namespace SumCalc

/-- What a source may go on with. -/
inductive Continuation
  | terminal (kind : Terminal)
  | endOfSource
deriving DecidableEq, Repr

/-- The name of a continuation in messages. -/
def Continuation.name : Continuation → String
  | .terminal kind => kind.name
  | .endOfSource => "$END"

/-- Why a text is no sum. -/
inductive SyntaxFault
  /-- A character that begins no token. -/
  | strayCharacter (c : Char)
  /-- A token that cannot stand where it does. -/
  | misplaced (kind : Terminal) (text : String) (expected : List Continuation)
  /-- The text ends too early. -/
  | earlyEnd (expected : List Continuation)
  /-- A fault found elsewhere, in the words of its finder. -/
  | stated (message : String) (found : Option String)
deriving DecidableEq, Repr

namespace SyntaxFault

/-- The list of continuations at the end of a message. -/
def expectation (expected : List Continuation) : String :=
  ", expected one of: " ++ ", ".intercalate (expected.map Continuation.name)

def message : SyntaxFault → String
  | strayCharacter c => "unexpected character " ++ Text.quote (String.ofList [c])
  | misplaced kind text expected =>
      "unexpected " ++ kind.name ++ " " ++ Text.quote text ++ expectation expected
  | earlyEnd expected => "unexpected end of input" ++ expectation expected
  | stated message _ => message

/-- The text that was found where something else was expected. -/
def found : SyntaxFault → Option String
  | strayCharacter c => some (String.ofList [c])
  | misplaced _ text _ => some text
  | earlyEnd _ => none
  | stated _ found => found

end SyntaxFault

/-- How a builder was used out of order. -/
inductive Misuse
  | alreadyComplete
  | notComplete
  /-- A sum without any subtree was left. -/
  | emptySum
  /-- A sum was left with fewer values on the stack than it has subtrees. -/
  | missingValues (needed available : Nat)
  /-- The walk ended with another number of values than one. -/
  | unbalanced (depth : Nat)
  /-- A misuse found elsewhere, in the words of its finder. -/
  | stated (message : String)
deriving DecidableEq, Repr

def Misuse.message : Misuse → String
  | alreadyComplete => "builder already completed a walk"
  | notComplete => "get_expression() called before the walk completed"
  | emptySum => "sum completed without any primitive"
  | missingValues needed available =>
      "sum of " ++ toString needed ++ " primitives completed with only " ++ toString available ++
        " values on the stack"
  | unbalanced depth =>
      "walk ended with " ++ toString depth ++ " values on the stack, expected 1"
  | stated message => message

/-- Why a source, an expression or a step of a builder was refused. -/
inductive Cause
  | faultySyntax (fault : SyntaxFault)
  /-- A literal beyond the width of the configuration. -/
  | literalOverflow (literal : String) (bits : Int)
  /-- A sum beyond the width of the configuration. -/
  | sumOverflow (left right : Int) (bits : Int)
  | misuse (fault : Misuse)
  /-- Any other cause, in the words of its finder. -/
  | stated (message : String)
deriving DecidableEq, Repr

namespace Cause

/-- The stable code by which tools tell causes apart. -/
def code : Cause → String
  | faultySyntax _ => "E-SYNTAX"
  | literalOverflow .. => "E-LITERAL-OVERFLOW"
  | sumOverflow .. => "E-ARITH-OVERFLOW"
  | misuse _ => "E-PRECONDITION"
  | stated _ => "E-INTEXPR"

def message : Cause → String
  | faultySyntax fault => fault.message
  | literalOverflow literal bits =>
      "integer literal " ++ literal ++ " does not fit in " ++ toString bits ++
        "-bit signed range"
  | sumOverflow left right bits =>
      toString left ++ " + " ++ toString right ++ " overflows " ++ toString bits ++
        "-bit signed range"
  | misuse fault => fault.message
  | stated message => message

/-- What a record of a cause holds beyond code, message and place. -/
def details : Cause → List (String × Json)
  | faultySyntax fault => [("found", .ofOption .text fault.found)]
  | literalOverflow literal bits => [("literal", .text literal), ("bits", .integer bits)]
  | sumOverflow left right bits =>
      [("operands", .array [.integer left, .integer right]), ("bits", .integer bits)]
  | misuse _ => []
  | stated _ => []

end Cause

/-- A cause with the line and the column it concerns, as far as they are known. -/
structure Rejection where
  cause : Cause
  line : Option Int
  column : Option Int
deriving DecidableEq, Repr

namespace Rejection

/-- A rejection at a place. -/
def located (place : Position) (cause : Cause) : Rejection :=
  ⟨cause, some place.line, some place.column⟩

/-- A rejection that concerns no place. -/
def nowhere (cause : Cause) : Rejection := ⟨cause, none, none⟩

def code (rejection : Rejection) : String := rejection.cause.code

def message (rejection : Rejection) : String := rejection.cause.message

/-- One line for a reader: code, message, and the place if both its numbers are known. -/
def human (rejection : Rejection) : String :=
  let head := "[" ++ rejection.code ++ "] " ++ rejection.message
  match rejection.line, rejection.column with
  | some line, some column => head ++ " at " ++ toString line ++ ":" ++ toString column
  | _, _ => head

/-- The record of a rejection. -/
def toJson (rejection : Rejection) : Json :=
  .object ([("code", .text rejection.code), ("message", .text rejection.message),
    ("line", .ofOption .integer rejection.line),
    ("column", .ofOption .integer rejection.column)] ++ rejection.cause.details)

end Rejection

end SumCalc

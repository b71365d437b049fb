import SumCalc.Rejection

/-!
# Diagnostics

A diagnostic is a rejection made ready for a reader: severity, place, message and code on one line
and, for a source of one line, that source with a caret below the place.
-/

namespace SumCalc

/-- A stretch of a text, as far as its ends are known. -/
structure Span where
  line : Option Int := none
  column : Option Int := none
  endLine : Option Int := none
  endColumn : Option Int := none
deriving DecidableEq, Repr

/-- The span that begins at a place and whose end is not known. -/
def Span.ofPosition (place : Position) : Span where
  line := place.line
  column := place.column

/-- A report to a reader. -/
structure Diagnostic where
  message : String
  code : Option String := none
  severity : String := "error"
  span : Span := {}
  source : Option String := none
deriving DecidableEq, Repr

namespace Diagnostic

/-- The diagnostic of a rejection, with the source it is about if that is to be shown. -/
def ofRejection (rejection : Rejection) (source : Option String) : Diagnostic where
  message := rejection.message
  code := rejection.code
  span := { line := rejection.line, column := rejection.column }
  source := source

/-- The source and a caret below its column, if the source is one line and the column is known. -/
def caret (diagnostic : Diagnostic) : Option String :=
  match diagnostic.source, diagnostic.span.line, diagnostic.span.column with
  | some source, some 1, some column =>
      if source.toList.contains '\n' then none
      else
        let indent := String.ofList (List.replicate (column - 1).toNat ' ')
        some ("  " ++ source ++ "\n  " ++ indent ++ "^")
  | _, _, _ => none

/-- The place at the front of a diagnostic, if both its numbers are known. -/
def whereabouts (span : Span) : String :=
  match span.line, span.column with
  | some line, some column => toString line ++ ":" ++ toString column ++ ": "
  | _, _ => ""

/-- The code at the end of a diagnostic; an empty one is not shown. -/
def bracketed : Option String → String
  | none => ""
  | some code => if code.isEmpty then "" else " [" ++ code ++ "]"

/-- A diagnostic for a reader. -/
def human (diagnostic : Diagnostic) : String :=
  let head := diagnostic.severity ++ ": " ++ whereabouts diagnostic.span ++ diagnostic.message ++
    bracketed diagnostic.code
  match diagnostic.caret with
  | none => head
  | some caret => head ++ "\n" ++ caret

/-- The record of a diagnostic, its fields in alphabetical order. -/
def toJson (diagnostic : Diagnostic) : Json :=
  .object [("code", .ofOption .text diagnostic.code),
    ("column", .ofOption .integer diagnostic.span.column),
    ("line", .ofOption .integer diagnostic.span.line),
    ("message", .text diagnostic.message), ("severity", .text diagnostic.severity)]

end Diagnostic

end SumCalc

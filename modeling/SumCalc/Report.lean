import SumCalc.Diagnostic
import SumCalc.Source
import SumCalc.Term.Printer

/-!
# Reports on sources

A list of sources is evaluated one after the other, whatever becomes of each. An accepted source
makes a line on standard output; a rejected one makes a diagnostic on standard error. As records,
both make a line of JSON on standard output. `Report.ofSources` is the report on a list.
-/

namespace SumCalc

/-- How a report is written. -/
structure Layout where
  style : Style := .sum
  records : Bool := false
  /-- Whether the steps that succeed are logged on standard error. -/
  verbose : Bool := false
deriving DecidableEq, Repr

/-- What is written about sources, and whether one of them was rejected. -/
structure Report where
  stdout : String
  stderr : String
  rejected : Bool
deriving DecidableEq, Repr

namespace Report

/-- The report on no source. -/
def empty : Report := ⟨"", "", false⟩

/-- A report followed by another. -/
def append (first second : Report) : Report :=
  ⟨first.stdout ++ second.stdout, first.stderr ++ second.stderr,
    first.rejected || second.rejected⟩

/-- The exit code that goes with a report. -/
def code (report : Report) : Nat := if report.rejected then 1 else 0

/-- Lines of a log or a report. -/
def lines (texts : List String) : String := String.join (texts.map (· ++ "\n"))

/-- The report on an accepted source. -/
def accepted (layout : Layout) (evaluated : Evaluated) : Report :=
  let rendered := evaluated.expr.text layout.style
  let line :=
    if layout.records then
      (Json.object [("expr", .text rendered), ("input", .text evaluated.source),
        ("value", .integer evaluated.value)]).render
    else evaluated.source ++ "=" ++ rendered ++ "=" ++ toString evaluated.value
  ⟨lines [line], "", false⟩

/-- The report on a rejected source. -/
def refused (layout : Layout) (source : String) (rejection : Rejection) : Report :=
  let diagnostic := Diagnostic.ofRejection rejection (some source)
  if layout.records then
    ⟨lines [(Json.object [("error", diagnostic.toJson), ("input", .text source)]).render], "", true⟩
  else ⟨"", lines [source ++ ": " ++ diagnostic.human], true⟩

/-- The report on a source. A failure that is no rejection leaves no report. -/
def ofSource (config : Config) (layout : Layout) (source : String) : Except Failure Report :=
  let log := if layout.verbose then lines (Source.trace config source) else ""
  match Source.evaluate config source with
  | .ok evaluated => .ok (append ⟨"", log, false⟩ (accepted layout evaluated))
  | .error (.rejected rejection) =>
      .ok (append ⟨"", log, false⟩ (refused layout source rejection))
  | .error failure => .error failure

/-- The report on a list of sources. -/
def ofSources (config : Config) (layout : Layout) (sources : List String) :
    Except Failure Report :=
  sources.foldlM (fun report source => do
    return report.append (← ofSource config layout source)) empty

end Report

end SumCalc

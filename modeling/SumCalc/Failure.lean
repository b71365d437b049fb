import SumCalc.Config

/-!
# Failures

Everything that can go wrong besides the rejection of a source: trees and literals that no source
makes, foreign values in a term, settings that are no configuration.
-/

namespace SumCalc

/-- The leaves of parse trees. -/
inductive LeafKind
  | token
  | text
deriving DecidableEq, Repr

/-- Why a parse tree denotes no expression. -/
inductive TreeFault
  /-- The tree is none of `root`, `sum` and `primitive`. -/
  | unsupported (label : String)
  /-- A `root` has no rule among its children. -/
  | emptyRoot
  /-- A `sum` has no rule among its children. -/
  | emptySum
  /-- A `primitive` without a number has other rules among its children than one `sum`. -/
  | ungrouped
  /-- A leaf stands where children are asked for. -/
  | childless (kind : LeafKind)
deriving DecidableEq, Repr

def TreeFault.message : TreeFault → String
  | unsupported label => "Unsupported parse node: " ++ label
  | emptyRoot => "list index out of range"
  | emptySum => "sum requires at least one primitive"
  | ungrouped => "parenthesized primitive must wrap exactly one sum"
  | childless .token => "'Token' object has no attribute 'children'"
  | childless .text => "'str' object has no attribute 'children'"

/-- Why there is no result. -/
inductive Failure
  | rejected (rejection : Rejection)
  | malformed (fault : TreeFault)
  /-- The text of a number token is no numeral. -/
  | unreadable (digits : String)
  /-- A term holds a foreign value of the named type. -/
  | foreign (typeName : String)
  | config (fault : ConfigFault)
deriving DecidableEq, Repr

def Failure.message : Failure → String
  | rejected rejection => rejection.message
  | malformed fault => fault.message
  | unreadable digits => "invalid literal for int() with base 10: " ++ Text.quote digits
  | foreign typeName => "Unexpected expression node: " ++ typeName
  | config fault => fault.message

/-- Two steps give a result only if each of them does. -/
theorem exists_of_bind_ok {ε α β : Type} {first : Except ε α} {next : α → Except ε β} {b : β}
    (gives : first >>= next = .ok b) : ∃ a, first = .ok a ∧ next a = .ok b := by
  cases first with
  | error e => cases gives
  | ok a => exact ⟨a, rfl, gives⟩

end SumCalc

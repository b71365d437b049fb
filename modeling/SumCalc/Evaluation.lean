import SumCalc.Config
import SumCalc.Term.Fold

/-!
# Evaluation

A number is worth itself, a sum what `Config.add` makes of the values of its parts. A term is
evaluated from left to right; the first sum beyond the width or the first foreign value, whichever
comes first, ends the evaluation.
-/

namespace SumCalc

/-- Why a term has no value. -/
inductive Obstacle (α : Type)
  | rejected (rejection : Rejection)
  | foreign (value : α)
deriving Repr

namespace Term

variable {α : Type}

/-- Evaluation under a configuration, as a fold. -/
def valuation (config : Config) : Fold α Int (Obstacle α) where
  number n := n
  plus _ l r := (config.add l r).mapError .rejected
  foreign := .foreign

/-- The value of a term under a configuration. -/
def evaluate (config : Config) (term : Term α) : Except (Obstacle α) Int :=
  (valuation config).apply term

/-- The value of an expression: only a rejection can stand in its way. -/
def value (config : Config) (e : Expr) : Except Rejection Int :=
  (e.evaluate config).mapError fun
    | .rejected rejection => rejection
    | .foreign a => a.elim

end Term

end SumCalc

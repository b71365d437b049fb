import SumCalc.Term.Fold

/-!
# Written terms

A term is written as a sum, `1 + (2 + 3)`, with no more parentheses than reading it back takes, or
as a tree, `Plus(Number(1), Plus(Number(2), Number(3)))`. A term with foreign values cannot be
written; the leftmost of them is the reason.
-/

namespace SumCalc

/-- The ways to write a term. -/
inductive Style
  | sum
  | tree
deriving DecidableEq, Repr

namespace Style

def name : Style → String
  | sum => "infix"
  | tree => "tree"

def all : List Style := [sum, tree]

/-- The style of a name. -/
def ofName? (name : String) : Option Style := all.find? fun style => style.name = name

theorem ofName?_name (style : Style) : ofName? style.name = some style := by
  cases style <;> rfl

/-- How a number is written. -/
def number : Style → Int → String
  | sum, n => toString n
  | tree, n => "Number(" ++ toString n ++ ")"

/-- How a sum of two written parts is written; sums lean left, so only a right part that is itself
a sum takes parentheses. -/
def plus : Style → (rightIsPlus : Bool) → (left right : String) → String
  | sum, true, left, right => left ++ " + (" ++ right ++ ")"
  | sum, false, left, right => left ++ " + " ++ right
  | tree, _, left, right => "Plus(" ++ left ++ ", " ++ right ++ ")"

end Style

namespace Term

variable {α : Type}

/-- Writing in a style, as a fold. -/
def writing (style : Style) : Fold α String α where
  number := style.number
  plus right l r := .ok (style.plus right.isPlus l r)
  foreign := id

/-- A term as text, or its leftmost foreign value. -/
def render (style : Style) (term : Term α) : Except α String := (writing style).apply term

/-- An expression as text. -/
def text (style : Style) (e : Expr) : String :=
  match e.render style with
  | .ok text => text
  | .error a => nomatch a

end Term

end SumCalc

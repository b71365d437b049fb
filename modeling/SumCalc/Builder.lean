import SumCalc.ParseTree.Sum

/-!
# Builders

A builder turns the end of each `sum` and `primitive` of a parse tree, children before parents and
from left to right, into an expression. It keeps the expressions of the subtrees that have ended
while their parents have not, the last one on top. When a `primitive` ends, its number is pushed; when
a `sum` ends, the expressions of its parts are taken off and their sum is pushed. A complete builder
holds one expression and accepts no more.
-/

namespace SumCalc

/-- How far a builder is. -/
inductive Progress
  /-- The expressions on the stack, the top first. -/
  | building (values : List Expr)
  | complete (result : Expr)

/-- A builder for expressions of a width. -/
structure Builder where
  width : Width
  progress : Progress

namespace Builder

/-- A builder before its first event. -/
def new (width : Width) : Builder := ⟨width, .building []⟩

/-- The expressions on the stack, the top first. -/
def values (builder : Builder) : List Expr :=
  match builder.progress with
  | .building values => values
  | .complete result => [result]

/-- The number of expressions on the stack. -/
def depth (builder : Builder) : Nat := builder.values.length

/-- A refusal to use a builder out of order. -/
def refusal (fault : Misuse) : Failure := .rejected (.nowhere (.misuse fault))

/-- The stack of a builder that is not complete. -/
def open? (builder : Builder) : Except Failure (List Expr) :=
  match builder.progress with
  | .building values => .ok values
  | .complete _ => .error (refusal .alreadyComplete)

/-- The builder with another stack. -/
def stacked (builder : Builder) (values : List Expr) : Builder :=
  { builder with progress := .building values }

/-- A `primitive` ends: its number is pushed, if it has one. -/
def endPrimitive (builder : Builder) (tree : ParseTree) : Except Failure Builder := do
  let values ← builder.open?
  match ParseTree.firstNumber? (← tree.children?) with
  | some (lexeme, place) => do
      let number ← Literal.read builder.width lexeme place
      return builder.stacked (number :: values)
  | none => return builder

/-- A `sum` of `count` parts ends: they are taken off the stack and their sum is pushed. -/
def reduce (values : List Expr) (count : Nat) : Except Misuse (List Expr) :=
  let parts := values.take count
  if parts.length < count then .error (.missingValues count values.length)
  else
    match parts.reverse with
    | [] => .error .emptySum
    | first :: rest => .ok (first.chain rest :: values.drop count)

theorem reduce_zero (values : List Expr) : reduce values 0 = .error .emptySum := by
  simp [reduce]

theorem reduce_of_lt {values : List Expr} {count : Nat} (few : values.length < count) :
    reduce values count = .error (.missingValues count values.length) := by
  have short : (values.take count).length < count := by
    rw [List.length_take]
    omega
  rw [reduce, if_pos short]

/-- The parts of a sum are the values on top of the stack, the last one on top. -/
theorem reduce_append (first : Expr) (rest below : List Expr) :
    reduce ((first :: rest).reverse ++ below) (rest.length + 1) =
      .ok (first.chain rest :: below) := by
  have all : (first :: rest).reverse.length = rest.length + 1 := by simp
  simp only [reduce, ← all, List.take_left, List.drop_left, List.reverse_reverse]
  simp

/-- A `sum` ends. -/
def endSum (builder : Builder) (tree : ParseTree) : Except Failure Builder := do
  let values ← builder.open?
  let parts := (ParseTree.branches (← tree.children?)).length
  let values ← (reduce values parts).mapError refusal
  return builder.stacked values

/-- The whole tree ends: one expression has to be left. -/
def finish (builder : Builder) : Except Failure Builder := do
  match ← builder.open? with
  | [result] => return { builder with progress := .complete result }
  | values => .error (refusal (.unbalanced values.length))

/-- The expression of a complete builder. -/
def result (builder : Builder) : Except Failure Expr :=
  match builder.progress with
  | .building _ => .error (refusal .notComplete)
  | .complete result => .ok result

/-- A node of a tree ends; only a `primitive` and a `sum` matter. -/
def endNode (builder : Builder) (tree : ParseTree) : Except Failure Builder :=
  if tree.label = "primitive" then builder.endPrimitive tree
  else if tree.label = "sum" then builder.endSum tree
  else .ok builder

end Builder

end SumCalc

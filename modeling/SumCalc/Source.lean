import SumCalc.Builder.Walk
import SumCalc.Evaluation
import SumCalc.ParseTree.Reader

/-!
# Sources

A source text is read into a parse tree, the tree is built into an expression, and the expression is
evaluated. `Source.parse` goes as far as the expression and `Source.evaluate` all the way;
`Source.trace` lists the steps on that way that were completed.
-/

namespace SumCalc

/-- The expression of a parse tree, built as the kind of builder says. -/
def BuilderKind.build (kind : BuilderKind) (width : Width) (tree : ParseTree) :
    Except Failure Expr :=
  match kind with
  | recursive => tree.toExpr width
  | stack => tree.walkExpr width

/-- A source with its expression and the value of that. -/
structure Evaluated where
  source : String
  expr : Expr
  value : Int

namespace Source

/-- The expression of a source. -/
def parse (config : Config) (source : String) : Except Failure Expr := do
  let tree ← (ParseTree.ofSource source).mapError .rejected
  config.builder.build config.width tree

/-- The expression and the value of a source. -/
def evaluate (config : Config) (source : String) : Except Failure Evaluated := do
  let expr ← parse config source
  let value ← (expr.value config).mapError .rejected
  return ⟨source, expr, value⟩

/-- The steps from a source to its value that succeed, one log line each. -/
def trace (config : Config) (source : String) : List String :=
  match parse config source with
  | .error _ => []
  | .ok expr =>
      let built :=
        match config.builder with
        | .recursive => []
        | .stack => ["DEBUG intexpr.builder: stack builder finished"]
      let parsed :=
        "DEBUG intexpr.parser: parsed " ++ Text.quote source ++ " with " ++
          config.builder.name ++ " builder"
      let valued :=
        match expr.value config with
        | .error _ => []
        | .ok value =>
            ["DEBUG intexpr.interp: evaluated " ++ Text.quote source ++ " to " ++ toString value]
      built ++ parsed :: valued

end Source

end SumCalc

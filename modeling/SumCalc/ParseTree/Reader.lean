import SumCalc.ParseTree
import SumCalc.Rejection

/-!
# Reading parse trees

A source is read token by token. The reader keeps the sum being read and, for each open
parenthesis, the sum outside it, so the depth of parentheses is bounded by no call stack. The first
problem ends the reading: a token that cannot stand where it does, a character that begins no
token, or the end of the source. `ParseTree.ofSource` is the whole tree of a source.
-/

namespace SumCalc

/-- What the sum being read needs next. -/
inductive Awaited
  | operand
  | operator
deriving DecidableEq, Repr

/-- A sum that is interrupted by an open parenthesis, its parts so far with the last one first. -/
structure OpenSum where
  parts : List ParseTree
  parenthesis : Token

/-- A reader part way through a source. -/
structure Reader where
  /-- The parts of the sum being read, the last one first. -/
  parts : List ParseTree
  /-- The sums around it, the innermost first. -/
  outer : List OpenSum
  awaited : Awaited

namespace Reader

/-- The reader before the first token. -/
def initial : Reader := ⟨[], [], .operand⟩

/-- What can go on a sum that awaits an operand. -/
def operandStarts : List Continuation := [.terminal .leftParen, .terminal .number]

/-- What can go on after an operand: which of the two it takes is left open. -/
def afterOperand : List Continuation := [.terminal .plus, .terminal .rightParen]

/-- The refusal of a token. -/
def misplaced (token : Token) (expected : List Continuation) : Except Rejection Reader :=
  .error (.located token.place (.faultySyntax (.misplaced token.terminal token.text expected)))

/-- The sum being read, as a tree. -/
def sum (reader : Reader) : ParseTree := .rule "sum" reader.parts.reverse

/-- The reader after one more token. -/
def step (reader : Reader) (token : Token) : Except Rejection Reader :=
  match reader.awaited, token.terminal with
  | .operand, .number =>
      .ok { reader with
        parts := .rule "primitive" [.leaf token] :: reader.parts, awaited := .operator }
  | .operand, .leftParen => .ok ⟨[], ⟨reader.parts, token⟩ :: reader.outer, .operand⟩
  | .operand, .plus => misplaced token operandStarts
  | .operand, .rightParen => misplaced token operandStarts
  | .operator, .plus =>
      .ok { reader with parts := .leaf token :: reader.parts, awaited := .operand }
  | .operator, .rightParen =>
      match reader.outer with
      | [] => misplaced token [.endOfSource]
      | group :: outer =>
          let primitive :=
            ParseTree.rule "primitive" [.leaf group.parenthesis, reader.sum, .leaf token]
          .ok ⟨primitive :: group.parts, outer, .operator⟩
  | .operator, .number => misplaced token afterOperand
  | .operator, .leftParen => misplaced token afterOperand

/-- What the end of the source leaves to be desired, if anything. -/
def missing (reader : Reader) : List Continuation :=
  match reader.awaited, reader.outer with
  | .operand, _ => operandStarts
  | .operator, _ :: _ => [.terminal .rightParen]
  | .operator, [] => []

/-- The tree of a source that ends here. The last token began at `last`. -/
def finish (reader : Reader) (last : Position) : Except Rejection ParseTree :=
  match reader.missing with
  | [] => .ok (.rule "root" [reader.sum])
  | expected => .error (.located last (.faultySyntax (.earlyEnd expected)))

end Reader

namespace ParseTree

/-- The place of the last token, or the first place if there is none. -/
def lastPlace (tokens : List Token) : Position :=
  (tokens.getLast?.map Token.place).getD .start

/-- The tree of a scanned source. -/
def ofScan (scan : Token.Scan) : Except Rejection ParseTree := do
  let reader ← scan.tokens.foldlM Reader.step .initial
  match scan.stray with
  | some (c, place) => .error (.located place (.faultySyntax (.strayCharacter c)))
  | none => reader.finish (lastPlace scan.tokens)

/-- The tree of a source, or the first problem in it. -/
def ofSource (source : String) : Except Rejection ParseTree := ofScan (Token.scan source)

end ParseTree

end SumCalc

import SumCalc.Position

/-!
# Tokens of a source

A source is a sequence of numbers, plus signs and parentheses with blanks between them.
`Token.next` reads the first token, the longest run of digits if it is a number; `Token.scan` reads
all of them, up to the first character that begins no token.
-/

namespace SumCalc

/-- The kinds of token that a source consists of. -/
inductive Terminal
  | number
  | plus
  | leftParen
  | rightParen
deriving DecidableEq, Repr

/-- The name of a kind of token in trees and messages. -/
def Terminal.name : Terminal → String
  | .number => "NUMBER"
  | .plus => "PLUS"
  | .leftParen => "LPAR"
  | .rightParen => "RPAR"

theorem Terminal.name_injective {a b : Terminal} (same : a.name = b.name) : a = b := by
  cases a <;> cases b <;> simp_all [name]

/-- A token with its text and the place where the text begins. -/
structure Token where
  terminal : Terminal
  text : String
  place : Position
deriving DecidableEq, Repr

namespace Token

/-- The blanks that may stand between tokens. -/
def isSkipped (c : Char) : Bool :=
  c = ' ' || c = '\t' || c = '\x0c' || c = '\r' || c = '\n'

/-- The tokens that consist of one fixed character. -/
def symbol? : Char → Option Terminal
  | '+' => some .plus
  | '(' => some .leftParen
  | ')' => some .rightParen
  | _ => none

/-- What stands at the front of a text, after its blanks. -/
inductive Front
  | nothing
  | stray (c : Char) (place : Position)
  | token (token : Token) (rest : List Char) (place : Position)

/-- Reads the first token of a text that begins at a place. -/
def next : List Char → Position → Front
  | [], _ => .nothing
  | c :: rest, place =>
      if isSkipped c then next rest (place.after c)
      else if c.isDigit then
        let digits := c :: rest.takeWhile Char.isDigit
        .token ⟨.number, String.ofList digits, place⟩ (rest.dropWhile Char.isDigit)
          (place.afterAll digits)
      else
        match symbol? c with
        | some terminal => .token ⟨terminal, String.ofList [c], place⟩ rest (place.after c)
        | none => .stray c place

theorem length_of_next {cs rest : List Char} {place beyond : Position} {token : Token}
    (read : next cs place = .token token rest beyond) : rest.length < cs.length := by
  induction cs generalizing place with
  | nil => simp [next] at read
  | cons c tail ih =>
      unfold next at read
      split at read
      · have shorter := ih read
        simp only [List.length_cons]
        omega
      · split at read
        · simp only [Front.token.injEq] at read
          obtain ⟨-, rfl, -⟩ := read
          have shorter := (List.dropWhile_sublist (l := tail) Char.isDigit).length_le
          simp only [List.length_cons]
          omega
        · split at read
          · simp only [Front.token.injEq] at read
            obtain ⟨-, rfl, -⟩ := read
            simp
          · simp at read

/-- The tokens of a text, up to the first character that begins none. -/
structure Scan where
  tokens : List Token
  stray : Option (Char × Position)

/-- Reads the tokens of a text behind those that are `done`, the last of them first. -/
def scanFrom (done : List Token) (cs : List Char) (place : Position) : Scan :=
  match _read : next cs place with
  | .nothing => ⟨done.reverse, none⟩
  | .stray c stop => ⟨done.reverse, some (c, stop)⟩
  | .token token rest beyond => scanFrom (token :: done) rest beyond
termination_by cs.length
decreasing_by exact length_of_next _read

/-- The tokens of a source. -/
def scan (source : String) : Scan := scanFrom [] source.toList .start

end Token

end SumCalc

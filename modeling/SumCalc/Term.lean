import SumCalc.Position

/-!
# Expressions

A term is a tree of binary sums over numbers and over foreign values of a type `α`; an expression
is a term without foreign values. Numbers and sums may carry the place of their first literal, which
`Term.same` leaves out of account. `leaves` and `exactSum` describe an expression as a list of
numbers and as an unbounded integer.
-/

namespace SumCalc

/-- A tree of sums over numbers and foreign values. -/
inductive Term (α : Type)
  | number (value : Int) (place : Option Position)
  | plus (left right : Term α) (place : Option Position)
  | foreign (value : α)
deriving Repr, Inhabited

/-- A tree of sums over numbers. -/
abbrev Expr := Term Empty

namespace Term

variable {α : Type}

/-- The place that a term carries. -/
def place : Term α → Option Position
  | number _ place => place
  | plus _ _ place => place
  | foreign _ => none

/-- Whether a term is a sum. -/
def isPlus : Term α → Bool
  | plus .. => true
  | _ => false

/-- The number of parts of a term, itself included. -/
def size : Term α → Nat
  | plus l r _ => l.size + r.size + 1
  | _ => 1

/-- The sum of two terms, at the place of the left one. -/
def add (left right : Term α) : Term α := plus left right left.place

/-- The sum of a term and further terms, from left to right. -/
def chain (first : Term α) (rest : List (Term α)) : Term α := rest.foldl add first

theorem chain_concat (first : Term α) (rest : List (Term α)) (last : Term α) :
    first.chain (rest ++ [last]) = (first.chain rest).add last := by
  simp [chain]

/-- Equality of terms, places left out of account. -/
def same [BEq α] : Term α → Term α → Bool
  | number m _, number n _ => m == n
  | plus l r _, plus l' r' _ => same l l' && same r r'
  | foreign a, foreign b => a == b
  | _, _ => false

/-- A term without its places. -/
def bare : Term α → Term α
  | number n _ => number n none
  | plus l r _ => plus l.bare r.bare none
  | foreign a => foreign a

theorem same_iff_bare_eq [BEq α] [LawfulBEq α] {s t : Term α} :
    same s t = true ↔ s.bare = t.bare := by
  induction s generalizing t with
  | number m _ => cases t <;> simp [same, bare]
  | plus l r _ ihl ihr => cases t <;> simp [same, bare, ihl, ihr]
  | foreign a => cases t <;> simp [same, bare]

/-- The places of all parts of a term, of a sum before its left and its right part, followed by
`rest`. -/
def placesOnto : Term α → List (Option Position) → List (Option Position)
  | number _ place, rest => place :: rest
  | plus l r place, rest => place :: l.placesOnto (r.placesOnto rest)
  | foreign _, rest => none :: rest

/-- The places of all parts of a term, of a sum before its left and its right part. -/
def places (term : Term α) : List (Option Position) := term.placesOnto []

theorem length_placesOnto (term : Term α) (rest : List (Option Position)) :
    (term.placesOnto rest).length = term.size + rest.length := by
  induction term generalizing rest with
  | number n place => simp [placesOnto, size]; omega
  | plus l r place ihl ihr => simp [placesOnto, size, ihl, ihr]; omega
  | foreign a => simp [placesOnto, size]; omega

/-- An expression as a term over any foreign values. -/
def widen : Expr → Term α
  | number n place => number n place
  | plus l r place => plus l.widen r.widen place

/-- The numbers of an expression with their places, from left to right. -/
def leaves : Expr → List (Int × Option Position)
  | number n place => [(n, place)]
  | plus l r _ => l.leaves ++ r.leaves

/-- The unbounded sum of the numbers of an expression. -/
def exactSum : Expr → Int
  | number n _ => n
  | plus l r _ => l.exactSum + r.exactSum

end Term

end SumCalc

import SumCalc.Text.Blank
import SumCalc.Text.DecimalDigit

/-!
# Integers written by hand

An integer may have blanks around it, one sign, decimal digits of any script and single
underscores between digits. `Numeral.read?` refuses anything else, and numerals of more than
`digitLimit` digits, leading zeros counted.
-/

namespace SumCalc.Text.Numeral

/-- A numeral may have this many digits. -/
def digitLimit : Nat := 4300

/-- The blanks that may surround a numeral: the information separators are not among them. -/
def isMargin (c : Char) : Bool := isBlank c && !(0x1c ≤ c.toNat && c.toNat ≤ 0x1f)

/-- The values of digits, between which single underscores may stand. -/
def digits? : List Char → Option (List Nat)
  | [] => none
  | [c] => (digitValue? c).map fun digit => [digit]
  | c :: '_' :: rest => do
      let digit ← digitValue? c
      return digit :: (← digits? rest)
  | c :: rest => do
      let digit ← digitValue? c
      return digit :: (← digits? rest)

/-- The number that decimal digits denote, the most significant first. -/
def ofDigits (digits : List Nat) : Nat := digits.foldl (fun total digit => 10 * total + digit) 0

/-- A numeral without sign. -/
def natural? (cs : List Char) : Option Nat := do
  let digits ← digits? cs
  if digits.length ≤ digitLimit then some (ofDigits digits) else none

/-- A numeral with at most one sign. -/
def signed? : List Char → Option Int
  | '-' :: rest => (natural? rest).map fun n => -(n : Int)
  | '+' :: rest => (natural? rest).map Int.ofNat
  | cs => (natural? cs).map Int.ofNat

/-- The integer that a text denotes. -/
def read? (text : String) : Option Int := signed? (trimWhile isMargin text.toList)

end SumCalc.Text.Numeral

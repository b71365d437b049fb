import SumCalc.Text.Blank

/-!
# Lines of a text file

Carriage returns are read as line feeds, alone or before one. A line then ends at any of the line
boundaries of Unicode; `records` are the stripped lines that are not blank.
-/

namespace SumCalc.Text

/-- Each carriage return, with the line feed after it if there is one, becomes a line feed. -/
def unifyNewlines : List Char → List Char
  | [] => []
  | '\r' :: '\n' :: rest => '\n' :: unifyNewlines rest
  | c :: rest => (if c = '\r' then '\n' else c) :: unifyNewlines rest

/-- Whether a character ends a line. -/
def isLineEnd (c : Char) : Bool :=
  (0x0a ≤ c.toNat && c.toNat ≤ 0x0d) || (0x1c ≤ c.toNat && c.toNat ≤ 0x1e) ||
  c.toNat == 0x85 || c.toNat == 0x2028 || c.toNat == 0x2029

/-- The pieces between line ends, the last one included even if it is empty. -/
def pieces (cs : List Char) : List (List Char) := cs.splitOnP isLineEnd

/-- The stripped lines of a file that are not blank. -/
def records (content : String) : List String :=
  ((pieces (unifyNewlines content.toList)).map strip).filterMap fun line =>
    if line.isEmpty then none else some (String.ofList line)

end SumCalc.Text

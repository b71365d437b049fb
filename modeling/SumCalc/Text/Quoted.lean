import SumCalc.Text.Hex
import SumCalc.Text.Printable

/-!
# Quoted text

The form in which messages and log lines show a text. It stands between single quotes, or between
double quotes when it has a single quote and no double quote. The backslash and the quote in use
are escaped, so are tab, line feed and carriage return; any other character that is not printable
is written by its code point.
-/

namespace SumCalc.Text

/-- The mark that encloses a quoted text. -/
def quoteMark (cs : List Char) : Char :=
  if cs.contains '\'' && !cs.contains '"' then '"' else '\''

/-- The code point of a character, in the shortest of the three escapes that holds it. -/
def codeEscape (c : Char) : List Char :=
  if c.toNat ≤ 0xff then '\\' :: 'x' :: hex 2 c.toNat
  else if c.toNat ≤ 0xffff then '\\' :: 'u' :: hex 4 c.toNat
  else '\\' :: 'U' :: hex 8 c.toNat

/-- One character inside quotes. -/
def quoteChar (mark c : Char) : List Char :=
  if c = mark || c = '\\' then ['\\', c]
  else if c = '\t' then ['\\', 't']
  else if c = '\n' then ['\\', 'n']
  else if c = '\r' then ['\\', 'r']
  else if isPrintable c then [c]
  else codeEscape c

/-- A text in quotes. -/
def quote (text : String) : String :=
  let cs := text.toList
  let mark := quoteMark cs
  String.ofList (mark :: cs.flatMap (quoteChar mark) ++ [mark])

/-- Quoted texts, separated by commas. -/
def quoteAll (texts : List String) : String := ", ".intercalate (texts.map quote)

end SumCalc.Text

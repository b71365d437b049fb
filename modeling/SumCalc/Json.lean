import SumCalc.Text.Hex

/-!
# JSON in ASCII

`Json.render` writes a value on one line, with a blank after each comma and colon. Characters
outside ASCII and control characters are written by their UTF-16 units, so the result is printable
ASCII throughout.
-/

namespace SumCalc

/-- A JSON value without fractions and truth values. -/
inductive Json
  | null
  | integer (n : Int)
  | text (s : String)
  | array (items : List Json)
  | object (fields : List (String × Json))

namespace Json

/-- A value, or null for none. -/
def ofOption {α : Type} (encode : α → Json) : Option α → Json
  | none => .null
  | some a => encode a

/-- A UTF-16 unit. -/
def unitEscape (n : Nat) : List Char := '\\' :: 'u' :: Text.hex 4 n

/-- One character inside the quotes of a text. -/
def escape (c : Char) : List Char :=
  if c = '"' || c = '\\' then ['\\', c]
  else if 0x20 ≤ c.toNat && c.toNat < 0x7f then [c]
  else if c = '\n' then ['\\', 'n']
  else if c = '\r' then ['\\', 'r']
  else if c = '\t' then ['\\', 't']
  else if c = '\x08' then ['\\', 'b']
  else if c = '\x0c' then ['\\', 'f']
  else if c.toNat < 0x10000 then unitEscape c.toNat
  else
    let rest := c.toNat - 0x10000
    unitEscape (0xd800 + rest / 0x400) ++ unitEscape (0xdc00 + rest % 0x400)

/-- A text in quotes. -/
def quoted (s : String) : String := String.ofList ('"' :: s.toList.flatMap escape ++ ['"'])

mutual

/-- A value on one line. -/
def render : Json → String
  | .null => "null"
  | .integer n => toString n
  | .text s => quoted s
  | .array items => "[" ++ ", ".intercalate (renderItems items) ++ "]"
  | .object fields => "\x7b" ++ ", ".intercalate (renderFields fields) ++ "\x7d"

/-- The items of an array, each on one line. -/
def renderItems : List Json → List String
  | [] => []
  | item :: items => render item :: renderItems items

/-- The fields of an object, each on one line. -/
def renderFields : List (String × Json) → List String
  | [] => []
  | (name, value) :: fields => (quoted name ++ ": " ++ render value) :: renderFields fields

end

example : render (.object [("a", .integer (-1)), ("b", .text "é\n")]) =
    "\x7b\"a\": -1, \"b\": \"\\u00e9\\n\"\x7d" := by decide +kernel

end Json

end SumCalc

/-!
# Hexadecimal digits

`hex width n` writes the last `width` hexadecimal digits of a number, in lower case.
-/

namespace SumCalc.Text

/-- The lower-case hexadecimal digit of a number below sixteen. -/
def hexDigit (n : Nat) : Char :=
  if n < 10 then Char.ofNat (n + 0x30) else Char.ofNat (n - 10 + 0x61)

/-- The last `width` hexadecimal digits of a number, leading zeros included. -/
def hex : Nat → Nat → List Char
  | 0, _ => []
  | width + 1, n => hex width (n / 16) ++ [hexDigit (n % 16)]

@[simp]
theorem length_hex (width n : Nat) : (hex width n).length = width := by
  induction width generalizing n with
  | zero => rfl
  | succ width ih => simp [hex, ih]

example : hex 4 0x1f3 = "01f3".toList := by decide

end SumCalc.Text

/-!
# Decimal digits of every script

`digitBases` lists the digit zero of each run of decimal digits of Unicode 14 (general category
Nd). The ten digits of a run are consecutive, so one code point describes the whole run.
-/

namespace SumCalc.Text

/-- The code points of the digit zero, one for each run of ten decimal digits. -/
def digitBases : List Nat := [
  0x30, 0x660, 0x6f0, 0x7c0, 0x966, 0x9e6, 0xa66, 0xae6, 0xb66, 0xbe6,
  0xc66, 0xce6, 0xd66, 0xde6, 0xe50, 0xed0, 0xf20, 0x1040, 0x1090, 0x17e0,
  0x1810, 0x1946, 0x19d0, 0x1a80, 0x1a90, 0x1b50, 0x1bb0, 0x1c40, 0x1c50, 0xa620,
  0xa8d0, 0xa900, 0xa9d0, 0xa9f0, 0xaa50, 0xabf0, 0xff10, 0x104a0, 0x10d30, 0x11066,
  0x110f0, 0x11136, 0x111d0, 0x112f0, 0x11450, 0x114d0, 0x11650, 0x116c0, 0x11730, 0x118e0,
  0x11950, 0x11c50, 0x11d50, 0x11da0, 0x16a60, 0x16ac0, 0x16b50, 0x1d7ce, 0x1d7d8, 0x1d7e2,
  0x1d7ec, 0x1d7f6, 0x1e140, 0x1e2f0, 0x1e950, 0x1fbf0]

/-- The value of a decimal digit of any script. -/
def digitValue? (c : Char) : Option Nat :=
  (digitBases.find? fun base => base ≤ c.toNat && c.toNat ≤ base + 9).map (c.toNat - ·)

/-- Whether a character is a decimal digit of any script. -/
def isDecimalDigit (c : Char) : Bool := (digitValue? c).isSome

theorem digitValue?_lt {c : Char} {d : Nat} (found : digitValue? c = some d) : d < 10 := by
  simp only [digitValue?, Option.map_eq_some_iff] at found
  obtain ⟨base, present, rfl⟩ := found
  have bounds := List.find?_some present
  simp only [Bool.and_eq_true, decide_eq_true_eq] at bounds
  omega

example : digitValue? '7' = some 7 := by decide
example : digitValue? '\u0669' = some 9 := by decide
example : digitValue? '²' = none := by decide
example : digitBases.length = 66 := by decide

end SumCalc.Text

import SumCalc.Failure
import SumCalc.Term
import SumCalc.Text.Numeral

/-!
# Literals

The number that a number token denotes. Leading zeros do not count. A literal with more characters
than the greatest integer has digits is refused before it is read; `read` then refuses what is no
numeral and what does not fit.
-/

namespace SumCalc.Literal

/-- The text of a literal without leading zeros, or one zero if nothing remains. -/
def significant (text : List Char) : List Char :=
  match text.dropWhile (· = '0') with
  | [] => ['0']
  | digits => digits

/-- The number of digits of the greatest integer of a width. -/
def maxLength (width : Width) : Nat := (toString width.maxInt).length

/-- The number that a literal at a place denotes. -/
def read (width : Width) (text : String) (place : Position) : Except Failure Expr :=
  let digits := significant text.toList
  let overflow := Failure.rejected (.located place (.literalOverflow text width.bits))
  if maxLength width < digits.length then .error overflow
  else
    match Text.Numeral.read? (String.ofList digits) with
    | none => .error (.unreadable (String.ofList digits))
    | some n => if width.Fits n then .ok (.number n place) else .error overflow

/-- A literal is the number that its significant digits denote, or it is refused. -/
theorem read_cases (width : Width) (text : String) (place : Position) :
    (∃ n, Text.Numeral.read? (String.ofList (significant text.toList)) = some n ∧
      read width text place = .ok (.number n place)) ∨
    read width text place =
      .error (.rejected (.located place (.literalOverflow text width.bits))) ∨
    read width text place = .error (.unreadable (String.ofList (significant text.toList))) := by
  unfold read
  dsimp only
  split
  · exact .inr (.inl rfl)
  · split
    · exact .inr (.inr rfl)
    · next n numeral =>
        split
        · exact .inl ⟨n, numeral, rfl⟩
        · exact .inr (.inl rfl)

/-- What a literal denotes is a number at the place of the literal. The width has no part in it. -/
theorem eq_number_of_read {width : Width} {text : String} {place : Position} {e : Expr}
    (accepted : read width text place = .ok e) :
    ∃ n, Text.Numeral.read? (String.ofList (significant text.toList)) = some n ∧
      e = .number n (some place) := by
  rcases read_cases width text place with ⟨n, numeral, same⟩ | same | same <;>
    rw [same] at accepted <;> cases accepted
  exact ⟨n, numeral, rfl⟩

/-- What rejects a literal is that it overflows the width. -/
theorem eq_of_read_rejected {width : Width} {text : String} {place : Position}
    {rejection : Rejection} (refused : read width text place = .error (.rejected rejection)) :
    rejection = .located place (.literalOverflow text width.bits) := by
  rcases read_cases width text place with ⟨n, numeral, same⟩ | same | same <;>
    rw [same] at refused <;> cases refused
  rfl

/-- The number that a literal denotes does not depend on its place. -/
theorem read_elsewhere {width : Width} {text : String} {place : Position} {e : Expr}
    (accepted : read width text place = .ok e) (other : Position) :
    ∃ n, e = .number n place ∧ read width text other = .ok (.number n other) := by
  unfold read at accepted ⊢
  dsimp only at accepted ⊢
  split at accepted
  · cases accepted
  · next short =>
      rw [if_neg short]
      split at accepted
      · cases accepted
      · next n numeral =>
          split at accepted
          · next fits =>
              cases accepted
              exact ⟨n, rfl, if_pos fits⟩
          · cases accepted

end SumCalc.Literal

import SumCalc.Proofs.Literals
import SumCalc.Term.Printer

/-!
# Written sums, character by character

The text of an expression as a sum is the text of its left part, what stands `between` the parts, the
text of its right part, and a closing parenthesis if the right part is a sum itself.

Results:
1. `digits_of_nonneg`, `sign_of_neg`: the text of a number is decimal digits, behind a sign if it is
   negative; `eq_of_toString_eq`: no two numbers have the same text.
2. `written_plus_left`, `written_plus_right`: where a text stands in a written sum.
3. `toList_text`: the characters of a written sum.
4. `text_bare`: places play no part in what is written.
-/

namespace SumCalc

/-! ## Written numbers -/

theorem toList_toString_natCast (n : Nat) : (toString (n : Int)).toList = Nat.toDigits 10 n :=
  Nat.toList_repr

/-- A number that is not negative is written in decimal digits, which denote it. -/
theorem digits_of_nonneg {n : Int} (nonneg : 0 ≤ n) :
    (toString n).toList ≠ [] ∧ (∀ c ∈ (toString n).toList, c.isDigit = true) ∧
      (decimal (toString n).toList : Int) = n := by
  obtain ⟨m, rfl⟩ := Int.eq_ofNat_of_zero_le nonneg
  rw [toList_toString_natCast]
  refine ⟨Nat.toDigits_ne_nil, ?_, ?_⟩
  · exact fun c member => Nat.isDigit_of_mem_toDigits (by decide) (by decide) member
  · rw [decimal, Nat.ofDigitChars_ten_toDigits]

theorem toList_toString_of_neg {n : Int} (negative : n < 0) :
    (toString n).toList = '-' :: Nat.toDigits 10 n.natAbs := by
  obtain ⟨m, rfl⟩ := Int.eq_negSucc_of_lt_zero negative
  show ("-" ++ Nat.repr (m + 1)).toList = _
  rw [String.toList_append, Nat.toList_repr]
  rfl

/-- A negative number is written behind a sign. -/
theorem sign_of_neg {n : Int} (negative : n < 0) :
    ∃ digits, (toString n).toList = '-' :: digits :=
  ⟨_, toList_toString_of_neg negative⟩

/-- An integer is written with a sign and decimal digits. -/
theorem sign_or_digit_of_mem_toString {n : Int} {c : Char} (member : c ∈ (toString n).toList) :
    c = '-' ∨ c.isDigit = true := by
  have digits : ∀ {m : Nat}, c ∈ Nat.toDigits 10 m → c.isDigit = true :=
    fun inside => Nat.isDigit_of_mem_toDigits (by decide) (by decide) inside
  by_cases negative : n < 0
  · rw [toList_toString_of_neg negative, List.mem_cons] at member
    exact member.imp_right digits
  · obtain ⟨m, rfl⟩ := Int.eq_ofNat_of_zero_le (Int.not_lt.1 negative)
    rw [toList_toString_natCast] at member
    exact .inr (digits member)

/-- A written number has no other characters, such as blanks and parentheses. -/
theorem not_mem_toString {c : Char} (unsigned : c ≠ '-') (undigit : c.isDigit = false) (n : Int) :
    c ∉ (toString n).toList := by
  intro member
  rcases sign_or_digit_of_mem_toString member with rfl | digit
  · exact unsigned rfl
  · rw [undigit] at digit
    cases digit

theorem toString_ne_nil (n : Int) : (toString n).toList ≠ [] := by
  by_cases negative : n < 0
  · rw [toList_toString_of_neg negative]
    exact List.cons_ne_nil _ _
  · exact (digits_of_nonneg (Int.not_lt.1 negative)).1

namespace Term

/-! ## Written expressions -/

theorem text_number (style : Style) (n : Int) (place : Option Position) :
    text style (.number n place) = style.number n := by
  unfold text render
  rw [Fold.apply_eq_run]
  rfl

theorem text_plus (style : Style) (left right : Expr) (place : Option Position) :
    text style (.plus left right place) =
      style.plus right.isPlus (text style left) (text style right) := by
  unfold text render
  rw [Fold.apply_eq_run, Fold.apply_eq_run, Fold.apply_eq_run, Fold.run]
  cases (writing style).run left with
  | error foreign => exact foreign.elim
  | ok l =>
      cases (writing style).run right with
      | error foreign => exact foreign.elim
      | ok r => rfl

theorem isPlus_bare (e : Expr) : e.bare.isPlus = e.isPlus := by
  cases e <;> rfl

/-- Places play no part in what is written. -/
theorem text_bare (style : Style) (e : Expr) : e.bare.text style = e.text style := by
  induction e with
  | number n place => rw [bare, text_number, text_number]
  | plus left right place ihl ihr => rw [bare, text_plus, text_plus, isPlus_bare, ihl, ihr]
  | foreign a => exact a.elim

/-- What is written before a right part. -/
def opening (right : Expr) : List Char := if right.isPlus then ['('] else []

/-- What is written after a right part. -/
def closing (right : Expr) : List Char := if right.isPlus then [')'] else []

/-- What is written between a left part and a right part. -/
def between (right : Expr) : List Char := [' ', '+', ' '] ++ opening right

/-- The characters of an expression that is written as a sum. -/
def written : Expr → List Char
  | .number n _ => (toString n).toList
  | .plus left right _ => written left ++ between right ++ written right ++ closing right

/-- What stands around a text within the left part also stands around it within the sum. -/
theorem written_plus_left {left : Expr} {before middle after : List Char}
    (split : written left = before ++ middle ++ after) (right : Expr) (place : Option Position) :
    written (.plus left right place) =
      before ++ middle ++ (after ++ between right ++ written right ++ closing right) := by
  rw [written, split]
  simp

/-- The same within the right part. -/
theorem written_plus_right {right : Expr} {before middle after : List Char}
    (split : written right = before ++ middle ++ after) (left : Expr) (place : Option Position) :
    written (.plus left right place) =
      written left ++ between right ++ before ++ middle ++ (after ++ closing right) := by
  rw [written, split]
  simp

theorem toList_text (e : Expr) : (e.text .sum).toList = written e := by
  induction e with
  | number n place =>
      rw [text_number]
      rfl
  | plus left right place ihl ihr =>
      rw [text_plus, written, ← ihl, ← ihr]
      unfold between opening closing
      cases right.isPlus <;> simp [Style.plus]
  | foreign a => exact a.elim

end Term

end SumCalc

import Mathlib
import SumCalc.Proofs.Denotation
import SumCalc.Proofs.Printing

/-!
# No parentheses can be spared

A written sum has parentheses around each part that is a sum itself and stands on the right, and no
others. A source cannot do with fewer: whatever it denotes as an operand is a number, or it stands in
parentheses, and only sums that stand on the right are denoted as operands that are no numbers. So
each of these sums has a pair of parentheses of its own in the source.

Results:
1. `count_text`: the parentheses of a written sum.
2. `DenotesSum.rightSums_le`: the parentheses among lexemes that denote an expression.
3. `rightSums_le_of_parse`: the parentheses of a source that has an expression.
4. `text_fewest_parentheses`: no source of an expression has fewer parentheses than its text.
-/

namespace SumCalc

namespace Term

/-! ## Written sums -/

/-- How many sums within an expression stand on the right of a sum. -/
def rightSums : Expr → Nat
  | number _ _ => 0
  | plus left right _ => left.rightSums + right.rightSums + if right.isPlus then 1 else 0

theorem rightSums_bare (e : Expr) : e.bare.rightSums = e.rightSums := by
  induction e with
  | number n place => rfl
  | plus left right place ihl ihr => rw [bare, rightSums, rightSums, ihl, ihr, isPlus_bare]
  | foreign a => exact a.elim

/-- A parenthesis of one kind is written once for each sum on the right. -/
theorem count_written {c : Char} (parenthesis : c = '(' ∨ c = ')') (e : Expr) :
    (written e).count c = e.rightSums := by
  induction e with
  | number n place =>
      refine List.count_eq_zero.2 ?_
      rcases parenthesis with rfl | rfl
      · exact not_mem_toString (by decide) rfl n
      · exact not_mem_toString (by decide) rfl n
  | plus left right place ihl ihr =>
      rw [written, between, opening, closing, rightSums]
      have around : ([' ', '+', ' '] ++ if right.isPlus then ['('] else []).count c +
          (if right.isPlus then [')'] else []).count c = if right.isPlus then 1 else 0 := by
        rcases parenthesis with rfl | rfl <;> cases right.isPlus <;> rfl
      rw [List.count_append, List.count_append, List.count_append, ihl, ihr, ← around]
      omega
  | foreign a => exact a.elim

theorem count_text {c : Char} (parenthesis : c = '(' ∨ c = ')') (e : Expr) :
    (e.text .sum).toList.count c = e.rightSums := by
  rw [toList_text, count_written parenthesis]

end Term

/-! ## Sources -/

/-- How many of some lexemes are opening parentheses. -/
def openingCount (lexemes : List Lexeme) : Nat :=
  lexemes.countP fun lexeme => lexeme.kind = .leftParen

theorem openingCount_append (front back : List Lexeme) :
    openingCount (front ++ back) = openingCount front + openingCount back :=
  List.countP_append

theorem openingCount_cons (lexeme : Lexeme) (rest : List Lexeme) :
    openingCount (lexeme :: rest) =
      openingCount rest + if lexeme.kind = .leftParen then 1 else 0 := by
  simp [openingCount, List.countP_cons]

mutual

/-- What denotes a sum as an operand has a parenthesis more than the sums within it need. -/
theorem DenotesOperand.rightSums_le {width : Width} {lexemes : List Lexeme} {e : Expr} :
    DenotesOperand width lexemes e →
      e.rightSums + (if e.isPlus then 1 else 0) ≤ openingCount lexemes
  | .number _ => Nat.zero_le _
  | .group isOpening isClosing inside => by
      have enough := inside.rightSums_le
      rw [openingCount_cons, if_pos isOpening, openingCount_append]
      split <;> omega

/-- Lexemes that denote an expression have a parenthesis for each sum on the right. -/
theorem DenotesSum.rightSums_le {width : Width} {lexemes : List Lexeme} {e : Expr} :
    DenotesSum width lexemes e → e.rightSums ≤ openingCount lexemes
  | .operand operand => by
      have enough := operand.rightSums_le
      omega
  | .plus _ before last => by
      have front := before.rightSums_le
      have back := last.rightSums_le
      rw [Term.rightSums, openingCount_append, openingCount_cons]
      omega

end

/-- The opening parentheses of a source are those among its lexemes. -/
theorem openingCount_of_lexemes {source : String} {lexemes : List Lexeme}
    (found : lexemes? source.toList = some lexemes) :
    openingCount lexemes = source.toList.count '(' := by
  obtain ⟨tokens, lexes, rfl⟩ := lexemes?_eq_some_iff.1 found
  rw [openingCount, List.countP_map]
  exact countP_of_lexes rfl lexes

/-- A source has a parenthesis for each sum on the right in its expression. -/
theorem rightSums_le_of_parse {config : Config} {source : String} {e : Expr}
    (parsed : Source.parse config source = .ok e) : e.rightSums ≤ source.toList.count '(' := by
  obtain ⟨lexemes, found, denotes⟩ := (parse_iff_denotes config source e.bare).1 ⟨e, parsed, rfl⟩
  rw [← Term.rightSums_bare, ← openingCount_of_lexemes found]
  exact denotes.rightSums_le

/-! ## The text of an expression among its sources -/

/-- The text of an expression has as many closing as opening parentheses, and no source of the same
expression has fewer of these, whichever configuration reads it. So without some opening parenthesis
and some closing one behind it, in particular without two that belong together, the text is no source
of the expression any more. -/
theorem text_fewest_parentheses (e : Expr) :
    (e.text .sum).toList.count ')' = (e.text .sum).toList.count '(' ∧
    (∀ config source parsed, Source.parse config source = .ok parsed → parsed.same e = true →
      (e.text .sum).toList.count '(' ≤ source.toList.count '(') ∧
    ∀ before within after,
      (e.text .sum).toList = before ++ '(' :: (within ++ ')' :: after) →
        ∀ config parsed,
          Source.parse config (String.ofList (before ++ (within ++ after))) = .ok parsed →
            parsed.same e = false := by
  have fewest : ∀ config source parsed, Source.parse config source = .ok parsed →
      parsed.same e = true → (e.text .sum).toList.count '(' ≤ source.toList.count '(' := by
    intro config source parsed read same
    have enough := rightSums_le_of_parse read
    rw [← Term.rightSums_bare, Term.same_iff_bare_eq.1 same, Term.rightSums_bare] at enough
    rwa [Term.count_text (.inl rfl)]
  refine ⟨?_, fewest, ?_⟩
  · rw [Term.count_text (.inr rfl), Term.count_text (.inl rfl)]
  · intro before within after split config parsed read
    by_contra same
    have enough := fewest config _ parsed read (by simpa using same)
    -- the shorter text lacks the parenthesis that was taken out
    rw [split, String.toList_ofList] at enough
    have other : ')' ≠ '(' := by decide
    simp only [List.count_append, List.count_cons_self, List.count_cons_of_ne other] at enough
    omega

/-- Parentheses around a number and a second pair around a group are not written. Without the pair
that is written, another expression is read. -/
theorem text_fewest_parentheses_nested :
    ∃ parsed other, Source.parse ⟨.bits8, .fail, .stack⟩ "((1)) + ((2 + 3))" = .ok parsed ∧
      parsed.text .sum = "1 + (2 + 3)" ∧
      (parsed.text .sum).toList.count '(' ≤ "((1)) + ((2 + 3))".toList.count '(' ∧
      Source.parse ⟨.bits8, .fail, .recursive⟩ "1 + 2 + 3" = .ok other ∧
      other.same parsed = false := by
  let number (n : Int) (place : Position) : Expr := .number n (some place)
  let parsed := (number 1 ⟨1, 3⟩).add ((number 2 ⟨1, 11⟩).add (number 3 ⟨1, 15⟩))
  let other := ((number 1 ⟨1, 1⟩).add (number 2 ⟨1, 5⟩)).add (number 3 ⟨1, 9⟩)
  have read : Source.parse ⟨.bits8, .fail, .stack⟩ "((1)) + ((2 + 3))" = .ok parsed := by cbv
  have readOther : Source.parse ⟨.bits8, .fail, .recursive⟩ "1 + 2 + 3" = .ok other := by cbv
  have text : parsed.text .sum = "1 + (2 + 3)" := by with_unfolding_all rfl
  obtain ⟨-, fewest, spared⟩ := text_fewest_parentheses parsed
  have split : (parsed.text .sum).toList =
      ['1', ' ', '+', ' '] ++ '(' :: (['2', ' ', '+', ' ', '3'] ++ ')' :: []) := by
    rw [text]
    rfl
  refine ⟨parsed, other, read, text, ?_, readOther, ?_⟩
  · exact fewest _ _ parsed read (by with_unfolding_all rfl)
  · exact spared _ _ _ split _ other readOther

end SumCalc

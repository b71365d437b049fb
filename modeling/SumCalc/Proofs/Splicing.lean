import Mathlib
import SumCalc.Proofs.Denotation

/-!
# Sources within sources

A source in parentheses may stand wherever a number of another source stands. What comes of it is
the expression of the other source with that of the first one in the place of the number.
`Term.replaceLeaf` puts an expression into the place of a number; on the side of the source, the
lexeme of the number gives way to those of the source in parentheses.

Results:
1. `Term.leaves_replaceLeaf`: the numbers after one of them was replaced.
2. `DenotesSum.splice`: lexemes that denote, with a group in the place of a number.
3. `parse_splice`: sources within sources.
-/

namespace SumCalc

/-! ## Expressions -/

namespace Term

/-- An expression with another one in the place of one of its numbers, which are counted from the
left. -/
def replaceLeaf : Expr → Nat → Expr → Expr
  | number n place, index, part => if index = 0 then part else number n place
  | plus left right place, index, part =>
      if index < left.leaves.length then plus (left.replaceLeaf index part) right place
      else plus left (right.replaceLeaf (index - left.leaves.length) part) place

/-- The numbers of what was put in stand in the place of the number. -/
theorem leaves_replaceLeaf {e : Expr} {index : Nat} (inside : index < e.leaves.length)
    (part : Expr) :
    (e.replaceLeaf index part).leaves =
      e.leaves.take index ++ part.leaves ++ e.leaves.drop (index + 1) := by
  induction e generalizing index with
  | number n place =>
      obtain rfl : index = 0 := Nat.lt_one_iff.1 inside
      simp [replaceLeaf, leaves]
  | plus left right place ihl ihr =>
      rw [leaves, List.length_append] at inside
      rw [replaceLeaf, leaves]
      by_cases inLeft : index < left.leaves.length
      · rw [if_pos inLeft, leaves, ihl inLeft, List.take_append_of_le_length (by omega),
          List.drop_append_of_le_length (by omega), List.append_assoc]
      · obtain ⟨later, rfl⟩ := Nat.exists_eq_add_of_le (Nat.le_of_not_lt inLeft)
        rw [if_neg inLeft, Nat.add_sub_cancel_left, leaves, ihr (by omega),
          List.take_length_add_append, Nat.add_assoc, List.drop_length_add_append]
        simp only [List.append_assoc]
  | foreign a => exact a.elim

theorem length_leaves_bare (e : Expr) : e.bare.leaves.length = e.leaves.length := by
  induction e with
  | number n place => rfl
  | plus left right place ihl ihr => simp [bare, leaves, ihl, ihr]
  | foreign a => exact a.elim

/-- Places play no part in what is put in where. -/
theorem bare_replaceLeaf (e : Expr) (index : Nat) (part : Expr) :
    (e.replaceLeaf index part).bare = e.bare.replaceLeaf index part.bare := by
  induction e generalizing index with
  | number n place =>
      rw [replaceLeaf, bare, replaceLeaf]
      split <;> rfl
  | plus left right place ihl ihr =>
      rw [replaceLeaf, bare, replaceLeaf, length_leaves_bare]
      split
      · rw [bare, ihl]
      · rw [bare, ihr]
  | foreign a => exact a.elim

end Term

/-! ## Lexemes -/

/-- Two splits of one list at different elements: one of them stands behind the other. -/
theorem append_cons_eq_append_cons {α : Type} {front back front' back' : List α} {a b : α}
    (different : a ≠ b) (same : front ++ a :: back = front' ++ b :: back') :
    (∃ between, front' = front ++ a :: between ∧ back = between ++ b :: back') ∨
      ∃ between, front = front' ++ b :: between ∧ back' = between ++ a :: back := by
  rcases List.append_eq_append_iff.1 same with ⟨extra, rfl, rest⟩ | ⟨extra, rfl, rest⟩
  · cases extra with
    | nil => cases rest; exact absurd rfl different
    | cons head between => cases rest; exact .inl ⟨between, rfl, rfl⟩
  · cases extra with
    | nil => cases rest; exact absurd rfl different
    | cons head between => cases rest; exact .inr ⟨between, rfl, rfl⟩

section

variable {width : Width} {middle : List Lexeme} {part : Expr}

/-- The lexemes of a group. -/
def grouped (lexemes : List Lexeme) : List Lexeme :=
  ⟨.leftParen, "("⟩ :: (lexemes ++ [⟨.rightParen, ")"⟩])

theorem DenotesSum.grouped (denotes : DenotesSum width middle part) :
    DenotesOperand width (grouped middle) part :=
  .group rfl rfl denotes

mutual

theorem DenotesOperand.splice (inside : DenotesSum width middle part) {lexemes : List Lexeme}
    {e : Expr} : DenotesOperand width lexemes e → ∀ {front back : List Lexeme} {number : Lexeme},
      number.kind = .number → lexemes = front ++ number :: back →
        DenotesOperand width (front ++ (grouped middle ++ back))
          (e.replaceLeaf (numberCount front) part)
  | @DenotesOperand.number _ text n reads, front, back, number, isNumber, same => by
      obtain ⟨rfl, -, rfl⟩ : front = [] ∧ number = ⟨.number, text⟩ ∧ back = [] := by
        simpa [List.singleton_eq_append_iff] using same
      rw [List.append_nil]
      exact inside.grouped
  | @DenotesOperand.group _ opening closing lexemes e isOpening isClosing denotes, front, back,
      number, isNumber, same => by
      -- the number is neither of the parentheses, so it stands between them
      have notOpening : opening ≠ number := fun same => by simp [same, isNumber] at isOpening
      have notClosing : closing ≠ number := fun same => by simp [same, isNumber] at isClosing
      rw [← List.nil_append (opening :: _)] at same
      rcases append_cons_eq_append_cons notOpening same with
        ⟨front, rfl, rest⟩ | ⟨between, impossible, -⟩
      · rcases append_cons_eq_append_cons notClosing rest with
          ⟨between, -, impossible⟩ | ⟨back, sameInner, rfl⟩
        · simp at impossible
        · have within := DenotesSum.splice inside denotes isNumber sameInner
          rw [List.nil_append, numberCount_cons_symbol (by simp [isOpening])]
          simpa using DenotesOperand.group isOpening isClosing within
      · simp at impossible

/-- A group may stand in the place of a number. -/
theorem DenotesSum.splice (inside : DenotesSum width middle part) {lexemes : List Lexeme}
    {e : Expr} : DenotesSum width lexemes e → ∀ {front back : List Lexeme} {number : Lexeme},
      number.kind = .number → lexemes = front ++ number :: back →
        DenotesSum width (front ++ (grouped middle ++ back))
          (e.replaceLeaf (numberCount front) part)
  | .operand operand, _, _, _, isNumber, same =>
      .operand (DenotesOperand.splice inside operand isNumber same)
  | @DenotesSum.plus _ sign first last left right isPlus before operand, front, back, number,
      isNumber, same => by
      -- the equations about `first` and `last` stay: the induction goes down to what they denote
      have notSign : sign ≠ number := fun same => by simp [same, isNumber] at isPlus
      have count := before.length_leaves
      rw [Term.replaceLeaf]
      rcases append_cons_eq_append_cons notSign same with
          ⟨front, rfl, sameLast⟩ | ⟨back, sameFirst, rfl⟩
      · -- the number stands behind the sign
        have within := DenotesOperand.splice inside operand isNumber sameLast
        have skipped : numberCount (first ++ sign :: front) =
            left.leaves.length + numberCount front := by
          rw [numberCount_append, numberCount_cons_symbol (by simp [isPlus]), count]
        rw [skipped, if_neg (by omega), Nat.add_sub_cancel_left, List.append_assoc]
        exact .plus isPlus before within
      · -- the number stands in front of the sign
        have within := DenotesSum.splice inside before isNumber sameFirst
        have early : numberCount front < left.leaves.length := by
          rw [count, sameFirst, numberCount_append, numberCount_cons_number isNumber]
          omega
        rw [if_pos early]
        simpa using DenotesSum.plus isPlus within operand

end

end

/-! ## Sources -/

theorem split_numbers {tokens : List Token} {index : Nat} {token : Token}
    (found : (numbers tokens)[index]? = some token) :
    ∃ front back, tokens = front ++ token :: back ∧ (numbers front).length = index := by
  obtain ⟨short, found⟩ := List.getElem?_eq_some_iff.1 found
  have split : numbers tokens = (numbers tokens).take index ++
      token :: (numbers tokens).drop (index + 1) := by
    rw [← found, List.getElem_cons_drop, List.take_append_drop]
  obtain ⟨front, rest, rfl, before, behind⟩ := List.filter_eq_append_iff.1 split
  obtain ⟨others, back, rfl, none, -, -⟩ := List.filter_eq_cons_iff.1 behind
  refine ⟨front ++ others, back, by simp, ?_⟩
  have silent : others.filter (fun token => token.terminal = .number) = [] :=
    List.filter_eq_nil_iff.2 none
  rw [numbers, List.filter_append, before, silent, List.append_nil, List.length_take]
  omega

/-- The lexemes of a text with a text in parentheses in its midst. -/
theorem lexemes?_parenthesised {front inner back : List Char} {first middle last : List Lexeme}
    (before : lexemes? front = some first) (inside : lexemes? inner = some middle)
    (behind : lexemes? back = some last) :
    lexemes? (front ++ '(' :: (inner ++ ')' :: back)) =
      some (first ++ (grouped middle ++ last)) := by
  have opening : Apart front ('(' :: (inner ++ ')' :: back)) :=
    apart_of_head fun _ head => by cases head; rfl
  have closing : Apart inner (')' :: back) := apart_of_head fun _ head => by cases head; rfl
  rw [lexemes?_append opening, before, lexemes?_symbol rfl, lexemes?_append closing, inside,
    lexemes?_symbol rfl, behind]
  simp [joined, grouped]

section

variable {config : Config}

/-- The lexemes of an accepted source denote its expression. -/
theorem exists_denotes_of_parse {source : String} {e : Expr}
    (parsed : Source.parse config source = .ok e) :
    ∃ lexemes, lexemes? source.toList = some lexemes ∧ DenotesSum config.width lexemes e.bare :=
  (parse_iff_denotes config source e.bare).1 ⟨e, parsed, rfl⟩

/-- A source whose lexemes denote an expression has that expression. -/
theorem exists_parse_of_denotes {source : String} {lexemes : List Lexeme} {e : Expr}
    (found : lexemes? source.toList = some lexemes)
    (denotes : DenotesSum config.width lexemes e.bare) :
    ∃ built, Source.parse config source = .ok built ∧ built.same e = true := by
  obtain ⟨built, parsed, bare⟩ :=
    (parse_iff_denotes config source e.bare).2 ⟨lexemes, found, denotes⟩
  exact ⟨built, parsed, Term.same_iff_bare_eq.2 bare⟩

/-- A source in parentheses in the place of a number token. -/
theorem parse_splice_number {u d v t : String} {tokens : List Token} {index : Nat} {e part : Expr}
    (lexes : Lexes (u ++ d ++ v) tokens)
    (found : (numbers tokens)[index]? = some ⟨.number, d, .following u.toList⟩)
    (parsed : Source.parse config (u ++ d ++ v) = .ok e)
    (inner : Source.parse config t = .ok part) :
    ∃ spliced, Source.parse config (u ++ "(" ++ t ++ ")" ++ v) = .ok spliced ∧
      spliced.same (e.replaceLeaf index part) = true := by
  obtain ⟨front, back, rfl, rfl⟩ := split_numbers found
  have occurs : (u ++ d ++ v).toList = u.toList ++ (d.toList ++ v.toList) := by simp
  obtain ⟨-, -, before, behind⟩ := parts_of_lexes lexes occurs rfl
  obtain ⟨middle, inside, innerDenotes⟩ := exists_denotes_of_parse inner
  obtain ⟨all, outer, denotes⟩ := exists_denotes_of_parse parsed
  obtain rfl := Option.some.inj (outer.symm.trans (lexemes?_of_lexes lexes))
  rw [List.map_append, List.map_cons] at denotes
  have spliced := DenotesSum.splice innerDenotes denotes rfl rfl
  rw [numberCount_map_lexeme, ← Term.bare_replaceLeaf] at spliced
  refine exists_parse_of_denotes ?_ spliced
  have joined := lexemes?_parenthesised before inside behind
  simpa using joined

theorem parse_parenthesised {t : String} {part : Expr} (inner : Source.parse config t = .ok part) :
    ∃ e, Source.parse config ("(" ++ t ++ ")") = .ok e ∧ e.same part = true := by
  obtain ⟨middle, inside, denotes⟩ := exists_denotes_of_parse inner
  refine exists_parse_of_denotes ?_ (.operand denotes.grouped)
  have joined := lexemes?_parenthesised lexemes?_nil inside lexemes?_nil
  simpa using joined

theorem parse_plus_parenthesised {s t : String} {left right : Expr}
    (front : Source.parse config s = .ok left) (back : Source.parse config t = .ok right) :
    ∃ e, Source.parse config (s ++ "+(" ++ t ++ ")") = .ok e ∧ e.same (left.add right) = true := by
  obtain ⟨first, before, leftDenotes⟩ := exists_denotes_of_parse front
  obtain ⟨last, inside, rightDenotes⟩ := exists_denotes_of_parse back
  have seam : Apart s.toList ['+'] := apart_of_head fun _ head => by cases head; rfl
  have signed : lexemes? (s.toList ++ ['+']) = some (first ++ [⟨.plus, "+"⟩]) := by
    rw [lexemes?_append seam, before, lexemes?_symbol rfl, lexemes?_nil]
    rfl
  have sum : DenotesSum config.width (first ++ ⟨.plus, "+"⟩ :: grouped last)
      (left.add right).bare :=
    .plus rfl leftDenotes rightDenotes.grouped
  refine exists_parse_of_denotes ?_ sum
  have joined := lexemes?_parenthesised signed inside lexemes?_nil
  simpa using joined

end

/-- A source in parentheses may stand in the place of any number token of another source, and its
expression then stands in the place of that number. So parentheses around a source change nothing,
and a source may be added to another. -/
theorem parse_splice (config : Config) :
    (∀ (u d v t : String) (tokens : List Token) (index : Nat) (e part : Expr),
      Lexes (u ++ d ++ v) tokens →
      (numbers tokens)[index]? = some ⟨.number, d, .following u.toList⟩ →
      Source.parse config (u ++ d ++ v) = .ok e → Source.parse config t = .ok part →
      ∃ spliced, Source.parse config (u ++ "(" ++ t ++ ")" ++ v) = .ok spliced ∧
        spliced.same (e.replaceLeaf index part) = true) ∧
    (∀ (t : String) (part : Expr), Source.parse config t = .ok part →
      ∃ e, Source.parse config ("(" ++ t ++ ")") = .ok e ∧ e.same part = true) ∧
    ∀ (s t : String) (left right : Expr), Source.parse config s = .ok left →
      Source.parse config t = .ok right →
      ∃ e, Source.parse config (s ++ "+(" ++ t ++ ")") = .ok e ∧ e.same (left.add right) = true :=
  ⟨fun _ _ _ _ _ _ _ _ lexes found parsed inner => parse_splice_number lexes found parsed inner,
    fun _ _ inner => parse_parenthesised inner,
    fun _ _ _ _ front back => parse_plus_parenthesised front back⟩

/-- The last number within a group gives way to a source that begins with a blank and ends with a
line feed. -/
theorem parse_splice_last :
    ∃ spliced, Source.parse ⟨.bits8, .fail, .stack⟩ "1+(02 +( 4+\n5\n))" = .ok spliced ∧
      spliced.same (.plus (.number 1 none)
        (.plus (.number 2 none) (.plus (.number 4 none) (.number 5 none) none) none) none) =
          true := by
  have scanned : Token.scan "1+(02 +3)" = ⟨[⟨.number, "1", ⟨1, 1⟩⟩, ⟨.plus, "+", ⟨1, 2⟩⟩,
      ⟨.leftParen, "(", ⟨1, 3⟩⟩, ⟨.number, "02", ⟨1, 4⟩⟩, ⟨.plus, "+", ⟨1, 7⟩⟩,
      ⟨.number, "3", ⟨1, 8⟩⟩, ⟨.rightParen, ")", ⟨1, 9⟩⟩], none⟩ := by cbv
  have parsed : Source.parse ⟨.bits8, .fail, .stack⟩ "1+(02 +3)" =
      .ok (.plus (.number 1 (some ⟨1, 1⟩))
        (.plus (.number 2 (some ⟨1, 4⟩)) (.number 3 (some ⟨1, 8⟩)) (some ⟨1, 4⟩))
        (some ⟨1, 1⟩)) := by
    cbv
  have inner : Source.parse ⟨.bits8, .fail, .stack⟩ " 4+\n5\n" =
      .ok (.plus (.number 4 (some ⟨1, 2⟩)) (.number 5 (some ⟨2, 1⟩)) (some ⟨1, 2⟩)) := by cbv
  obtain ⟨spliced, read, same⟩ := (parse_splice ⟨.bits8, .fail, .stack⟩).1 "1+(02 +" "3" ")"
    " 4+\n5\n" _ 2 _ _ ((scan_eq_iff_lexes _ _).1 scanned) rfl parsed inner
  refine ⟨spliced, read, ?_⟩
  rw [Term.same_iff_bare_eq] at same ⊢
  exact same

end SumCalc

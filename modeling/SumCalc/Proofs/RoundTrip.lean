import SumCalc.Proofs.Leaves
import SumCalc.Proofs.Piecewise
import SumCalc.Proofs.Printing
import SumCalc.Proofs.Values

/-!
# Reading written sums back

A written sum is read back as the sum it was written from. `partsAt` is the parse tree that a reader
builds from it, whatever the reader has built before; `readBack` is the expression of that tree, with
the places at which its numbers are written. Only the numbers can stand in the way: a sign begins no
token, and a number may be beyond the width. Since the whole text is read before any number is, a sign
is found even behind a number that is too great.

Results:
1. `read_written`, `read_written_neg`: what a reader does with a written sum.
2. `sumExpr_partsAt`: the expression of the tree of a written sum.
3. `readBack_fits`, `readBack_overflow`: when that is the expression that was written.
4. `parse_text`: reading back any written expression.
-/

namespace SumCalc

open ParseTree

namespace Term

/-! ## The tree of a written sum -/

/-- The parts of the sum that an expression written at a place is read as, from left to right. -/
def partsAt : Expr → Position → List ParseTree
  | .number n _, place => [.rule "primitive" [.leaf ⟨.number, toString n, place⟩]]
  | .plus left right _, place =>
      let behind := place.afterAll (written left)
      let inner := behind.afterAll (between right)
      partsAt left place ++ .leaf ⟨.plus, "+", behind.after ' '⟩ ::
        if right.isPlus then
          [.rule "primitive" [.leaf ⟨.leftParen, "(", behind.afterAll [' ', '+', ' ']⟩,
            .rule "sum" (partsAt right inner),
            .leaf ⟨.rightParen, ")", inner.afterAll (written right)⟩]]
        else partsAt right inner

theorem read_plus (parts : List ParseTree) (outer : List OpenSum) (rest : List Char)
    (place : Position) :
    Reader.read ⟨parts, outer, .operator⟩ ([' ', '+', ' '] ++ rest) place =
      Reader.read ⟨.leaf ⟨.plus, "+", place.after ' '⟩ :: parts, outer, .operand⟩ rest
        (place.afterAll [' ', '+', ' ']) := by
  have blank : ∀ c ∈ [' '], Token.isSkipped c = true := by simp [Token.isSkipped]
  calc
    Reader.read ⟨parts, outer, .operator⟩ ([' '] ++ '+' :: ' ' :: rest) place
    _ = Reader.read ⟨parts, outer, .operator⟩ ('+' :: ' ' :: rest) (place.after ' ') :=
        Reader.read_blanks blank _ _ _
    _ = Reader.read ⟨.leaf ⟨.plus, "+", place.after ' '⟩ :: parts, outer, .operand⟩
          ([' '] ++ rest) ((place.after ' ').after '+') :=
        Reader.read_symbol rfl _ (.plus rfl)
    _ = Reader.read ⟨.leaf ⟨.plus, "+", place.after ' '⟩ :: parts, outer, .operand⟩ rest
          (place.afterAll [' ', '+', ' ']) :=
        Reader.read_blanks blank _ _ _

theorem read_opening (parts : List ParseTree) (outer : List OpenSum) (rest : List Char)
    (place : Position) :
    Reader.read ⟨parts, outer, .operand⟩ (['('] ++ rest) place =
      Reader.read ⟨[], ⟨parts, ⟨.leftParen, "(", place⟩⟩ :: outer, .operand⟩ rest
        (place.afterAll ['(']) :=
  Reader.read_symbol rfl rest (.opening rfl)

theorem read_closing (parts : List ParseTree) (group : OpenSum) (outer : List OpenSum)
    (rest : List Char) (place : Position) :
    Reader.read ⟨parts, group :: outer, .operator⟩ ([')'] ++ rest) place =
      Reader.read
        ⟨.rule "primitive" [.leaf group.parenthesis, .rule "sum" parts.reverse,
          .leaf ⟨.rightParen, ")", place⟩] :: group.parts, outer, .operator⟩
        rest (place.afterAll [')']) :=
  Reader.read_symbol rfl rest (.closing rfl)

/-- A number ends before what is written between two parts. -/
theorem isDigit_head_plus (rest : List Char) :
    ∀ c ∈ ([' ', '+', ' '] ++ rest).head?, c.isDigit = false := by
  intro c head
  cases head
  rfl

/-- Without negative numbers, a reader takes a written sum as its parts. -/
theorem read_written {e : Expr} (nonneg : ∀ leaf ∈ e.leaves, 0 ≤ leaf.1) {rest : List Char}
    (stop : ∀ c ∈ rest.head?, c.isDigit = false) (parts : List ParseTree) (outer : List OpenSum)
    (place : Position) :
    Reader.read ⟨parts, outer, .operand⟩ (written e ++ rest) place =
      Reader.read ⟨(partsAt e place).reverse ++ parts, outer, .operator⟩ rest
        (place.afterAll (written e)) := by
  induction e generalizing rest parts outer place with
  | number n _ =>
      obtain ⟨nonempty, digits, -⟩ := digits_of_nonneg (nonneg (n, _) List.mem_cons_self)
      have taken := Reader.read_digits nonempty digits stop parts outer place
      rw [String.ofList_toList] at taken
      exact taken
  | plus left right _ ihl ihr =>
      have leftNonneg := fun leaf member => nonneg leaf (List.mem_append_left _ member)
      have rightNonneg := fun leaf member => nonneg leaf (List.mem_append_right _ member)
      rw [written, partsAt, between, opening, closing]
      cases right.isPlus with
      | false =>
          -- the right part is a number, which is read within the same sum
          simp only [Bool.false_eq_true, if_false, List.append_assoc, List.append_nil,
            Position.afterAll_append]
          rw [ihl leftNonneg (isDigit_head_plus _), read_plus, ihr rightNonneg stop]
          simp
      | true =>
          -- the right part is read as a sum of its own, outside which the left part waits
          have close : ∀ c ∈ ([')'] ++ rest).head?, c.isDigit = false :=
            fun c head => by cases head; rfl
          simp only [if_true, List.append_assoc, Position.afterAll_append]
          rw [ihl leftNonneg (isDigit_head_plus _), read_plus, read_opening,
            ihr rightNonneg close, read_closing]
          simp
  | foreign a => exact a.elim

/-- Without negative numbers, no sign is written. -/
theorem sign_not_mem_written {e : Expr} (nonneg : ∀ leaf ∈ e.leaves, 0 ≤ leaf.1) :
    '-' ∉ written e := by
  induction e with
  | number n _ =>
      obtain ⟨-, digits, -⟩ := digits_of_nonneg (nonneg (n, _) List.mem_cons_self)
      intro member
      exact absurd (digits '-' member) (by decide)
  | plus left right _ ihl ihr =>
      have first := ihl fun leaf member => nonneg leaf (List.mem_append_left _ member)
      have second := ihr fun leaf member => nonneg leaf (List.mem_append_right _ member)
      rw [written, between, opening, closing]
      cases right.isPlus <;> simp [first, second]
  | foreign a => exact a.elim

/-- Before the sign of the first negative number, a reader finds nothing amiss. -/
theorem read_written_neg {e : Expr} {leaf : Int × Option Position}
    (first : e.leaves.find? (fun leaf => leaf.1 < 0) = some leaf) :
    ∃ before after, written e = before ++ (toString leaf.1).toList ++ after ∧ '-' ∉ before ∧
      ∀ parts outer rest place,
        Reader.read ⟨parts, outer, .operand⟩ (written e ++ rest) place =
          .error (.located (place.afterAll before) (.faultySyntax (.strayCharacter '-'))) := by
  induction e with
  | number n origin =>
      obtain rfl : leaf = (n, origin) := List.mem_singleton.1 (List.mem_of_find?_eq_some first)
      have negative : n < 0 := by simpa using List.find?_some first
      obtain ⟨digits, sign⟩ := sign_of_neg negative
      refine ⟨[], [], by simp [written], List.not_mem_nil, ?_⟩
      intro parts outer rest place
      rw [written, sign]
      exact Reader.read_stray ⟨rfl, rfl, rfl⟩ _ _ place
  | plus left right _ ihl ihr =>
      rw [leaves, List.find?_append] at first
      cases found : left.leaves.find? (fun leaf => leaf.1 < 0) with
      | some inLeft =>
          -- the sign stands in the left part, and what follows is never read
          rw [found] at first
          cases first
          obtain ⟨before, after, split, unsigned, stopped⟩ := ihl found
          refine ⟨before, _, written_plus_left split right _, unsigned, ?_⟩
          intro parts outer rest place
          rw [written, List.append_assoc, List.append_assoc, List.append_assoc]
          exact stopped parts outer _ place
      | none =>
          -- the left part has no sign, so the reader gets through to the right part
          rw [found, Option.none_or] at first
          have leftNonneg : ∀ leaf ∈ left.leaves, 0 ≤ leaf.1 := by
            simpa using List.find?_eq_none.1 found
          obtain ⟨before, after, split, unsigned, stopped⟩ := ihr first
          refine ⟨_, _, written_plus_right split left _, ?_, ?_⟩
          · have leftUnsigned := sign_not_mem_written leftNonneg
            rw [between, opening]
            cases right.isPlus <;> simp [leftUnsigned, unsigned]
          · intro parts outer rest place
            rw [written, between, opening]
            cases right.isPlus with
            | false =>
                simp only [Bool.false_eq_true, if_false, List.append_assoc, List.append_nil,
                  Position.afterAll_append]
                rw [read_written leftNonneg (isDigit_head_plus _), read_plus, stopped]
            | true =>
                simp only [if_true, List.append_assoc, Position.afterAll_append]
                rw [read_written leftNonneg (isDigit_head_plus _), read_plus, read_opening, stopped]
  | foreign a => exact a.elim

/-! ## The expression of a written sum -/

/-- The expression that is read from an expression written at a place. -/
def readBack (width : Width) : Expr → Position → Except Failure Expr
  | .number n _, place => Literal.read width (toString n) place
  | .plus left right _, place => do
      let l ← readBack width left place
      let r ← readBack width right (place.afterAll (written left ++ between right))
      return l.add r

theorem subtrees_partsAt_ne_nil (e : Expr) (place : Position) :
    subtrees (partsAt e place) ≠ [] := by
  induction e with
  | number n _ => exact List.cons_ne_nil _ _
  | plus left right _ ihl _ =>
      rw [partsAt, subtrees_append]
      exact List.append_ne_nil_of_left_ne_nil ihl _
  | foreign a => exact a.elim

/-- The expression of the tree of a written sum. -/
theorem sumExpr_partsAt (width : Width) (e : Expr) (place : Position) :
    sumExpr width (partsAt e place) = readBack width e place := by
  induction e generalizing place with
  | number n _ =>
      rw [partsAt, sumExpr_single]
      exact partExpr_literal rfl
  | plus left right _ ihl ihr =>
      have nonempty := subtrees_partsAt_ne_nil left place
      rw [partsAt, readBack, ← ihl, ← ihr, Position.afterAll_append]
      -- only a right part that is a sum itself stands in parentheses
      cases right with
      | number n origin =>
          have bare : (number n origin : Expr).isPlus = false := rfl
          rw [bare, if_neg Bool.false_ne_true, partsAt, sumExpr_single]
          exact sumExpr_concat width nonempty _ _
      | plus l r origin =>
          rw [isPlus, if_pos rfl, sumExpr_concat width nonempty,
            partExpr_group (not_hasNumber_group rfl rfl _ _) rfl]
      | foreign a => exact a.elim
  | foreign a => exact a.elim

/-- If all numbers are in range, the expression is read back, but for its places. -/
theorem readBack_fits {width : Width} {e : Expr} (range : InRange width e) (place : Position) :
    ∃ parsed, readBack width e place = .ok parsed ∧ parsed.bare = e.bare := by
  induction e generalizing place with
  | number n origin =>
      obtain ⟨nonneg, fits⟩ := range (n, origin) List.mem_cons_self
      obtain ⟨-, digits, value⟩ := digits_of_nonneg nonneg
      refine ⟨.number n place, ?_, rfl⟩
      rw [readBack, Literal.read_digits width place digits, value, if_pos fits]
  | plus left right _ ihl ihr =>
      obtain ⟨leftRange, rightRange, -, -⟩ := range.parts
      obtain ⟨l, leftRead, leftSame⟩ := ihl leftRange place
      obtain ⟨r, rightRead, rightSame⟩ := ihr rightRange
        (place.afterAll (written left ++ between right))
      refine ⟨l.add r, ?_, ?_⟩
      · rw [readBack, leftRead, rightRead]
        rfl
      · rw [add, bare, bare, leftSame, rightSame]
  | foreign a => exact a.elim

/-- If no number is negative, the first that is beyond the width is reported where it is written. -/
theorem readBack_overflow {width : Width} {e : Expr} {leaf : Int × Option Position}
    (nonneg : ∀ leaf ∈ e.leaves, 0 ≤ leaf.1)
    (first : e.leaves.find? (fun leaf => width.maxInt < leaf.1) = some leaf) :
    ∃ before after, written e = before ++ (toString leaf.1).toList ++ after ∧ ∀ place,
      readBack width e place =
        .error (.rejected (.located (place.afterAll before)
          (.literalOverflow (toString leaf.1) width.bits))) := by
  induction e with
  | number n origin =>
      obtain rfl : leaf = (n, origin) := List.mem_singleton.1 (List.mem_of_find?_eq_some first)
      have beyond : width.maxInt < n := by simpa using List.find?_some first
      obtain ⟨-, digits, value⟩ := digits_of_nonneg (nonneg (n, origin) List.mem_cons_self)
      refine ⟨[], [], by simp [written], fun place => ?_⟩
      rw [readBack, Literal.read_digits width place digits, value, if_neg (Int.not_le.2 beyond)]
      rfl
  | plus left right _ ihl ihr =>
      have leftNonneg : ∀ leaf ∈ left.leaves, 0 ≤ leaf.1 :=
        fun leaf member => nonneg leaf (List.mem_append_left _ member)
      have rightNonneg : ∀ leaf ∈ right.leaves, 0 ≤ leaf.1 :=
        fun leaf member => nonneg leaf (List.mem_append_right _ member)
      rw [leaves, List.find?_append] at first
      cases found : left.leaves.find? (fun leaf => width.maxInt < leaf.1) with
      | some inLeft =>
          rw [found] at first
          cases first
          obtain ⟨before, after, split, stopped⟩ := ihl leftNonneg found
          refine ⟨before, _, written_plus_left split right _, fun place => ?_⟩
          rw [readBack, stopped]
          rfl
      | none =>
          -- the left part is in range and has an expression
          rw [found, Option.none_or] at first
          have leftRange : InRange width left := fun leaf member =>
            ⟨leftNonneg leaf member, by simpa using List.find?_eq_none.1 found leaf member⟩
          obtain ⟨before, after, split, stopped⟩ := ihr rightNonneg first
          refine ⟨_, _, written_plus_right split left _, fun place => ?_⟩
          obtain ⟨l, leftRead, -⟩ := readBack_fits leftRange place
          rw [readBack, leftRead, stopped, ← Position.afterAll_append]
          rfl
  | foreign a => exact a.elim

end Term

/-! ## Written sums as sources -/

open Term

theorem ofSource_written {e : Expr} (nonneg : ∀ leaf ∈ e.leaves, 0 ≤ leaf.1) :
    ParseTree.ofSource (e.text .sum) = .ok (.rule "root" [.rule "sum" (partsAt e .start)]) := by
  have ends : ∀ c ∈ ([] : List Char).head?, c.isDigit = false := by simp
  have done := read_written nonneg ends [] [] .start
  rw [List.append_nil, List.append_nil, Reader.read_nil] at done
  rw [ofSource_eq_read, toList_text, Reader.initial, done]
  show Except.ok (rule "root" [rule "sum" (partsAt e .start).reverse.reverse]) = _
  rw [List.reverse_reverse]

/-- The expression that is read back from a written sum without negative numbers. -/
theorem parse_written (config : Config) {e : Expr} (nonneg : ∀ leaf ∈ e.leaves, 0 ≤ leaf.1) :
    Source.parse config (e.text .sum) = readBack config.width e .start :=
  calc
    Source.parse config (e.text .sum)
    _ = toExpr config.width (.rule "root" [.rule "sum" (partsAt e .start)]) :=
        parse_of_ofSource config (ofSource_written nonneg)
    _ = sumExpr config.width (partsAt e .start) := toExpr_root rfl
    _ = readBack config.width e .start := sumExpr_partsAt config.width e .start

/-- What is read back from a written sum. If all numbers are in range, it is the expression that was
written, but for the places. If a number is negative, the first sign is reported, and that is the
sign of the first negative number. Otherwise the first number beyond the width is reported in the
digits in which it is written. -/
theorem parse_text (config : Config) (e : Expr) :
    ((∀ leaf ∈ e.leaves, 0 ≤ leaf.1 ∧ leaf.1 ≤ config.width.maxInt) →
      ∃ parsed, Source.parse config (e.text .sum) = .ok parsed ∧ parsed.same e = true) ∧
    (∀ leaf, e.leaves.find? (fun leaf => leaf.1 < 0) = some leaf →
      ∃ before after,
        (e.text .sum).toList = before ++ (toString leaf.1).toList ++ after ∧ '-' ∉ before ∧
        Source.parse config (e.text .sum) =
          .error (.rejected (.located (.following before) (.faultySyntax (.strayCharacter '-'))))) ∧
    ((∀ leaf ∈ e.leaves, 0 ≤ leaf.1) →
      ∀ leaf, e.leaves.find? (fun leaf => config.width.maxInt < leaf.1) = some leaf →
        ∃ before after,
          (e.text .sum).toList = before ++ (toString leaf.1).toList ++ after ∧
          Source.parse config (e.text .sum) =
            .error (.rejected (.located (.following before)
              (.literalOverflow (toString leaf.1) config.width.bits)))) := by
  refine ⟨?_, ?_, ?_⟩
  · intro range
    obtain ⟨parsed, read, same⟩ := readBack_fits range .start
    refine ⟨parsed, ?_, same_iff_bare_eq.2 same⟩
    rw [parse_written config fun leaf member => (range leaf member).1, read]
  · intro leaf first
    obtain ⟨before, after, split, unsigned, stopped⟩ := read_written_neg first
    have found := stopped [] [] [] .start
    rw [List.append_nil, Position.start_afterAll] at found
    refine ⟨before, after, by rw [toList_text, split], unsigned, ?_⟩
    rw [Source.parse, ofSource_eq_read, toList_text, Reader.initial, found]
    rfl
  · intro nonneg leaf first
    obtain ⟨before, after, split, stopped⟩ := readBack_overflow nonneg first
    refine ⟨before, after, by rw [toList_text, split], ?_⟩
    rw [parse_written config nonneg, stopped, Position.start_afterAll]

/-- At eight bits: a sum that is read back, one with a negative number behind a number that is too
great, and one with two numbers that are too great. -/
theorem parse_text_bits8 :
    (∃ e parsed, e.text .sum = "1 + (2 + 127) + 3" ∧
      Source.parse ⟨.bits8, .fail, .stack⟩ (e.text .sum) = .ok parsed ∧ parsed.same e = true) ∧
    (∃ e : Expr, e.text .sum = "128 + (1 + -5)" ∧ ∃ before after,
      (e.text .sum).toList = before ++ (toString (-5 : Int)).toList ++ after ∧ '-' ∉ before ∧
      Source.parse ⟨.bits8, .fail, .stack⟩ (e.text .sum) =
        .error (.rejected (.located (.following before) (.faultySyntax (.strayCharacter '-'))))) ∧
    ∃ e : Expr, e.text .sum = "127 + (128 + 300)" ∧ ∃ before after,
      (e.text .sum).toList = before ++ (toString (128 : Int)).toList ++ after ∧
      Source.parse ⟨.bits8, .wrap, .recursive⟩ (e.text .sum) =
        .error (.rejected (.located (.following before)
          (.literalOverflow (toString (128 : Int)) 8))) := by
  let number (n : Int) : Expr := .number n none
  refine ⟨?_, ?_, ?_⟩
  · let e := ((number 1).add ((number 2).add (number 127))).add (number 3)
    obtain ⟨parsed, read, same⟩ := (parse_text ⟨.bits8, .fail, .stack⟩ e).1 (by decide)
    exact ⟨e, parsed, by with_unfolding_all rfl, read, same⟩
  · let e := (number 128).add ((number 1).add (number (-5)))
    have report := (parse_text ⟨.bits8, .fail, .stack⟩ e).2.1 (-5, none) rfl
    exact ⟨e, by with_unfolding_all rfl, report⟩
  · let e := (number 127).add ((number 128).add (number 300))
    have report := (parse_text ⟨.bits8, .wrap, .recursive⟩ e).2.2 (by decide) (128, none) rfl
    exact ⟨e, by with_unfolding_all rfl, report⟩

end SumCalc

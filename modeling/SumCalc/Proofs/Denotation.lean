import SumCalc.Proofs.Leaves
import SumCalc.Proofs.Lexemes

/-!
# What a source denotes

`DenotesSum` says of a sequence of lexemes which expression it denotes: a number denotes itself, a
group what stands between its parentheses, and operands with plus signs between them the sum of the
operands from left to right. Neither trees nor places enter it. The expression of a source, but for
its places, is the one that the lexemes of the source denote.

Results:
1. `DenotesSum.length_leaves`: an expression has as many numbers as its lexemes have.
2. `denotes_parts`, `DenotesSum.exists_parts`: parse trees and what their leaves denote.
3. `parse_iff_denotes`: the expression of a source, but for its places.
-/

namespace SumCalc

open ParseTree

mutual

/-- `DenotesOperand width lexemes e`: as an operand, the lexemes denote `e`. -/
inductive DenotesOperand (width : Width) : List Lexeme → Expr → Prop
  | number {text : String} {n : Int} :
      (∀ place, Literal.read width text place = .ok (.number n place)) →
        DenotesOperand width [⟨.number, text⟩] (.number n none)
  | group {opening closing : Lexeme} {lexemes : List Lexeme} {e : Expr} :
      opening.kind = .leftParen → closing.kind = .rightParen → DenotesSum width lexemes e →
        DenotesOperand width (opening :: (lexemes ++ [closing])) e

/-- `DenotesSum width lexemes e`: as a sum, the lexemes denote `e`. -/
inductive DenotesSum (width : Width) : List Lexeme → Expr → Prop
  | operand {lexemes : List Lexeme} {e : Expr} :
      DenotesOperand width lexemes e → DenotesSum width lexemes e
  | plus {sign : Lexeme} {front back : List Lexeme} {left right : Expr} :
      sign.kind = .plus → DenotesSum width front left → DenotesOperand width back right →
        DenotesSum width (front ++ sign :: back) (.plus left right none)

end

/-! ## Numbers -/

/-- How many of some lexemes are numbers. -/
def numberCount (lexemes : List Lexeme) : Nat :=
  lexemes.countP fun lexeme => lexeme.kind = .number

theorem numberCount_append (front back : List Lexeme) :
    numberCount (front ++ back) = numberCount front + numberCount back :=
  List.countP_append

theorem numberCount_cons_number {lexeme : Lexeme} (isNumber : lexeme.kind = .number)
    (rest : List Lexeme) : numberCount (lexeme :: rest) = numberCount rest + 1 :=
  List.countP_cons_of_pos (by simpa using isNumber)

theorem numberCount_cons_symbol {lexeme : Lexeme} (isSymbol : lexeme.kind ≠ .number)
    (rest : List Lexeme) : numberCount (lexeme :: rest) = numberCount rest :=
  List.countP_cons_of_neg (by simpa using isSymbol)

theorem numberCount_map_lexeme (tokens : List Token) :
    numberCount (tokens.map Token.lexeme) = (numbers tokens).length := by
  rw [numberCount, List.countP_map, numbers, ← List.countP_eq_length_filter]
  rfl

mutual

theorem DenotesOperand.length_leaves {width : Width} {lexemes : List Lexeme} {e : Expr} :
    DenotesOperand width lexemes e → e.leaves.length = numberCount lexemes
  | .number _ => rfl
  | .group isOpening isClosing inside => by
      have same := inside.length_leaves
      rw [numberCount_cons_symbol (by simp [isOpening]), numberCount_append,
        numberCount_cons_symbol (by simp [isClosing])]
      exact same

/-- An expression has as many numbers as the lexemes that denote it have. -/
theorem DenotesSum.length_leaves {width : Width} {lexemes : List Lexeme} {e : Expr} :
    DenotesSum width lexemes e → e.leaves.length = numberCount lexemes
  | .operand operand => operand.length_leaves
  | .plus isPlus before last => by
      have front := before.length_leaves
      have back := last.length_leaves
      rw [Term.leaves, List.length_append, front, back, numberCount_append,
        numberCount_cons_symbol (by simp [isPlus])]

end

/-! ## Trees -/

section

variable {width : Width}

theorem subtrees_parts_ne_nil {parts : List ParseTree} (isParts : IsParts .operator parts) :
    subtrees parts.reverse ≠ [] :=
  (shaped_sum_of_parts isParts isParts.shaped).parts.1

/-- The expression of a group is that of the sum between its parentheses. -/
theorem toExpr_group {opening closing : Token} (isOpening : opening.terminal = .leftParen)
    (isClosing : closing.terminal = .rightParen) (children : List ParseTree) :
    (rule "primitive" [leaf opening, rule "sum" children, leaf closing]).toExpr width =
      sumExpr width children := by
  rw [toExpr_primitive, partExpr_group (not_hasNumber_group isOpening isClosing _ _) rfl]

theorem toExpr_number {token : Token} (isNumber : token.terminal = .number) :
    (rule "primitive" [leaf token]).toExpr width = Literal.read width token.text token.place := by
  rw [toExpr_primitive]
  exact partExpr_literal (by simp [firstNumber?, leaf, isNumber])

/-- One more operand is added to the expression of those before. -/
theorem sumExpr_reverse_plus {parts : List ParseTree} (isParts : IsParts .operator parts)
    (sign : Token) {tree : ParseTree} (primitive : IsPrimitive tree) :
    sumExpr width (tree :: leaf sign :: parts).reverse = (do
      let total ← sumExpr width parts.reverse
      let part ← tree.toExpr width
      return total.add part) := by
  obtain ⟨children, rfl⟩ := primitive.exists_rule
  rw [List.reverse_cons, List.reverse_cons, List.append_assoc, toExpr_primitive]
  exact sumExpr_concat width (subtrees_parts_ne_nil isParts) sign children

theorem sumExpr_reverse_single {tree : ParseTree} (primitive : IsPrimitive tree) :
    sumExpr width [tree].reverse = tree.toExpr width := by
  obtain ⟨children, rfl⟩ := primitive.exists_rule
  rw [toExpr_primitive]
  exact sumExpr_single width children

/-- The tokens at the leaves of a group. -/
theorem tokens_of_group {opening closing : Token} {children : List ParseTree} {tokens : List Token}
    (leaves : (rule "primitive" [leaf opening, rule "sum" children, leaf closing]).frontier =
      tokens.map .leaf) :
    ∃ inner, tokens = opening :: (inner ++ [closing]) ∧ frontierAll children = inner.map .leaf := by
  have split : leaf opening :: (frontierAll children ++ [leaf closing]) = tokens.map .leaf := by
    rw [← leaves]
    simp
  obtain ⟨first, rest, rfl, sameFirst, sameRest⟩ := List.map_eq_cons_iff.1 split.symm
  obtain ⟨inner, last, rfl, sameInner, sameLast⟩ := List.map_eq_append_iff.1 sameRest
  obtain rfl := leaf_injective sameFirst
  obtain rfl : last = [closing] := map_leaf_inj.1 (by simpa using sameLast)
  exact ⟨inner, rfl, sameInner.symm⟩

/-- The tokens at the leaves of a sum and one more operand. -/
theorem tokens_of_plus {tree : ParseTree} {sign : Token} {parts : List ParseTree}
    {tokens : List Token}
    (leaves : frontierAll (tree :: leaf sign :: parts).reverse = tokens.map .leaf) :
    ∃ front back, tokens = front ++ sign :: back ∧ frontierAll parts.reverse = front.map .leaf ∧
      tree.frontier = back.map .leaf := by
  have split : frontierAll parts.reverse ++ leaf sign :: tree.frontier = tokens.map .leaf := by
    rw [← leaves]
    simp
  obtain ⟨front, rest, rfl, sameFront, sameRest⟩ := List.map_eq_append_iff.1 split.symm
  obtain ⟨first, back, rfl, sameFirst, sameBack⟩ := List.map_eq_cons_iff.1 sameRest
  obtain rfl := leaf_injective sameFirst
  exact ⟨front, back, rfl, sameFront.symm, sameBack.symm⟩

mutual

/-- The leaves of an operand denote its expression, but for its places. -/
theorem denotes_primitive {tree : ParseTree} {e : Expr} {tokens : List Token}
    (primitive : IsPrimitive tree) (leaves : tree.frontier = tokens.map .leaf)
    (built : tree.toExpr width = .ok e) :
    DenotesOperand width (tokens.map Token.lexeme) e.bare := by
  cases primitive with
  | @number number isNumber =>
      obtain rfl : tokens = [number] := by
        rw [← map_leaf_inj, ← leaves]
        simp
      rw [toExpr_number isNumber] at built
      obtain ⟨n, rfl, -⟩ := Literal.read_elsewhere built number.place
      rw [List.map_singleton, Token.lexeme, isNumber]
      refine .number fun place => ?_
      obtain ⟨m, same, read⟩ := Literal.read_elsewhere built place
      cases same
      exact read
  | group isOpening isClosing isParts =>
      obtain ⟨inner, same, innerLeaves⟩ := tokens_of_group leaves
      rw [toExpr_group isOpening isClosing] at built
      have fewer : inner.length < tokens.length := by
        simp only [same, List.length_cons, List.length_append]
        omega
      have inside := denotes_parts isParts innerLeaves built
      rw [same, List.map_cons, List.map_append]
      exact .group isOpening isClosing inside
termination_by 2 * tokens.length

/-- The leaves of a sum denote its expression, but for its places. -/
theorem denotes_parts {parts : List ParseTree} {e : Expr} {tokens : List Token}
    (isParts : IsParts .operator parts) (leaves : frontierAll parts.reverse = tokens.map .leaf)
    (built : sumExpr width parts.reverse = .ok e) :
    DenotesSum width (tokens.map Token.lexeme) e.bare := by
  cases isParts with
  | operand begun primitive =>
      cases begun with
      | nil =>
          rw [sumExpr_reverse_single primitive] at built
          exact .operand (denotes_primitive primitive (by simpa using leaves) built)
      | plus begun isPlus =>
          obtain ⟨front, back, same, frontLeaves, backLeaves⟩ := tokens_of_plus leaves
          rw [sumExpr_reverse_plus begun _ primitive] at built
          obtain ⟨left, total, added⟩ := exists_of_bind_ok built
          obtain ⟨right, last, sum⟩ := exists_of_bind_ok added
          cases sum
          have fewer : front.length + back.length < tokens.length := by
            simp only [same, List.length_cons, List.length_append]
            omega
          have before := denotes_parts begun frontLeaves total
          have operand := denotes_primitive primitive backLeaves last
          rw [same, List.map_append, List.map_cons]
          exact .plus isPlus before operand
termination_by 2 * tokens.length + 1

end

mutual

/-- What lexemes denote as an operand is the expression of a tree, but for its places. -/
theorem DenotesOperand.exists_tree {lexemes : List Lexeme} {e : Expr} :
    DenotesOperand width lexemes e → ∀ {tokens : List Token}, tokens.map Token.lexeme = lexemes →
      ∃ tree built, IsPrimitive tree ∧ tree.frontier = tokens.map .leaf ∧
        tree.toExpr width = .ok built ∧ built.bare = e
  | @DenotesOperand.number _ lexeme n reads, tokens, same => by
      obtain ⟨number, rfl, found⟩ := List.map_eq_singleton_iff.1 same
      rw [Token.lexeme, Lexeme.mk.injEq] at found
      obtain ⟨isNumber, rfl⟩ := found
      have read := (toExpr_number isNumber).trans (reads number.place)
      exact ⟨_, _, .number isNumber, by simp, read, rfl⟩
  | .group isOpening isClosing inside, tokens, same => by
      obtain ⟨opening, rest, rfl, rfl, sameRest⟩ := List.map_eq_cons_iff.1 same
      obtain ⟨inner, last, rfl, sameInner, sameLast⟩ := List.map_eq_append_iff.1 sameRest
      obtain ⟨closing, rfl, rfl⟩ := List.map_eq_singleton_iff.1 sameLast
      obtain ⟨parts, built, isParts, leaves, read, bare⟩ := inside.exists_parts sameInner
      refine ⟨_, built, .group isOpening isClosing isParts, ?_, ?_, bare⟩
      · simp [leaves]
      · rw [toExpr_group isOpening isClosing, read]

/-- What lexemes denote as a sum is the expression of parts, but for its places. -/
theorem DenotesSum.exists_parts {lexemes : List Lexeme} {e : Expr} :
    DenotesSum width lexemes e → ∀ {tokens : List Token}, tokens.map Token.lexeme = lexemes →
      ∃ parts built, IsParts .operator parts ∧ frontierAll parts.reverse = tokens.map .leaf ∧
        sumExpr width parts.reverse = .ok built ∧ built.bare = e
  | .operand operand, tokens, same => by
      obtain ⟨tree, built, primitive, leaves, read, bare⟩ := operand.exists_tree same
      refine ⟨[tree], built, .operand .nil primitive, by simpa using leaves, ?_, bare⟩
      rw [sumExpr_reverse_single primitive, read]
  | .plus isPlus before last, tokens, same => by
      obtain ⟨front, rest, rfl, sameFront, sameRest⟩ := List.map_eq_append_iff.1 same
      obtain ⟨sign, back, rfl, rfl, sameBack⟩ := List.map_eq_cons_iff.1 sameRest
      obtain ⟨parts, left, isParts, frontLeaves, readLeft, rfl⟩ := before.exists_parts sameFront
      obtain ⟨tree, right, primitive, backLeaves, readRight, rfl⟩ := last.exists_tree sameBack
      refine ⟨tree :: leaf sign :: parts, left.add right,
        .operand (.plus isParts isPlus) primitive, by simp [frontLeaves, backLeaves], ?_, rfl⟩
      rw [sumExpr_reverse_plus isParts sign primitive, readLeft, readRight]
      rfl

end

end

/-! ## Sources -/

/-- The expression of a source is the one that its lexemes denote, but for its places. -/
theorem parse_iff_denotes (config : Config) (source : String) (bare : Expr) :
    (∃ e, Source.parse config source = .ok e ∧ e.bare = bare) ↔
      ∃ lexemes, lexemes? source.toList = some lexemes ∧ DenotesSum config.width lexemes bare := by
  constructor
  · rintro ⟨e, parsed, rfl⟩
    obtain ⟨tree, read, built⟩ := exists_tree_of_parse parsed
    obtain ⟨tokens, lexes, derivation, leaves⟩ := (ofSource_eq_ok_iff source tree).1 read
    obtain ⟨parts, isParts, rfl⟩ := derivation_root_iff.1 derivation
    rw [toExpr_root rfl] at built
    exact ⟨_, lexemes?_of_lexes lexes, denotes_parts isParts (by simpa using leaves) built⟩
  · rintro ⟨lexemes, found, denotes⟩
    obtain ⟨tokens, lexes, same⟩ := lexemes?_eq_some_iff.1 found
    obtain ⟨parts, e, isParts, leaves, built, bare⟩ := denotes.exists_parts same
    have derivation := derivation_root_iff.2 ⟨parts, isParts, rfl⟩
    have read := (ofSource_eq_ok_iff source _).2 ⟨tokens, lexes, derivation, by simpa using leaves⟩
    refine ⟨e, ?_, bare⟩
    rw [parse_of_ofSource config read, toExpr_root rfl, built]

end SumCalc

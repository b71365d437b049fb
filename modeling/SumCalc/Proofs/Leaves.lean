import SumCalc.Proofs.Anchors
import SumCalc.Proofs.Building
import SumCalc.Proofs.Literals

/-!
# The numbers of a source

The numbers of the expression of a source are its number tokens, from left to right, each with its
decimal value and its place. The first of them that is beyond the width ends the building, whichever
builder is at work and however the source is grouped.

Results:
1. `leaves_toExpr`: the numbers of the expression of a derivation tree are the literals at its
   leaves.
2. `mapM_number?_overflow`, `mapM_number?_fits`: the first literal that does not fit decides.
3. `leaves_parse`, `leaves_of_parse`: the numbers of the expression of a source are its number
   tokens.
-/

namespace SumCalc

open ParseTree

/-! ## Number tokens -/

/-- The number tokens among some tokens. -/
def numbers (tokens : List Token) : List Token :=
  tokens.filter fun token => token.terminal = .number

theorem mem_numbers {tokens : List Token} {token : Token} :
    token ∈ numbers tokens ↔ token ∈ tokens ∧ token.terminal = .number := by
  simp [numbers]

/-- The decimal value of the text of a token. -/
def Token.amount (token : Token) : Nat := decimal token.text.toList

/-- What a number token of a source denotes: its decimal value at its place, if that fits. -/
def Token.number? (width : Width) (token : Token) : Except Failure (Int × Option Position) :=
  if (token.amount : Int) ≤ width.maxInt then .ok (token.amount, some token.place)
  else .error (.rejected (.located token.place (.literalOverflow token.text width.bits)))

/-- The first number token beyond the width decides. -/
theorem mapM_number?_overflow {width : Width} {tokens : List Token} {token : Token}
    (first : tokens.find? (fun token => width.maxInt < token.amount) = some token) :
    tokens.mapM (Token.number? width) =
      .error (.rejected (.located token.place (.literalOverflow token.text width.bits))) := by
  induction tokens with
  | nil => cases first
  | cons head rest ih =>
      rw [List.mapM_cons]
      by_cases beyond : width.maxInt < head.amount
      · rw [List.find?_cons_of_pos (by simpa using beyond)] at first
        cases first
        rw [Token.number?, if_neg (Int.not_le.2 beyond)]
        rfl
      · rw [List.find?_cons_of_neg (by simpa using beyond)] at first
        rw [ih first, Token.number?, if_pos (Int.not_lt.1 beyond)]
        rfl

/-- If no number token is beyond the width, all of them have their values. -/
theorem mapM_number?_fits {width : Width} {tokens : List Token}
    (none : tokens.find? (fun token => width.maxInt < token.amount) = none) :
    tokens.mapM (Token.number? width) =
      .ok (tokens.map fun token => ((token.amount : Int), some token.place)) := by
  induction tokens with
  | nil => rfl
  | cons head rest ih =>
      by_cases beyond : width.maxInt < head.amount
      · rw [List.find?_cons_of_pos (by simpa using beyond)] at none
        cases none
      · rw [List.find?_cons_of_neg (by simpa using beyond)] at none
        rw [List.mapM_cons, ih none, Token.number?, if_pos (Int.not_lt.1 beyond)]
        rfl

/-! ## Literals at the leaves of a tree -/

/-- The literals among some leaves, with their places. -/
def literals (leaves : List ParseTree) : List (String × Position) :=
  leaves.filterMap fun leaf =>
    match leaf with
    | .token kind lexeme place => if kind = Terminal.number.name then some (lexeme, place) else none
    | _ => none

@[simp]
theorem literals_append (front back : List ParseTree) :
    literals (front ++ back) = literals front ++ literals back :=
  List.filterMap_append

theorem literals_leaf_cons (token : Token) (rest : List ParseTree) :
    literals (.leaf token :: rest) =
      (if token.terminal = .number then [(token.text, token.place)] else []) ++ literals rest := by
  have named : token.terminal.name = Terminal.number.name ↔ token.terminal = .number :=
    ⟨fun same => Terminal.name_injective same, fun same => by rw [same]⟩
  by_cases number : token.terminal = .number
  · simp [literals, leaf, number]
  · simp [literals, leaf, named, number]

theorem literals_leaves (tokens : List Token) :
    literals (tokens.map .leaf) =
      (numbers tokens).map fun token => (token.text, token.place) := by
  induction tokens with
  | nil => rfl
  | cons token rest ih =>
      rw [List.map_cons, literals_leaf_cons, ih]
      by_cases number : token.terminal = .number <;> simp [numbers, number]

/-- The number that a literal at a place denotes, with the place. -/
def readLeaf (width : Width) (literal : String × Position) :
    Except Failure (Int × Option Position) :=
  (Literal.read width literal.1 literal.2).map fun e => (e.exactSum, e.place)

/-- A literal denotes one number. -/
theorem leaves_read (width : Width) (text : String) (place : Position) :
    (Literal.read width text place).map Term.leaves =
      (readLeaf width (text, place)).map fun leaf => [leaf] := by
  rw [readLeaf]
  rcases Literal.read_cases width text place with ⟨n, -, same⟩ | same | same <;> rw [same] <;> rfl

theorem readLeaf_digits (width : Width) {token : Token}
    (inside : ∀ c ∈ token.text.toList, c.isDigit = true) :
    readLeaf width (token.text, token.place) = token.number? width := by
  rw [readLeaf, Literal.read_digits width token.place inside]
  unfold Token.number? Token.amount
  split <;> rfl

/-! ## The numbers of a derivation tree -/

/-- The numbers of a sum are those of its parts. -/
theorem leaves_sum (width : Width) {children : List ParseTree}
    (nonempty : subtrees children ≠ [])
    (named : ∀ tree ∈ subtrees children, tree.label = "primitive") :
    ((rule "sum" children).toExpr width).map Term.leaves =
      ((subtrees children).mapM (toExpr width)).map fun es => es.flatMap Term.leaves := by
  rw [toExpr_shaped_sum width named]
  cases parts : (subtrees children).mapM (toExpr width) with
  | error failure => rfl
  | ok es =>
      have count := length_of_mapM_ok parts
      cases es with
      | nil => exact absurd (List.length_eq_zero_iff.1 count.symm) nonempty
      | cons first rest =>
          show Except.ok (first.chain rest).leaves = _
          rw [Term.leaves_chain]
          rfl

/-- Numbers of trees that stand side by side, the last tree apart. -/
theorem leaves_snoc {width : Width} {trees : List ParseTree} {tree : ParseTree}
    {front back : List (String × Position)}
    (first : (trees.mapM (toExpr width)).map (fun es => es.flatMap Term.leaves) =
      front.mapM (readLeaf width))
    (last : (tree.toExpr width).map Term.leaves = back.mapM (readLeaf width)) :
    ((trees ++ [tree]).mapM (toExpr width)).map (fun es => es.flatMap Term.leaves) =
      (front ++ back).mapM (readLeaf width) := by
  rw [List.mapM_append, List.mapM_append, ← first, ← last, List.mapM_cons, List.mapM_nil]
  cases trees.mapM (toExpr width) with
  | error failure => rfl
  | ok es =>
      cases tree.toExpr width with
      | error failure => rfl
      | ok e =>
          show Except.ok ((es ++ [e]).flatMap Term.leaves) =
            .ok (es.flatMap Term.leaves ++ e.leaves)
          simp

mutual

theorem leaves_primitive (width : Width) {tree : ParseTree} : IsPrimitive tree →
    (tree.toExpr width).map Term.leaves = (literals tree.frontier).mapM (readLeaf width)
  | @IsPrimitive.number number isNumber => by
      have found : firstNumber? [leaf number] = some (number.text, number.place) := by
        simp [firstNumber?, leaf, isNumber]
      rw [toExpr_primitive, partExpr_literal found, leaves_read, frontier_rule, frontierAll_cons,
        frontierAll_nil, frontier_leaf, List.append_nil, literals_leaf_cons, if_pos isNumber,
        List.singleton_append, List.mapM_cons]
      cases readLeaf width (number.text, number.place) <;> rfl
  | @IsPrimitive.group opening closing parts isOpening isClosing isParts => by
      have inner := leaves_parts width isParts
      have shaped := isParts.shaped
      have literal := not_hasNumber_group isOpening isClosing "sum" parts.reverse
      obtain ⟨nonempty, named⟩ := (shaped_sum_of_parts isParts shaped).parts
      have surrounded :
          literals (frontierAll [leaf opening, rule "sum" parts.reverse, leaf closing]) =
            literals (frontierAll parts.reverse) := by
        simp only [frontierAll_cons, frontier_leaf, frontier_rule, frontierAll_nil, List.append_nil,
          List.singleton_append, literals_append, literals_leaf_cons, isOpening, isClosing]
        simp [literals]
      rw [toExpr_primitive, partExpr_group literal rfl, ← toExpr_sum,
        leaves_sum width nonempty named, inner, frontier_rule, surrounded]

theorem leaves_parts (width : Width) {awaited : Awaited} {parts : List ParseTree} :
    IsParts awaited parts →
      ((subtrees parts.reverse).mapM (toExpr width)).map (fun es => es.flatMap Term.leaves) =
        (literals (frontierAll parts.reverse)).mapM (readLeaf width)
  | .nil => rfl
  | @IsParts.operand tree parts begun primitive => by
      have last := leaves_primitive width primitive
      have first := leaves_parts width begun
      obtain ⟨children, rfl⟩ := primitive.exists_rule
      rw [List.reverse_cons, subtrees_append, subtrees_rule, frontierAll_append, literals_append]
      rw [frontierAll_cons, frontierAll_nil, List.append_nil]
      exact leaves_snoc first last
  | @IsParts.plus operator parts begun isPlus => by
      have first := leaves_parts width begun
      -- an operator has no part in the numbers on either side
      have silent : literals [leaf operator] = [] := by
        rw [literals_leaf_cons, isPlus]
        rfl
      rw [List.reverse_cons, subtrees_append, subtrees_leaf, List.append_nil, frontierAll_append,
        literals_append, first]
      simp [silent]

end

/-- The numbers of the expression of a derivation tree are the literals at its leaves. -/
theorem leaves_toExpr (width : Width) {tree : ParseTree}
    (derivation : Derivation (.rule .root) tree) :
    (tree.toExpr width).map Term.leaves = (literals tree.frontier).mapM (readLeaf width) := by
  obtain ⟨parts, isParts, rfl⟩ := derivation_root_iff.1 derivation
  obtain ⟨nonempty, named⟩ := (shaped_sum_of_parts isParts isParts.shaped).parts
  rw [toExpr_root rfl, ← toExpr_sum, leaves_sum width nonempty named, leaves_parts width isParts]
  simp

/-! ## The numbers of a source -/

/-- The numbers of the expression of a source are its number tokens. -/
theorem leaves_parse (config : Config) {source : String} {tokens : List Token}
    (lexes : Lexes source tokens) (derivable : Derivable (tokens.map Token.terminal)) :
    (Source.parse config source).map Term.leaves =
      (numbers tokens).mapM (Token.number? config.width) := by
  obtain ⟨tree, derivation, leaves⟩ := (derivable_iff tokens).1 derivable
  have read := (ofSource_eq_ok_iff source tree).2 ⟨tokens, lexes, derivation, leaves⟩
  have digits : ∀ token ∈ numbers tokens, ∀ c ∈ token.text.toList, c.isDigit = true := by
    intro token member
    obtain ⟨inside, number⟩ := mem_numbers.1 member
    exact (digits_of_lexes lexes inside number).2
  rw [parse_of_ofSource config read, leaves_toExpr _ derivation, leaves, literals_leaves,
    List.mapM_map]
  generalize numbers tokens = all at digits ⊢
  induction all with
  | nil => rfl
  | cons token rest ih =>
      have others := ih fun token member => digits token (List.mem_cons_of_mem _ member)
      have first := readLeaf_digits config.width (digits token List.mem_cons_self)
      rw [List.mapM_cons, List.mapM_cons, others, Function.comp_apply, first]

/-- The numbers of the expression of a source are its number tokens, and all of them fit. -/
theorem leaves_of_parse {config : Config} {source : String} {tokens : List Token} {e : Expr}
    (lexes : Lexes source tokens) (derivable : Derivable (tokens.map Token.terminal))
    (parsed : Source.parse config source = .ok e) :
    (∀ token ∈ numbers tokens, (token.amount : Int) ≤ config.width.maxInt) ∧
      e.leaves = (numbers tokens).map fun token => ((token.amount : Int), some token.place) := by
  have leaves := leaves_parse config lexes derivable
  rw [parsed] at leaves
  cases first : (numbers tokens).find? (fun token => config.width.maxInt < token.amount) with
  | some token =>
      rw [mapM_number?_overflow first] at leaves
      cases leaves
  | none =>
      rw [mapM_number?_fits first] at leaves
      refine ⟨fun token member => ?_, Except.ok.inj leaves⟩
      simpa using List.find?_eq_none.1 first token member

end SumCalc

import SumCalc.ParseTree.Reader
import SumCalc.Proofs.Grammar
import SumCalc.Proofs.Lexing

/-!
# What the reader accepts

The reader builds exactly the derivation trees of the grammar. `Reader.Takes` lists what one step can
do. `Reader.Sound` is the invariant of a run: the parts of the sum being read and of the sums around
it are beginnings of derivation trees, and their leaves are the tokens read so far. Conversely
`reads_primitive` and `reads_parts` follow a derivation tree and find that the reader rebuilds it, at
any depth.

Results:
1. `ofScan_eq_ok_iff`: a sequence of tokens is read as a tree exactly if the tree is a derivation
   tree with these tokens at its leaves.
2. `ofSource_eq_ok_iff`, `inLanguage_iff`: the same for a source.
3. `ofSource_derivation`: a source is accepted exactly if the grammar derives its tokens, and then
   its tree is the one derivation tree of these tokens.
-/

namespace SumCalc

/-! ## Derivation trees part by part -/

mutual

/-- The derivation trees of `primitive`. -/
inductive IsPrimitive : ParseTree → Prop
  | number {token : Token} :
      token.terminal = .number → IsPrimitive (.rule "primitive" [.leaf token])
  | group {opening closing : Token} {parts : List ParseTree} :
      opening.terminal = .leftParen → closing.terminal = .rightParen → IsParts .operator parts →
        IsPrimitive
          (.rule "primitive" [.leaf opening, .rule "sum" parts.reverse, .leaf closing])

/-- The beginnings of a sum after which an operand or an operator is awaited, their last part
first. -/
inductive IsParts : Awaited → List ParseTree → Prop
  | nil : IsParts .operand []
  | operand {tree : ParseTree} {parts : List ParseTree} :
      IsParts .operand parts → IsPrimitive tree → IsParts .operator (tree :: parts)
  | plus {token : Token} {parts : List ParseTree} :
      IsParts .operator parts → token.terminal = .plus → IsParts .operand (.leaf token :: parts)

end

/-- Derivation trees of an operand and further operands go on with a sum that awaits them. -/
theorem isParts_of_derivations {count : Nat} {trees parts : List ParseTree}
    (primitives : ∀ tree ∈ trees, Derivation (.rule .primitive) tree → IsPrimitive tree)
    (begun : IsParts .operand parts)
    (all : Derivations (.rule .primitive :: furtherOperands count) trees) :
    IsParts .operator (trees.reverse ++ parts) := by
  induction count generalizing trees parts with
  | zero =>
      cases all with
      | cons first none =>
          cases none
          exact .operand begun (primitives _ List.mem_cons_self first)
  | succ count ih =>
      rw [furtherOperands_succ] at all
      cases all with
      | @cons _ _ first _ firstDerivation more =>
          cases more with
          | @cons _ _ plus trees plusDerivation others =>
              obtain ⟨token, isPlus, rfl⟩ := plusDerivation.exists_leaf
              have operand : IsParts .operator (first :: parts) :=
                .operand begun (primitives _ List.mem_cons_self firstDerivation)
              have sum := ih
                (fun tree member => primitives tree
                  (List.mem_cons_of_mem _ (List.mem_cons_of_mem _ member)))
                (.plus operand isPlus) others
              simpa using sum

/-- A tree is smaller than the rule it is a child of. -/
theorem size_lt_of_mem (name : String) {tree : ParseTree} {children : List ParseTree}
    (member : tree ∈ children) : tree.size < (ParseTree.rule name children).size := by
  rw [ParseTree.size]
  induction children with
  | nil => cases member
  | cons first rest ih =>
      rw [ParseTree.sizeAll]
      rcases List.mem_cons.1 member with rfl | later
      · omega
      · have smaller := ih later
        omega

theorem isPrimitive_of_derivation (tree : ParseTree)
    (derivation : Derivation (.rule .primitive) tree) : IsPrimitive tree := by
  cases derivation with
  | @node _ _ trees production below =>
      cases production with
      | number =>
          cases below with
          | cons number none =>
              cases none
              obtain ⟨token, isNumber, rfl⟩ := number.exists_leaf
              exact .number isNumber
      | group =>
          rcases below with _ | ⟨opening, _ | ⟨sum, _ | ⟨closing, none⟩⟩⟩
          cases none
          obtain ⟨left, isLeft, rfl⟩ := opening.exists_leaf
          obtain ⟨right, isRight, rfl⟩ := closing.exists_leaf
          cases sum with
          | @node _ _ inner production operands =>
              cases production with
              | sum count =>
                  -- every operand of the inner sum is smaller than the group
                  have parts := isParts_of_derivations
                    (fun operand member derivation => by
                      have innerSmaller := size_lt_of_mem Rule.sum.name member
                      have groupLarger : (ParseTree.rule Rule.sum.name inner).size <
                          (ParseTree.rule Rule.primitive.name
                            [.leaf left, .rule Rule.sum.name inner, .leaf right]).size :=
                        size_lt_of_mem Rule.primitive.name (by simp)
                      exact isPrimitive_of_derivation operand derivation)
                    .nil operands
                  rw [List.append_nil] at parts
                  have group := IsPrimitive.group isLeft isRight parts
                  rw [List.reverse_reverse] at group
                  exact group
termination_by tree.size

/-- The symbols of a beginning of a sum with `count` operators. -/
def symbolsOf : Awaited → Nat → List Symbol
  | .operator, count => .rule .primitive :: furtherOperands count
  | .operand, 0 => []
  | .operand, count + 1 => .rule .primitive :: furtherOperands count ++ [.terminal .plus]

mutual

theorem IsPrimitive.derivation {tree : ParseTree} :
    IsPrimitive tree → Derivation (.rule .primitive) tree
  | .number isNumber => .node .number (.cons (isNumber ▸ .leaf _) .nil)
  | .group isLeft isRight parts => by
      obtain ⟨count, operands⟩ := parts.derivations
      have sum : Derivation (.rule .sum) _ := .node (.sum count) operands
      exact .node .group
        (.cons (isLeft ▸ .leaf _) (.cons sum (.cons (isRight ▸ .leaf _) .nil)))

theorem IsParts.derivations {awaited : Awaited} {parts : List ParseTree} :
    IsParts awaited parts → ∃ count, Derivations (symbolsOf awaited count) parts.reverse
  | .nil => ⟨0, .nil⟩
  | .operand begun primitive => by
      obtain ⟨count, before⟩ := begun.derivations
      have last : Derivations [.rule .primitive] [_] := .cons primitive.derivation .nil
      have all := before.append last
      rw [← List.reverse_cons] at all
      refine ⟨count, ?_⟩
      cases count with
      | zero => exact all
      | succ count =>
          rw [symbolsOf, furtherOperands_concat]
          simpa [symbolsOf] using all
  | @IsParts.plus token _ begun isPlus => by
      obtain ⟨count, before⟩ := begun.derivations
      have last : Derivations [.terminal .plus] [.leaf token] := .cons (isPlus ▸ .leaf token) .nil
      have all := before.append last
      rw [← List.reverse_cons] at all
      exact ⟨count + 1, all⟩

end

theorem derivation_primitive_iff {tree : ParseTree} :
    Derivation (.rule .primitive) tree ↔ IsPrimitive tree :=
  ⟨isPrimitive_of_derivation tree, IsPrimitive.derivation⟩

theorem derivation_sum_iff {tree : ParseTree} :
    Derivation (.rule .sum) tree ↔
      ∃ parts, IsParts .operator parts ∧ tree = .rule "sum" parts.reverse := by
  constructor
  · intro derivation
    cases derivation with
    | @node _ _ trees production operands =>
        cases production with
        | sum count =>
            have parts := isParts_of_derivations
              (fun tree _ => derivation_primitive_iff.1) .nil operands
            exact ⟨_, parts, by simp [Rule.name]⟩
  · rintro ⟨parts, isParts, rfl⟩
    obtain ⟨count, operands⟩ := isParts.derivations
    exact .node (.sum count) operands

theorem derivation_root_iff {tree : ParseTree} :
    Derivation (.rule .root) tree ↔
      ∃ parts, IsParts .operator parts ∧ tree = .rule "root" [.rule "sum" parts.reverse] := by
  constructor
  · intro derivation
    cases derivation with
    | @node _ _ trees production below =>
        cases production with
        | root =>
            cases below with
            | cons sum none =>
                cases none
                obtain ⟨parts, isParts, rfl⟩ := derivation_sum_iff.1 sum
                exact ⟨parts, isParts, rfl⟩
  · rintro ⟨parts, isParts, rfl⟩
    exact .node .root (.cons (derivation_sum_iff.2 ⟨parts, isParts, rfl⟩) .nil)

/-! ## Steps and runs of the reader -/

namespace Reader

/-- `Takes reader token next`: the reader takes the token and becomes `next`. -/
inductive Takes : Reader → Token → Reader → Prop
  | number {parts : List ParseTree} {outer : List OpenSum} {token : Token} :
      token.terminal = .number →
        Takes ⟨parts, outer, .operand⟩ token
          ⟨.rule "primitive" [.leaf token] :: parts, outer, .operator⟩
  | opening {parts : List ParseTree} {outer : List OpenSum} {token : Token} :
      token.terminal = .leftParen →
        Takes ⟨parts, outer, .operand⟩ token ⟨[], ⟨parts, token⟩ :: outer, .operand⟩
  | plus {parts : List ParseTree} {outer : List OpenSum} {token : Token} :
      token.terminal = .plus →
        Takes ⟨parts, outer, .operator⟩ token ⟨.leaf token :: parts, outer, .operand⟩
  | closing {parts : List ParseTree} {group : OpenSum} {outer : List OpenSum} {token : Token} :
      token.terminal = .rightParen →
        Takes ⟨parts, group :: outer, .operator⟩ token
          ⟨.rule "primitive" [.leaf group.parenthesis, .rule "sum" parts.reverse, .leaf token] ::
            group.parts, outer, .operator⟩

theorem step_eq_ok_iff {reader next : Reader} {token : Token} :
    reader.step token = .ok next ↔ Takes reader token next := by
  constructor
  · intro stepped
    obtain ⟨parts, outer, awaited⟩ := reader
    cases awaited <;> cases kind : token.terminal <;> simp only [step, kind] at stepped
    case operand.number =>
        cases stepped
        exact .number kind
    case operand.leftParen =>
        cases stepped
        exact .opening kind
    case operator.plus =>
        cases stepped
        exact .plus kind
    case operator.rightParen =>
        cases outer with
        | nil => cases stepped
        | cons group outer =>
            cases stepped
            exact .closing kind
    all_goals cases stepped
  · intro takes
    cases takes with
    | number kind | opening kind | plus kind | closing kind => simp only [step, kind, sum]

/-- The leaves of an interrupted sum and of the parenthesis that interrupts it. -/
def openLeaves (group : OpenSum) : List ParseTree :=
  ParseTree.frontierAll group.parts.reverse ++ [.leaf group.parenthesis]

/-- The leaves of all that the reader has built, from left to right. -/
def covered (reader : Reader) : List ParseTree :=
  reader.outer.reverse.flatMap openLeaves ++ ParseTree.frontierAll reader.parts.reverse

/-- What holds of a reader after the tokens `done`: it has built beginnings of derivation trees, and
these tokens are their leaves. -/
structure Sound (reader : Reader) (done : List Token) : Prop where
  parts : IsParts reader.awaited reader.parts
  outer : ∀ group ∈ reader.outer,
    IsParts .operand group.parts ∧ group.parenthesis.terminal = .leftParen
  leaves : reader.covered = done.map .leaf

theorem initial_sound : Sound initial [] where
  parts := .nil
  outer := by simp [initial]
  leaves := by simp [covered, initial]

theorem run_cons {reader next : Reader} {token : Token} (takes : Takes reader token next)
    (tokens : List Token) : (token :: tokens).foldlM step reader = tokens.foldlM step next := by
  rw [List.foldlM_cons, step_eq_ok_iff.2 takes]
  rfl

/-- A run over some tokens takes the first of them and goes on. -/
theorem exists_takes_of_run {reader last : Reader} {token : Token} {tokens : List Token}
    (ran : (token :: tokens).foldlM step reader = .ok last) :
    ∃ next, Takes reader token next ∧ tokens.foldlM step next = .ok last := by
  rw [List.foldlM_cons] at ran
  cases stepped : reader.step token with
  | error rejection =>
      rw [stepped] at ran
      cases ran
  | ok next =>
      rw [stepped] at ran
      exact ⟨next, step_eq_ok_iff.1 stepped, ran⟩

theorem run_append {reader middle : Reader} {first : List Token}
    (ran : first.foldlM step reader = .ok middle) (second : List Token) :
    (first ++ second).foldlM step reader = second.foldlM step middle := by
  rw [List.foldlM_append, ran]
  rfl

/-- One step keeps the invariant. -/
theorem Takes.sound {reader next : Reader} {token : Token} {done : List Token}
    (takes : Takes reader token next) (sound : Sound reader done) :
    Sound next (done ++ [token]) := by
  have leaves := sound.leaves
  cases takes with
  | number isNumber =>
      refine ⟨.operand sound.parts (.number isNumber), sound.outer, ?_⟩
      rw [List.map_append, ← leaves]
      simp [covered]
  | opening isOpening =>
      refine ⟨.nil, ?_, ?_⟩
      · intro group member
        rcases List.mem_cons.1 member with rfl | old
        · exact ⟨sound.parts, isOpening⟩
        · exact sound.outer group old
      · rw [List.map_append, ← leaves]
        simp [covered, openLeaves]
  | plus isPlus =>
      refine ⟨.plus sound.parts isPlus, sound.outer, ?_⟩
      rw [List.map_append, ← leaves]
      simp [covered]
  | @closing parts group outer token isClosing =>
      -- the inner sum becomes an operand of the sum that it interrupted
      obtain ⟨groupParts, isOpening⟩ := sound.outer group List.mem_cons_self
      have primitive : IsPrimitive _ := .group isOpening isClosing sound.parts
      refine ⟨.operand groupParts primitive, ?_, ?_⟩
      · exact fun group member => sound.outer group (List.mem_cons_of_mem _ member)
      · rw [List.map_append, ← leaves]
        simp [covered, openLeaves]

/-- A run keeps the invariant. -/
theorem run_sound {reader next : Reader} {tokens done : List Token}
    (ran : tokens.foldlM step reader = .ok next) (sound : Sound reader done) :
    Sound next (done ++ tokens) := by
  induction tokens generalizing reader done with
  | nil =>
      cases ran
      simpa using sound
  | cons token tokens ih =>
      obtain ⟨middle, takes, later⟩ := exists_takes_of_run ran
      simpa using ih later (takes.sound sound)

mutual

/-- The reader rebuilds a derivation tree of `primitive` from its leaves. -/
theorem reads_primitive {tree : ParseTree} : IsPrimitive tree →
    ∀ {tokens : List Token} (parts : List ParseTree) (outer : List OpenSum),
      tree.frontier = tokens.map .leaf →
        tokens.foldlM step ⟨parts, outer, .operand⟩ = .ok ⟨tree :: parts, outer, .operator⟩
  | @IsPrimitive.number token isNumber, tokens, parts, outer, leaves => by
      have single : tokens = [token] := by
        rw [← ParseTree.map_leaf_inj, ← leaves]
        simp
      rw [single, run_cons (.number isNumber)]
      rfl
  | @IsPrimitive.group opening closing inner isOpening isClosing innerParts,
      tokens, parts, outer, leaves => by
      -- the tokens are those of the two parentheses and of the sum between them
      have split : ParseTree.leaf opening ::
          (ParseTree.frontierAll inner.reverse ++ [.leaf closing]) = tokens.map .leaf := by
        rw [← leaves]
        simp
      obtain ⟨first, rest, rfl, sameFirst, sameRest⟩ := List.map_eq_cons_iff.1 split.symm
      obtain ⟨middle, last, rfl, sameMiddle, sameLast⟩ := List.map_eq_append_iff.1 sameRest
      obtain rfl : first = opening := ParseTree.leaf_injective sameFirst
      obtain rfl : last = [closing] := ParseTree.map_leaf_inj.1 (by simpa using sameLast)
      have reads := reads_parts innerParts (⟨parts, first⟩ :: outer) sameMiddle.symm
      rw [run_cons (.opening isOpening), run_append reads, run_cons (.closing isClosing)]
      rfl

/-- The reader rebuilds the beginning of a sum from its leaves. -/
theorem reads_parts {awaited : Awaited} {parts : List ParseTree} : IsParts awaited parts →
    ∀ {tokens : List Token} (outer : List OpenSum),
      ParseTree.frontierAll parts.reverse = tokens.map .leaf →
        tokens.foldlM step ⟨[], outer, .operand⟩ = .ok ⟨parts, outer, awaited⟩
  | .nil, tokens, outer, leaves => by
      obtain rfl : tokens = [] := by simpa using leaves.symm
      rfl
  | .operand begun primitive, tokens, outer, leaves => by
      rw [List.reverse_cons, ParseTree.frontierAll_append] at leaves
      obtain ⟨first, last, rfl, sameFirst, sameLast⟩ := List.map_eq_append_iff.1 leaves.symm
      rw [run_append (reads_parts begun outer sameFirst.symm)]
      exact reads_primitive primitive _ outer (by simpa using sameLast.symm)
  | @IsParts.plus token parts begun isPlus, tokens, outer, leaves => by
      rw [List.reverse_cons, ParseTree.frontierAll_append] at leaves
      obtain ⟨first, last, rfl, sameFirst, sameLast⟩ := List.map_eq_append_iff.1 leaves.symm
      obtain rfl : last = [token] := ParseTree.map_leaf_inj.1 (by simpa using sameLast)
      rw [run_append (reads_parts begun outer sameFirst.symm), run_cons (.plus isPlus)]
      rfl

end

/-- Only a reader outside all parentheses that awaits an operator may end, with its sum as tree. -/
theorem finish_eq_ok_iff {reader : Reader} {last : Position} {tree : ParseTree} :
    reader.finish last = .ok tree ↔
      reader.outer = [] ∧ reader.awaited = .operator ∧ tree = .rule "root" [reader.sum] := by
  obtain ⟨parts, outer, awaited⟩ := reader
  cases awaited <;> cases outer <;> simp [finish, missing, operandStarts, eq_comm]

end Reader

/-! ## Whole sources -/

/-- The reader makes a tree of tokens exactly if it takes all of them and ends with the sum of the
tree, outside all parentheses and behind an operand. -/
theorem ofScan_eq_ok_iff_run (tokens : List Token) (tree : ParseTree) :
    ParseTree.ofScan ⟨tokens, none⟩ = .ok tree ↔
      ∃ parts, tokens.foldlM Reader.step .initial = .ok ⟨parts, [], .operator⟩ ∧
        tree = .rule "root" [.rule "sum" parts.reverse] := by
  cases ran : tokens.foldlM Reader.step .initial with
  | error rejection => simp [ParseTree.ofScan, ran, bind, Except.bind]
  | ok reader =>
      obtain ⟨parts, outer, awaited⟩ := reader
      simp only [ParseTree.ofScan, ran]
      refine Reader.finish_eq_ok_iff.trans ?_
      constructor
      · rintro ⟨rfl, rfl, rfl⟩
        exact ⟨_, rfl, rfl⟩
      · rintro ⟨parts, same, rfl⟩
        cases same
        exact ⟨rfl, rfl, rfl⟩

/-- The reader makes a tree of tokens exactly if it is a derivation tree with these leaves. -/
theorem ofScan_eq_ok_iff (tokens : List Token) (tree : ParseTree) :
    ParseTree.ofScan ⟨tokens, none⟩ = .ok tree ↔
      Derivation (.rule .root) tree ∧ tree.frontier = tokens.map .leaf := by
  rw [ofScan_eq_ok_iff_run]
  constructor
  · rintro ⟨parts, ran, rfl⟩
    have sound := Reader.run_sound ran Reader.initial_sound
    refine ⟨derivation_root_iff.2 ⟨parts, sound.parts, rfl⟩, ?_⟩
    simpa [Reader.covered] using sound.leaves
  · rintro ⟨derivation, leaves⟩
    obtain ⟨parts, isParts, rfl⟩ := derivation_root_iff.1 derivation
    exact ⟨parts, Reader.reads_parts isParts [] (by simpa using leaves), rfl⟩

/-- A source has a tree exactly if it splits into tokens and the tree is a derivation tree with these
tokens at its leaves. -/
theorem ofSource_eq_ok_iff (source : String) (tree : ParseTree) :
    ParseTree.ofSource source = .ok tree ↔
      ∃ tokens, Lexes source tokens ∧ Derivation (.rule .root) tree ∧
        tree.frontier = tokens.map .leaf := by
  constructor
  · intro read
    cases scanned : Token.scan source with
    | mk tokens stray =>
        cases stray with
        | none =>
            have lexes := (scan_eq_iff_lexes source tokens).1 scanned
            rw [ParseTree.ofSource, scanned] at read
            exact ⟨tokens, lexes, (ofScan_eq_ok_iff tokens tree).1 read⟩
        | some stray =>
            simp only [ParseTree.ofSource, scanned, ParseTree.ofScan] at read
            cases ran : tokens.foldlM Reader.step .initial <;> rw [ran] at read <;> cases read
  · rintro ⟨tokens, lexes, derives⟩
    rw [ParseTree.ofSource, (scan_eq_iff_lexes source tokens).2 lexes]
    exact (ofScan_eq_ok_iff tokens tree).2 derives

/-- A source is in the language of the grammar if it splits into tokens that the grammar derives. -/
def InLanguage (source : String) : Prop :=
  ∃ tokens, Lexes source tokens ∧ Derivable (tokens.map Token.terminal)

theorem inLanguage_iff (source : String) :
    InLanguage source ↔ ∃ tree, ParseTree.ofSource source = .ok tree := by
  constructor
  · rintro ⟨tokens, lexes, derivable⟩
    obtain ⟨tree, derivation, leaves⟩ := (derivable_iff tokens).1 derivable
    exact ⟨tree, (ofSource_eq_ok_iff source tree).2 ⟨tokens, lexes, derivation, leaves⟩⟩
  · rintro ⟨tree, read⟩
    obtain ⟨tokens, lexes, derivation, leaves⟩ := (ofSource_eq_ok_iff source tree).1 read
    exact ⟨tokens, lexes, (derivable_iff tokens).2 ⟨tree, derivation, leaves⟩⟩

instance (source : String) : Decidable (InLanguage source) :=
  decidable_of_iff ((ParseTree.ofSource source).isOk = true) (by
    rw [inLanguage_iff]
    cases ParseTree.ofSource source <;> simp [Except.isOk, Except.toBool])

/-- The tree of a source is the only derivation tree of its tokens. -/
theorem derivation_unique {tree other : ParseTree} {tokens : List Token}
    (derivation : Derivation (.rule .root) tree) (leaves : tree.frontier = tokens.map .leaf)
    (otherDerivation : Derivation (.rule .root) other)
    (otherLeaves : other.frontier = tokens.map .leaf) : other = tree := by
  have read := (ofScan_eq_ok_iff tokens tree).2 ⟨derivation, leaves⟩
  have otherRead := (ofScan_eq_ok_iff tokens other).2 ⟨otherDerivation, otherLeaves⟩
  exact Except.ok.inj (otherRead.symm.trans read)

/-- A source is accepted exactly if it splits into tokens that the grammar derives. Its tree is then
the one derivation tree with its leaves. These are the tokens of the source, each at the place where
its text stands, and their texts make up the source without its blanks. -/
theorem ofSource_derivation (source : String) :
    ((∃ tree, ParseTree.ofSource source = .ok tree) ↔
      ∃ tokens, Lexes source tokens ∧ Derivable (tokens.map Token.terminal)) ∧
    ∀ tree, ParseTree.ofSource source = .ok tree →
      Derivation (.rule .root) tree ∧
      (∀ other, Derivation (.rule .root) other → other.frontier = tree.frontier → other = tree) ∧
      ∃ tokens, Lexes source tokens ∧ (∀ others, Lexes source others → others = tokens) ∧
        tree.frontier = tokens.map .leaf ∧
        (∀ token ∈ tokens, ∃ before after,
          source.toList = before ++ token.text.toList ++ after ∧
            token.place = .following before) ∧
        String.join (tokens.map Token.text) =
          String.ofList (source.toList.filter fun c => !Token.isSkipped c) := by
  constructor
  · exact (inLanguage_iff source).symm
  · intro tree read
    obtain ⟨tokens, lexes, derivation, leaves⟩ := (ofSource_eq_ok_iff source tree).1 read
    refine ⟨derivation, ?_, tokens, lexes, fun others => lexes.unique, leaves, ?_, ?_⟩
    · intro other otherDerivation same
      exact derivation_unique derivation leaves otherDerivation (same.trans leaves)
    · exact fun token member => occurs_of_lexes lexes member
    · exact join_texts_of_lexes lexes

/-- Two lines with blanks, a group and a leading zero. -/
theorem ofSource_derivation_two_lines :
    ∃ tree, ParseTree.ofSource "1\n + (02)" = .ok tree ∧ Derivation (.rule .root) tree ∧
      ∃ tokens, Lexes "1\n + (02)" tokens ∧ tree.frontier = tokens.map .leaf := by
  have accepted : ParseTree.ofSource "1\n + (02)" =
      .ok (.rule "root" [.rule "sum" [.rule "primitive" [.token "NUMBER" "1" ⟨1, 1⟩],
        .token "PLUS" "+" ⟨2, 2⟩,
        .rule "primitive" [.token "LPAR" "(" ⟨2, 4⟩,
          .rule "sum" [.rule "primitive" [.token "NUMBER" "02" ⟨2, 5⟩]],
          .token "RPAR" ")" ⟨2, 7⟩]]]) := by with_unfolding_all rfl
  obtain ⟨derivation, -, tokens, lexes, -, leaves, -⟩ :=
    (ofSource_derivation "1\n + (02)").2 _ accepted
  exact ⟨_, accepted, derivation, tokens, lexes, leaves⟩

end SumCalc

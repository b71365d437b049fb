import Mathlib.Logic.Relation
import SumCalc.ParseTree

/-!
# The grammar of sums

* `root → sum`
* `sum → primitive (plus primitive)*`
* `primitive → number | leftParen sum rightParen`

`Production` lists the productions. `Derivable` says by rewriting, without trees, which sequences of
tokens the grammar derives from `root`; `Derivation` says which trees are derivation trees, and
`ParseTree.frontier` reads off the leaves of a tree from left to right.

Result: `derivable_iff`, a sequence of tokens is derivable exactly if it is the frontier of a
derivation tree.
-/

namespace SumCalc

/-! ## Productions -/

/-- The rules of the grammar. -/
inductive Rule
  | root
  | sum
  | primitive
deriving DecidableEq, Repr

/-- The name of a rule in parse trees. -/
def Rule.name : Rule → String
  | .root => "root"
  | .sum => "sum"
  | .primitive => "primitive"

/-- A symbol of the grammar. -/
inductive Symbol
  | terminal (kind : Terminal)
  | rule (rule : Rule)

/-- What may follow the first operand of a sum: an operator and an operand, `count` times. -/
def furtherOperands (count : Nat) : List Symbol :=
  (List.replicate count [.terminal .plus, .rule .primitive]).flatten

theorem furtherOperands_succ (count : Nat) :
    furtherOperands (count + 1) = .terminal .plus :: .rule .primitive :: furtherOperands count := rfl

theorem furtherOperands_concat (count : Nat) :
    furtherOperands (count + 1) = furtherOperands count ++ [.terminal .plus, .rule .primitive] := by
  simp [furtherOperands, List.replicate_succ']

/-- `Production rule symbols`: the grammar lets `rule` stand for `symbols`. -/
inductive Production : Rule → List Symbol → Prop
  | root : Production .root [.rule .sum]
  | sum (count : Nat) : Production .sum (.rule .primitive :: furtherOperands count)
  | number : Production .primitive [.terminal .number]
  | group : Production .primitive [.terminal .leftParen, .rule .sum, .terminal .rightParen]

/-- One step of a derivation: a rule in a form gives way to one of its productions. -/
inductive Rewrite : List Symbol → List Symbol → Prop
  | replace (front back : List Symbol) {rule : Rule} {symbols : List Symbol} :
      Production rule symbols → Rewrite (front ++ .rule rule :: back) (front ++ symbols ++ back)

/-- The form `root` can be rewritten into the given kinds of token. -/
def Derivable (kinds : List Terminal) : Prop :=
  Relation.ReflTransGen Rewrite [.rule .root] (kinds.map .terminal)

/-! ## Derivation trees -/

mutual

/-- `Derivation symbol tree`: the tree is a derivation tree of the symbol. -/
inductive Derivation : Symbol → ParseTree → Prop
  | leaf (token : Token) : Derivation (.terminal token.terminal) (.leaf token)
  | node {rule : Rule} {symbols : List Symbol} {trees : List ParseTree} :
      Production rule symbols → Derivations symbols trees →
        Derivation (.rule rule) (.rule rule.name trees)

/-- Trees that are derivation trees of symbols, one by one. -/
inductive Derivations : List Symbol → List ParseTree → Prop
  | nil : Derivations [] []
  | cons {symbol : Symbol} {symbols : List Symbol} {tree : ParseTree} {trees : List ParseTree} :
      Derivation symbol tree → Derivations symbols trees →
        Derivations (symbol :: symbols) (tree :: trees)

end

namespace ParseTree

theorem leaf_injective {a b : Token} (same : leaf a = leaf b) : a = b := by
  obtain ⟨kind, text, place⟩ := a
  obtain ⟨otherKind, otherText, otherPlace⟩ := b
  simp only [leaf, token.injEq] at same
  obtain ⟨kinds, rfl, rfl⟩ := same
  rw [Terminal.name_injective kinds]

theorem map_leaf_inj {tokens others : List Token} :
    tokens.map leaf = others.map leaf ↔ tokens = others :=
  List.map_inj_right fun _ _ => leaf_injective

mutual

/-- The leaves of a tree, from left to right. -/
def frontier : ParseTree → List ParseTree
  | rule _ children => frontierAll children
  | token kind lexeme place => [token kind lexeme place]
  | text content => [text content]

/-- The leaves of trees that stand side by side. -/
def frontierAll : List ParseTree → List ParseTree
  | [] => []
  | tree :: rest => frontier tree ++ frontierAll rest

end

@[simp]
theorem frontier_rule (name : String) (children : List ParseTree) :
    (rule name children).frontier = frontierAll children := by
  rw [frontier]

@[simp]
theorem frontier_leaf (token : Token) : (leaf token).frontier = [leaf token] := by
  rw [leaf, frontier]

@[simp]
theorem frontierAll_nil : frontierAll [] = [] := by
  rw [frontierAll]

@[simp]
theorem frontierAll_cons (tree : ParseTree) (rest : List ParseTree) :
    frontierAll (tree :: rest) = tree.frontier ++ frontierAll rest := by
  rw [frontierAll]

@[simp]
theorem frontierAll_append (front back : List ParseTree) :
    frontierAll (front ++ back) = frontierAll front ++ frontierAll back := by
  induction front with
  | nil => simp
  | cons tree rest ih => simp [ih]

theorem frontierAll_leaves (tokens : List Token) :
    frontierAll (tokens.map leaf) = tokens.map leaf := by
  induction tokens with
  | nil => simp
  | cons token rest ih => simp [ih]

end ParseTree

/-- The derivation trees of a terminal are leaves. -/
theorem Derivation.exists_leaf {kind : Terminal} {tree : ParseTree}
    (derivation : Derivation (.terminal kind) tree) :
    ∃ token : Token, token.terminal = kind ∧ tree = .leaf token := by
  generalize same : Symbol.terminal kind = symbol at derivation
  cases derivation with
  | leaf token =>
      cases same
      exact ⟨token, rfl, rfl⟩
  | node => cases same

theorem Derivations.append {symbols others : List Symbol} {trees more : List ParseTree}
    (first : Derivations symbols trees) (second : Derivations others more) :
    Derivations (symbols ++ others) (trees ++ more) := by
  induction symbols generalizing trees with
  | nil =>
      cases first
      exact second
  | cons symbol symbols ih =>
      cases first with
      | cons tree rest => exact .cons tree (ih rest)

/-- Derivation trees of a sequence of symbols fall into those of its two parts. -/
theorem Derivations.split {symbols others : List Symbol} {trees : List ParseTree}
    (all : Derivations (symbols ++ others) trees) :
    ∃ first second, trees = first ++ second ∧ Derivations symbols first ∧
      Derivations others second := by
  induction symbols generalizing trees with
  | nil => exact ⟨[], trees, rfl, .nil, all⟩
  | cons symbol symbols ih =>
      cases all with
      | @cons _ _ tree trees head tail =>
          obtain ⟨first, second, rfl, front, back⟩ := ih tail
          exact ⟨tree :: first, second, rfl, .cons head front, back⟩

theorem derivations_leaves (tokens : List Token) :
    Derivations (tokens.map fun token => .terminal token.terminal) (tokens.map .leaf) := by
  induction tokens with
  | nil => exact .nil
  | cons token rest ih => exact .cons (.leaf token) ih

/-! ## Rewriting and trees -/

/-- One step back: the trees of a production become the children of one tree. -/
theorem Rewrite.exists_derivations {before after : List Symbol} (step : Rewrite before after)
    {trees : List ParseTree} (all : Derivations after trees) :
    ∃ folded, Derivations before folded ∧
      ParseTree.frontierAll folded = ParseTree.frontierAll trees := by
  obtain ⟨front, back, production⟩ := step
  -- the trees of the production stand between those of the symbols around it
  obtain ⟨rest, last, rfl, start, ends⟩ := all.split
  obtain ⟨first, children, rfl, begins, below⟩ := start.split
  exact ⟨first ++ .rule _ children :: last, begins.append (.cons (.node production below) ends),
    by simp⟩

/-- A form that can be rewritten into tokens has derivation trees with these leaves. -/
theorem exists_derivations {form : List Symbol} {tokens : List Token}
    (rewrites : Relation.ReflTransGen Rewrite form
      (tokens.map fun token => .terminal token.terminal)) :
    ∃ trees, Derivations form trees ∧ ParseTree.frontierAll trees = tokens.map .leaf := by
  induction rewrites using Relation.ReflTransGen.head_induction_on with
  | refl => exact ⟨_, derivations_leaves tokens, ParseTree.frontierAll_leaves tokens⟩
  | head step _ ih =>
      obtain ⟨trees, derivations, leaves⟩ := ih
      obtain ⟨folded, foldedDerivations, same⟩ := step.exists_derivations derivations
      exact ⟨folded, foldedDerivations, same.trans leaves⟩

/-- Rewriting goes on next to other symbols. -/
theorem rewrites_within (front back : List Symbol) {form result : List Symbol}
    (rewrites : Relation.ReflTransGen Rewrite form result) :
    Relation.ReflTransGen Rewrite (front ++ form ++ back) (front ++ result ++ back) := by
  refine rewrites.lift (fun form => front ++ form ++ back) ?_
  rintro _ _ ⟨left, right, production⟩
  have step := Rewrite.replace (front ++ left) (right ++ back) production
  show Rewrite _ _
  simpa [List.append_assoc] using step

mutual

/-- The symbol of a derivation tree can be rewritten into the tokens at its leaves. -/
theorem Derivation.rewrites {symbol : Symbol} {tree : ParseTree} :
    Derivation symbol tree → ∃ tokens : List Token, tree.frontier = tokens.map .leaf ∧
      Relation.ReflTransGen Rewrite [symbol] (tokens.map fun token => .terminal token.terminal)
  | .leaf token => ⟨[token], by simp, .refl⟩
  | .node production below => by
      obtain ⟨tokens, leaves, rewrites⟩ := below.rewrites
      have step := Rewrite.replace [] [] production
      simp only [List.nil_append, List.append_nil] at step
      exact ⟨tokens, by simpa using leaves, .head step rewrites⟩

/-- The symbols of derivation trees can be rewritten into the tokens at their leaves. -/
theorem Derivations.rewrites {symbols : List Symbol} {trees : List ParseTree} :
    Derivations symbols trees →
      ∃ tokens : List Token, ParseTree.frontierAll trees = tokens.map .leaf ∧
        Relation.ReflTransGen Rewrite symbols (tokens.map fun token => .terminal token.terminal)
  | .nil => ⟨[], by simp, .refl⟩
  | @Derivations.cons _ symbols _ _ head tail => by
      obtain ⟨first, leaves, rewrites⟩ := head.rewrites
      obtain ⟨second, moreLeaves, moreRewrites⟩ := tail.rewrites
      refine ⟨first ++ second, by simp [leaves, moreLeaves], ?_⟩
      have left := rewrites_within [] symbols rewrites
      have right := rewrites_within (first.map fun token => .terminal token.terminal) []
        moreRewrites
      rw [List.append_nil, List.append_nil] at right
      rw [List.map_append]
      exact left.trans right

end

/-- The grammar derives a sequence of tokens exactly if the sequence has a derivation tree. -/
theorem derivable_iff (tokens : List Token) :
    Derivable (tokens.map Token.terminal) ↔
      ∃ tree, Derivation (.rule .root) tree ∧ tree.frontier = tokens.map .leaf := by
  rw [Derivable, List.map_map]
  constructor
  · intro rewrites
    obtain ⟨trees, derivations, leaves⟩ := exists_derivations rewrites
    cases derivations with
    | cons root none =>
        cases none
        exact ⟨_, root, by simpa using leaves⟩
  · rintro ⟨tree, derivation, leaves⟩
    obtain ⟨others, otherLeaves, rewrites⟩ := derivation.rewrites
    have same : others = tokens := ParseTree.map_leaf_inj.1 (otherLeaves.symm.trans leaves)
    exact same ▸ rewrites

end SumCalc

import Mathlib.Data.List.Forall2
import SumCalc.Proofs.Reading
import SumCalc.Source

/-!
# The two builders

On a tree of the shape that the grammar gives, folding each sum from its parts and reacting to the
events of a walk come to the same expression or the same failure. `Shaped` says which trees these
are. `Pushes` describes events on a builder that already holds expressions: the expressions of the
trees that ended are pushed on top of them, or a failure leaves some more on top.

Results:
1. `sumExpr_eq_mapM`: the expression of a sum is the chain of the expressions of its parts.
2. `pushes_shaped`: the events of a shaped tree push its expression.
3. `Shaped.toExpr_induction`, `exists_literal_of_failure`: on a shaped tree, all depends on the
   literals, and only a literal fails.
4. `shaped_of_ofSource`, `parse_of_ofSource`: the tree of a source and all trees below it are shaped,
   so either builder makes the same of it.
5. `builders_agree`: the two builders agree on shaped trees, and none is used out of order.
-/

namespace SumCalc

namespace ParseTree

/-! ## Sums as chains of their parts -/

/-- The rules among some trees, as trees. -/
def subtrees (trees : List ParseTree) : List ParseTree :=
  (branches trees).map fun branch => .rule branch.1 branch.2

theorem branches_append (front back : List ParseTree) :
    branches (front ++ back) = branches front ++ branches back := by
  induction front with
  | nil => rfl
  | cons tree rest ih => cases tree <;> simp [branches, ih]

theorem subtrees_append (front back : List ParseTree) :
    subtrees (front ++ back) = subtrees front ++ subtrees back := by
  rw [subtrees, subtrees, subtrees, ← List.map_append, branches_append]

theorem subtrees_leaf (token : Token) : subtrees [.leaf token] = [] := rfl

theorem subtrees_rule (name : String) (children : List ParseTree) :
    subtrees [.rule name children] = [.rule name children] := rfl

theorem moreExpr_eq_mapM (width : Width) (total : Expr) (addends : List (List ParseTree)) :
    moreExpr width total addends = do
      let parts ← addends.mapM (partExpr width)
      return total.chain parts := by
  induction addends generalizing total with
  | nil => rw [moreExpr]; rfl
  | cons addend addends ih =>
      rw [moreExpr, List.mapM_cons]
      cases partExpr width addend with
      | error failure => rfl
      | ok part =>
          simp only [bind, Except.bind, ih]
          cases addends.mapM (partExpr width) <;> rfl

/-- The expression of a sum with the given parts, which has to have some. -/
def chained : List Expr → Except Failure Expr
  | [] => .error (.malformed .emptySum)
  | first :: rest => .ok (first.chain rest)

/-- The expression of a sum is the chain of the expressions of its parts. -/
theorem sumExpr_eq_mapM (width : Width) (children : List ParseTree) :
    sumExpr width children = (addends children).mapM (partExpr width) >>= chained := by
  rw [sumExpr]
  split
  · next none =>
      rw [none]
      rfl
  · next first rest parts =>
      rw [parts, List.mapM_cons]
      cases partExpr width first with
      | error failure => rfl
      | ok total =>
          simp only [bind, Except.bind, moreExpr_eq_mapM]
          cases rest.mapM (partExpr width) <;> rfl

theorem toExpr_sum (width : Width) (children : List ParseTree) :
    (rule "sum" children).toExpr width = sumExpr width children := by
  show resume width (.sum children) [] = _
  rw [resume_sum]
  cases sumExpr width children with
  | error failure => rfl
  | ok e => simp [Except.bind, resume]

theorem toExpr_primitive (width : Width) (children : List ParseTree) :
    (rule "primitive" children).toExpr width = partExpr width children := by
  show resume width (.part children) [] = _
  rw [resume_part]
  cases partExpr width children with
  | error failure => rfl
  | ok e => simp [Except.bind, resume]

theorem toExpr_root {width : Width} {name : String} {children inner : List ParseTree}
    {others : List (String × List ParseTree)} (below : branches children = (name, inner) :: others) :
    (rule "root" children).toExpr width = sumExpr width inner := by
  rw [← toExpr_sum]
  simp [toExpr, label, children?, below, bind, Except.bind]

/-! ## Shapes -/

/-- Whether a number stands among some trees. -/
def HasNumber (trees : List ParseTree) : Prop :=
  ∃ lexeme place, token "NUMBER" lexeme place ∈ trees

theorem firstNumber?_eq_none_iff {trees : List ParseTree} :
    firstNumber? trees = none ↔ ¬ HasNumber trees := by
  induction trees with
  | nil => simp [firstNumber?, HasNumber]
  | cons tree rest ih =>
      cases tree with
      | rule name children => simpa [firstNumber?, HasNumber] using ih
      | text content => simpa [firstNumber?, HasNumber] using ih
      | token kind lexeme place =>
          by_cases number : kind = "NUMBER"
          · subst number
            simp only [firstNumber?, Terminal.name, if_true, reduceCtorEq, false_iff, not_not]
            exact ⟨lexeme, place, List.mem_cons_self⟩
          · have other : ¬ "NUMBER" = kind := fun same => number same.symm
            simpa [firstNumber?, HasNumber, Terminal.name, number, other] using ih

/-- Between parentheses stands no number. -/
theorem not_hasNumber_group {opening closing : Token} (isOpening : opening.terminal = .leftParen)
    (isClosing : closing.terminal = .rightParen) (name : String) (children : List ParseTree) :
    ¬ HasNumber [leaf opening, rule name children, leaf closing] := by
  rintro ⟨lexeme, place, member⟩
  simp [leaf, isOpening, isClosing, Terminal.name] at member

/-- The trees of the shape that the grammar gives. Tokens and texts may stand anywhere in them. -/
inductive Shaped : ParseTree → Prop
  /-- A `root` has one subtree, a `sum`. -/
  | root {children : List ParseTree} {sum : ParseTree} :
      subtrees children = [sum] → sum.label = "sum" → Shaped sum → Shaped (rule "root" children)
  /-- A `sum` has subtrees, and all of them are `primitive`. -/
  | sum {children : List ParseTree} :
      subtrees children ≠ [] → (∀ tree ∈ subtrees children, tree.label = "primitive") →
        (∀ tree ∈ subtrees children, Shaped tree) → Shaped (rule "sum" children)
  /-- A `primitive` has a number and no subtree, -/
  | literal {children : List ParseTree} :
      HasNumber children → subtrees children = [] → Shaped (rule "primitive" children)
  /-- or it has no number and one subtree, a `sum`. -/
  | group {children : List ParseTree} {sum : ParseTree} :
      ¬ HasNumber children → subtrees children = [sum] → sum.label = "sum" → Shaped sum →
        Shaped (rule "primitive" children)

theorem Shaped.exists_rule {tree : ParseTree} (shaped : Shaped tree) :
    ∃ name children, tree = rule name children := by
  cases shaped <;> exact ⟨_, _, rfl⟩

/-- The subtrees of a shaped sum. -/
theorem Shaped.parts {children : List ParseTree} (shaped : Shaped (rule "sum" children)) :
    subtrees children ≠ [] ∧ ∀ tree ∈ subtrees children, tree.label = "primitive" := by
  generalize same : rule "sum" children = tree at shaped
  cases shaped with
  | sum nonempty named _ =>
      cases same
      exact ⟨nonempty, named⟩
  | root | literal | group => simp at same

/-- A subtree that stands alone, with its name and its children. -/
theorem exists_branch {children : List ParseTree} {tree : ParseTree} {name : String}
    (single : subtrees children = [tree]) (named : tree.label = name) :
    ∃ inner, tree = rule name inner ∧ branches children = [(name, inner)] := by
  obtain ⟨branch, only, rfl⟩ := List.map_eq_singleton_iff.1 single
  obtain rfl : branch.1 = name := named
  exact ⟨branch.2, rfl, only⟩

theorem postorderAll_eq_flatMap (trees : List ParseTree) :
    postorderAll trees = (subtrees trees).flatMap postorder := by
  induction trees with
  | nil => rfl
  | cons tree rest ih =>
      cases tree with
      | rule name children => simp [postorderAll, ih, subtrees, branches]
      | token kind lexeme place => simpa [postorderAll, postorder, subtrees, branches] using ih
      | text content => simpa [postorderAll, postorder, subtrees, branches] using ih

theorem postorder_rule (name : String) (children : List ParseTree) :
    (rule name children).postorder =
      (subtrees children).flatMap postorder ++ [rule name children] := by
  rw [postorder, postorderAll_eq_flatMap]

/-- The parts of a sum are read as the trees they are. -/
theorem mapM_partExpr (width : Width) {children : List ParseTree}
    (named : ∀ tree ∈ subtrees children, tree.label = "primitive") :
    (addends children).mapM (partExpr width) = (subtrees children).mapM (toExpr width) := by
  unfold addends
  unfold subtrees at named ⊢
  generalize branches children = all at named ⊢
  induction all with
  | nil => rfl
  | cons branch rest ih =>
      have isPrimitive : branch.1 = "primitive" := named (rule branch.1 branch.2) List.mem_cons_self
      have others := ih fun tree member => named tree (List.mem_cons_of_mem _ member)
      simp only [List.map_cons, List.mapM_cons, others, isPrimitive, toExpr_primitive]

/-- The expression of a shaped sum is the chain of those of its subtrees. -/
theorem toExpr_shaped_sum (width : Width) {children : List ParseTree}
    (named : ∀ tree ∈ subtrees children, tree.label = "primitive") :
    (rule "sum" children).toExpr width = (subtrees children).mapM (toExpr width) >>= chained := by
  rw [toExpr_sum, sumExpr_eq_mapM, mapM_partExpr width named]

/-! ## Failures -/

theorem exists_of_mapM_error {α β : Type} {f : α → Except Failure β} {sources : List α}
    {failure : Failure} (failed : sources.mapM f = .error failure) :
    ∃ source ∈ sources, f source = .error failure := by
  induction sources with
  | nil => cases failed
  | cons source rest ih =>
      rw [List.mapM_cons] at failed
      cases first : f source with
      | error other =>
          rw [first] at failed
          cases failed
          exact ⟨source, List.mem_cons_self, first⟩
      | ok e =>
          rw [first] at failed
          cases others : rest.mapM f with
          | error other =>
              rw [others] at failed
              cases failed
              obtain ⟨culprit, member, fails⟩ := ih others
              exact ⟨culprit, List.mem_cons_of_mem _ member, fails⟩
          | ok es =>
              rw [others] at failed
              cases failed

/-- Going over a list gives a result exactly if each of its elements does. -/
theorem mapM_eq_ok_iff {α β : Type} {f : α → Except Failure β} {sources : List α} {results : List β} :
    sources.mapM f = .ok results ↔
      List.Forall₂ (fun source result => f source = .ok result) sources results := by
  induction sources generalizing results with
  | nil =>
      rw [List.forall₂_nil_left_iff]
      exact ⟨fun same => (Except.ok.inj same).symm, fun same => by rw [same]; rfl⟩
  | cons source rest ih =>
      simp only [List.mapM_cons, List.forall₂_cons_left_iff, ← ih]
      cases f source <;> cases rest.mapM f <;> simp [bind, Except.bind, pure, Except.pure, eq_comm]

theorem exists_of_mapM_ok {α β : Type} {f : α → Except Failure β} {sources : List α}
    {results : List β} (read : sources.mapM f = .ok results) {result : β}
    (member : result ∈ results) : ∃ source ∈ sources, f source = .ok result := by
  have pairs := mapM_eq_ok_iff.1 read
  clear read
  induction pairs with
  | nil => cases member
  | @cons source first sources rest gives _ ih =>
      rcases List.mem_cons.1 member with rfl | later
      · exact ⟨source, List.mem_cons_self, gives⟩
      · obtain ⟨other, inside, givesOther⟩ := ih later
        exact ⟨other, List.mem_cons_of_mem _ inside, givesOther⟩

theorem length_of_mapM_ok {α : Type} {f : α → Except Failure Expr} {sources : List α}
    {es : List Expr} (read : sources.mapM f = .ok es) : es.length = sources.length :=
  (mapM_eq_ok_iff.1 read).length_eq.symm

theorem partExpr_literal {width : Width} {children : List ParseTree} {lexeme : String}
    {place : Position} (number : firstNumber? children = some (lexeme, place)) :
    partExpr width children = Literal.read width lexeme place := by
  rw [partExpr, number]

theorem partExpr_group {width : Width} {children inner : List ParseTree}
    (literal : ¬ HasNumber children) (only : branches children = [("sum", inner)]) :
    partExpr width children = sumExpr width inner := by
  have none : firstNumber? children = none := firstNumber?_eq_none_iff.2 literal
  have one : grouped? children = some inner := by simp [grouped?, only]
  rw [partExpr, none]
  dsimp only
  split <;> simp_all

theorem sumExpr_single (width : Width) (children : List ParseTree) :
    sumExpr width [.rule "primitive" children] = partExpr width children := by
  rw [sumExpr_eq_mapM]
  show [children].mapM (partExpr width) >>= chained = _
  rw [List.mapM_cons]
  cases partExpr width children <;> rfl

/-- One more operand is added to the sum of those before. -/
theorem sumExpr_concat (width : Width) {front : List ParseTree} (nonempty : subtrees front ≠ [])
    (plus : Token) (children : List ParseTree) :
    sumExpr width (front ++ [.leaf plus, .rule "primitive" children]) = (do
      let total ← sumExpr width front
      let part ← partExpr width children
      return total.add part) := by
  have split : addends (front ++ [.leaf plus, .rule "primitive" children]) =
      addends front ++ [children] := by
    rw [addends, branches_append, List.map_append]
    rfl
  rw [sumExpr_eq_mapM, sumExpr_eq_mapM, split, List.mapM_append, List.mapM_cons, List.mapM_nil]
  cases read : (addends front).mapM (partExpr width) with
  | error failure => rfl
  | ok es =>
      cases es with
      | nil =>
          have none : (addends front).length = 0 := (length_of_mapM_ok read).symm
          rw [addends, List.length_map, ← List.length_map, List.length_eq_zero_iff] at none
          exact absurd none nonempty
      | cons first rest =>
          cases partExpr width children with
          | error failure => rfl
          | ok part =>
              show Except.ok (first.chain (rest ++ [part])) = _
              rw [Term.chain_concat]
              rfl

/-- What holds of the reading of every literal, and of the chain of parts if it holds of the parts,
holds of every shaped tree. -/
theorem Shaped.toExpr_induction {motive : (Width → Except Failure Expr) → Prop}
    (literal : ∀ lexeme place, motive fun width => Literal.read width lexeme place)
    (chain : ∀ trees : List ParseTree, trees ≠ [] →
      (∀ tree ∈ trees, motive fun width => tree.toExpr width) →
        motive fun width => trees.mapM (toExpr width) >>= chained)
    {tree : ParseTree} (shaped : Shaped tree) : motive fun width => tree.toExpr width := by
  induction shaped with
  | @root children sum single named _ ih =>
      obtain ⟨inner, rfl, only⟩ := exists_branch single named
      have same : (fun width => (rule "root" children).toExpr width) =
          fun width => (rule "sum" inner).toExpr width :=
        funext fun width => by rw [toExpr_root only, toExpr_sum]
      rw [same]
      exact ih
  | @sum children nonempty named _ ih =>
      have same : (fun width => (rule "sum" children).toExpr width) =
          fun width => (subtrees children).mapM (toExpr width) >>= chained :=
        funext fun width => toExpr_shaped_sum width named
      rw [same]
      exact chain _ nonempty ih
  | @literal children number _ =>
      cases found : firstNumber? children with
      | none => exact absurd number (firstNumber?_eq_none_iff.1 found)
      | some first =>
          have same : (fun width => (rule "primitive" children).toExpr width) =
              fun width => Literal.read width first.1 first.2 :=
            funext fun width => by rw [toExpr_primitive, partExpr_literal found]
          rw [same]
          exact literal first.1 first.2
  | @group children sum literal single named _ ih =>
      obtain ⟨inner, rfl, only⟩ := exists_branch single named
      have same : (fun width => (rule "primitive" children).toExpr width) =
          fun width => (rule "sum" inner).toExpr width :=
        funext fun width => by rw [toExpr_primitive, partExpr_group literal only, toExpr_sum]
      rw [same]
      exact ih

/-- On a shaped tree, only the reading of a literal fails. -/
theorem exists_literal_of_failure {width : Width} {tree : ParseTree} {failure : Failure}
    (shaped : Shaped tree) (failed : tree.toExpr width = .error failure) :
    ∃ lexeme place, Literal.read width lexeme place = .error failure := by
  revert failed
  refine shaped.toExpr_induction (motive := fun built => built width = .error failure →
    ∃ lexeme place, Literal.read width lexeme place = .error failure) ?_ ?_
  · exact fun lexeme place failed => ⟨lexeme, place, failed⟩
  · intro trees nonempty each failed
    dsimp only at failed
    cases parts : trees.mapM (toExpr width) with
    | error other =>
        obtain ⟨tree, member, fails⟩ := exists_of_mapM_error parts
        rw [parts] at failed
        cases failed
        exact each tree member fails
    | ok es =>
        have count := length_of_mapM_ok parts
        rw [parts] at failed
        cases es with
        | cons first rest => cases failed
        | nil => exact absurd (List.length_eq_zero_iff.1 count.symm) nonempty

end ParseTree

/-! ## Events -/

open ParseTree

namespace Builder

/-- `Pushes width below result outcome`: events on a builder that holds `below` push the expressions
of a result, or stop with its failure and some expressions left on top. -/
inductive Pushes (width : Width) (below : List Expr) :
    Except Failure (List Expr) → Except Stop Builder → Prop
  | pushed (es : List Expr) :
      Pushes width below (.ok es) (.ok ⟨width, .building (es.reverse ++ below)⟩)
  | stopped (failure : Failure) (left : List Expr) :
      Pushes width below (.error failure)
        (.error ⟨failure, ⟨width, .building (left ++ below)⟩⟩)

/-- The expression of a tree, as the one that its events push. -/
def single (result : Except Failure Expr) : Except Failure (List Expr) := result.map fun e => [e]

/-- What is pushed behind `e` is pushed together with `e`. -/
theorem Pushes.cons {width : Width} {below : List Expr} {e : Expr}
    {result : Except Failure (List Expr)} {outcome : Except Stop Builder}
    (pushes : Pushes width (e :: below) result outcome) :
    Pushes width below (do return e :: (← result)) outcome := by
  cases pushes with
  | pushed es =>
      have all : Pushes width below (.ok (e :: es)) _ := .pushed (e :: es)
      rw [List.reverse_cons, List.append_assoc] at all
      exact all
  | stopped failure left =>
      have stop : Pushes width below (.error failure) _ := .stopped failure (left ++ [e])
      rw [List.append_assoc] at stop
      exact stop

/-- The events of trees push their expressions if the events of each do so. -/
theorem pushes_all {width : Width} {trees : List ParseTree}
    (each : ∀ tree ∈ trees, ∀ below,
      Pushes width below (single (tree.toExpr width))
        (endAll ⟨width, .building below⟩ tree.postorder))
    (below : List Expr) :
    Pushes width below (trees.mapM (toExpr width))
      (endAll ⟨width, .building below⟩ (trees.flatMap postorder)) := by
  induction trees generalizing below with
  | nil => exact .pushed []
  | cons tree rest ih =>
      have first := each tree List.mem_cons_self below
      rw [List.flatMap_cons, endAll_append, List.mapM_cons]
      generalize endAll ⟨width, .building below⟩ tree.postorder = outcome at first ⊢
      cases read : tree.toExpr width with
      | error failure =>
          rw [read] at first
          cases first with
          | stopped _ left => exact .stopped failure left
      | ok e =>
          rw [read] at first
          cases first with
          | pushed =>
              -- the other trees find `e` on the stack and leave it there
              have others := ih (fun tree member => each tree (List.mem_cons_of_mem _ member))
                (e :: below)
              exact others.cons

/-- Events that push, followed by the end of a node that puts other expressions in the place of those
that were pushed. -/
theorem Pushes.before {width : Width} {below : List Expr} {result after : Except Failure (List Expr)}
    {builder : Builder} {trees : List ParseTree} {node : ParseTree}
    (pushes : Pushes width below result (builder.endAll trees))
    (pushed : ∀ es, result = .ok es → ∃ others, after = .ok others ∧
      endNode ⟨width, .building (es.reverse ++ below)⟩ node =
        .ok ⟨width, .building (others.reverse ++ below)⟩)
    (stopped : ∀ failure, result = .error failure → after = .error failure) :
    Pushes width below after (builder.endAll (trees ++ [node])) := by
  rw [endAll_append]
  generalize builder.endAll trees = outcome at pushes ⊢
  cases pushes with
  | pushed es =>
      obtain ⟨others, rfl, ends⟩ := pushed es rfl
      simp only [Except.bind, endAll, ends]
      exact .pushed others
  | stopped failure left =>
      obtain rfl := stopped failure rfl
      exact .stopped failure left

/-- When a sum ends whose parts are on top of the stack, its expression takes their place. -/
theorem endNode_sum {width : Width} {children : List ParseTree} {es : List Expr} {e : Expr}
    (count : es.length = (subtrees children).length) (sum : chained es = .ok e)
    (below : List Expr) :
    endNode ⟨width, .building (es.reverse ++ below)⟩ (.rule "sum" children) =
      .ok ⟨width, .building (e :: below)⟩ := by
  cases es with
  | nil => cases sum
  | cons first rest =>
      cases sum
      have parts : (branches children).length = rest.length + 1 := by
        simpa [subtrees] using count.symm
      show endSum _ _ = _
      simp only [endSum, open?, children?, bind, Except.bind, parts, reduce_append]
      rfl

/-- When a primitive without a number ends, nothing happens. -/
theorem endNode_group {children : List ParseTree} (literal : ¬ HasNumber children) (width : Width)
    (values : List Expr) :
    endNode ⟨width, .building values⟩ (.rule "primitive" children) =
      .ok ⟨width, .building values⟩ := by
  have none : firstNumber? children = none := firstNumber?_eq_none_iff.2 literal
  show endPrimitive _ _ = _
  simp only [endPrimitive, open?, children?, bind, Except.bind, none]
  rfl

/-- When a primitive with a number ends, its literal is read and pushed. -/
theorem endNode_literal {children : List ParseTree} {lexeme : String} {place : Position}
    (number : firstNumber? children = some (lexeme, place)) (width : Width) (values : List Expr) :
    endNode ⟨width, .building values⟩ (.rule "primitive" children) = do
      let e ← Literal.read width lexeme place
      return ⟨width, .building (e :: values)⟩ := by
  show endPrimitive _ _ = _
  simp only [endPrimitive, open?, children?, bind, Except.bind, number]
  rfl

/-- The events of a shaped tree push its expression. -/
theorem pushes_shaped (width : Width) {tree : ParseTree} (shaped : Shaped tree) :
    ∀ below, Pushes width below (single (tree.toExpr width))
      (endAll ⟨width, .building below⟩ tree.postorder) := by
  induction shaped with
  | @root children sum only named _ ih =>
      intro below
      -- the end of a root leaves the expression of its sum where it is
      obtain ⟨inner, rfl, branch⟩ := exists_branch only named
      rw [postorder_rule, only, List.flatMap_singleton, toExpr_root branch, ← toExpr_sum]
      exact (ih below).before (fun es read => ⟨es, read, rfl⟩) (fun failure read => read)
  | @sum children nonempty named _ ih =>
      intro below
      have parts := pushes_all ih below
      rw [postorder_rule, toExpr_shaped_sum width named]
      -- when the sum ends, exactly the expressions of its parts are above `below`
      refine parts.before (fun es read => ?_) (fun failure read => by rw [read]; rfl)
      have count := length_of_mapM_ok read
      cases es with
      | nil => exact absurd (List.length_eq_zero_iff.1 count.symm) nonempty
      | cons first rest =>
          refine ⟨[first.chain rest], by rw [read]; rfl, ?_⟩
          exact endNode_sum count rfl below
  | @literal children number alone =>
      intro below
      rw [postorder_rule, alone, toExpr_primitive]
      cases found : firstNumber? children with
      | none => exact absurd number (firstNumber?_eq_none_iff.1 found)
      | some literal =>
          rw [partExpr_literal found]
          simp only [List.flatMap_nil, List.nil_append, endAll, endNode_literal found]
          cases Literal.read width literal.1 literal.2 with
          | error failure => exact .stopped failure []
          | ok e => exact .pushed [e]
  | @group children sum literal only named _ ih =>
      intro below
      -- nor does the end of a group
      obtain ⟨inner, rfl, branch⟩ := exists_branch only named
      rw [postorder_rule, only, List.flatMap_singleton, toExpr_primitive,
        partExpr_group literal branch, ← toExpr_sum]
      exact (ih below).before (fun es read => ⟨es, read, endNode_group literal width _⟩)
        (fun failure read => read)

/-- A walk of a shaped tree on a new builder comes to the expression of the tree. -/
theorem walkExpr_shaped (width : Width) {tree : ParseTree} (shaped : Shaped tree) :
    tree.walkExpr width = tree.toExpr width := by
  have pushes := pushes_shaped width shaped []
  obtain ⟨name, children, rfl⟩ := shaped.exists_rule
  rw [walkExpr, walk_rule, new]
  generalize endAll ⟨width, .building []⟩ (ParseTree.rule name children).postorder = outcome
    at pushes ⊢
  generalize (ParseTree.rule name children).toExpr width = result at pushes ⊢
  cases result with
  | error failure =>
      cases pushes
      rfl
  | ok e =>
      cases pushes
      rfl

end Builder

/-- On a shaped tree, every kind of builder gives the expression of the tree. -/
theorem BuilderKind.build_shaped (kind : BuilderKind) (width : Width) {tree : ParseTree}
    (shaped : Shaped tree) : kind.build width tree = tree.toExpr width := by
  cases kind with
  | recursive => rfl
  | stack => exact Builder.walkExpr_shaped width shaped

/-! ## Trees of sources -/

theorem mem_subtrees {tree : ParseTree} {trees : List ParseTree} :
    tree ∈ subtrees trees ↔ tree ∈ trees ∧ ∃ name children, tree = .rule name children := by
  induction trees with
  | nil => simp [subtrees, branches]
  | cons first rest ih =>
      cases first with
      | rule name children =>
          have head : subtrees (.rule name children :: rest) =
              .rule name children :: subtrees rest := rfl
          rw [head, List.mem_cons, List.mem_cons, ih]
          grind
      | token kind lexeme place =>
          have head : subtrees (.token kind lexeme place :: rest) = subtrees rest := rfl
          rw [head, List.mem_cons, ih]
          grind
      | text content =>
          have head : subtrees (.text content :: rest) = subtrees rest := rfl
          rw [head, List.mem_cons, ih]
          grind

theorem IsPrimitive.exists_rule {tree : ParseTree} (primitive : IsPrimitive tree) :
    ∃ children, tree = .rule "primitive" children := by
  cases primitive <;> exact ⟨_, rfl⟩

theorem shaped_sum_of_parts {parts : List ParseTree} (isParts : IsParts .operator parts)
    (shaped : ∀ tree ∈ subtrees parts, tree.label = "primitive" ∧ Shaped tree) :
    Shaped (.rule "sum" parts.reverse) := by
  have same : ∀ tree, tree ∈ subtrees parts.reverse ↔ tree ∈ subtrees parts := by
    simp [mem_subtrees]
  refine .sum ?_ (fun tree member => (shaped tree ((same tree).1 member)).1)
    (fun tree member => (shaped tree ((same tree).1 member)).2)
  cases isParts with
  | @operand tree parts begun primitive =>
      obtain ⟨children, rfl⟩ := primitive.exists_rule
      have member : ParseTree.rule "primitive" children ∈ subtrees _ :=
        (same _).2 (mem_subtrees.2 ⟨List.mem_cons_self, _, _, rfl⟩)
      exact List.ne_nil_of_mem member

mutual

theorem IsPrimitive.shaped {tree : ParseTree} : IsPrimitive tree → Shaped tree
  | @IsPrimitive.number number isNumber => by
      have leaf : ParseTree.leaf number = .token "NUMBER" number.text number.place := by
        rw [ParseTree.leaf, isNumber]
        rfl
      exact .literal ⟨number.text, number.place, by simp [leaf]⟩ rfl
  | @IsPrimitive.group opening closing parts isOpening isClosing isParts => by
      have literal := not_hasNumber_group isOpening isClosing "sum" parts.reverse
      exact .group literal rfl rfl (shaped_sum_of_parts isParts isParts.shaped)

theorem IsParts.shaped {awaited : Awaited} {parts : List ParseTree} : IsParts awaited parts →
    ∀ tree ∈ subtrees parts, tree.label = "primitive" ∧ Shaped tree
  | .nil => by simp [subtrees, branches]
  | .operand begun primitive => by
      have lastShaped := primitive.shaped
      have othersShaped := begun.shaped
      intro tree member
      obtain ⟨inside, isRule⟩ := mem_subtrees.1 member
      rcases List.mem_cons.1 inside with rfl | earlier
      · obtain ⟨children, same⟩ := primitive.exists_rule
        exact ⟨by rw [same]; rfl, lastShaped⟩
      · exact othersShaped tree (mem_subtrees.2 ⟨earlier, isRule⟩)
  | .plus begun isPlus => by
      have othersShaped := begun.shaped
      intro tree member
      obtain ⟨inside, isRule⟩ := mem_subtrees.1 member
      rcases List.mem_cons.1 inside with rfl | earlier
      · obtain ⟨name, children, same⟩ := isRule
        cases same
      · exact othersShaped tree (mem_subtrees.2 ⟨earlier, isRule⟩)

end

theorem Derivation.shaped {tree : ParseTree} (derivation : Derivation (.rule .root) tree) :
    Shaped tree := by
  obtain ⟨parts, isParts, rfl⟩ := derivation_root_iff.1 derivation
  exact .root rfl rfl (shaped_sum_of_parts isParts isParts.shaped)

/-- The rules below a shaped tree are shaped. -/
theorem ParseTree.Shaped.of_mem_postorder {tree sub : ParseTree} (shaped : Shaped tree)
    (member : sub ∈ tree.postorder) : Shaped sub := by
  induction shaped with
  | @root children sum only named shaped ih =>
      rw [postorder_rule, only, List.flatMap_singleton, List.mem_append, List.mem_singleton]
        at member
      rcases member with below | rfl
      · exact ih below
      · exact .root only named shaped
  | @sum children nonempty named shaped ih =>
      rw [postorder_rule, List.mem_append, List.mem_flatMap, List.mem_singleton] at member
      rcases member with ⟨part, inside, below⟩ | rfl
      · exact ih part inside below
      · exact .sum nonempty named shaped
  | @literal children number alone =>
      rw [postorder_rule, alone, List.flatMap_nil, List.nil_append, List.mem_singleton] at member
      exact member ▸ .literal number alone
  | @group children sum literal only named shaped ih =>
      rw [postorder_rule, only, List.flatMap_singleton, List.mem_append, List.mem_singleton]
        at member
      rcases member with below | rfl
      · exact ih below
      · exact .group literal only named shaped

/-- The tree of a source and all rules below it are shaped. -/
theorem shaped_of_ofSource {source : String} {tree sub : ParseTree}
    (read : ParseTree.ofSource source = .ok tree) (member : sub ∈ tree.postorder) : Shaped sub := by
  obtain ⟨tokens, -, derivation, -⟩ := (ofSource_eq_ok_iff source tree).1 read
  exact derivation.shaped.of_mem_postorder member

/-- The expression of a source is that of its tree, whichever builder is at work. -/
theorem parse_of_ofSource (config : Config) {source : String} {tree : ParseTree}
    (read : ParseTree.ofSource source = .ok tree) :
    Source.parse config source = tree.toExpr config.width := by
  obtain ⟨tokens, -, derivation, -⟩ := (ofSource_eq_ok_iff source tree).1 read
  rw [Source.parse, read]
  exact config.builder.build_shaped config.width derivation.shaped

theorem exists_tree_of_parse {config : Config} {source : String} {e : Expr}
    (parsed : Source.parse config source = .ok e) :
    ∃ tree, ParseTree.ofSource source = .ok tree ∧ tree.toExpr config.width = .ok e := by
  cases read : ParseTree.ofSource source with
  | ok tree => exact ⟨tree, rfl, (parse_of_ofSource config read).symm.trans parsed⟩
  | error rejection =>
      rw [Source.parse, read] at parsed
      cases parsed

/-- The two builders agree on every shaped tree, and neither rejects one as a misuse of a builder.
The tree of a source and all rules below it are shaped. -/
theorem builders_agree :
    (∀ (config : Config) (tree : ParseTree), Shaped tree →
      BuilderKind.stack.build config.width tree = BuilderKind.recursive.build config.width tree ∧
      ∀ kind rejection fault,
        BuilderKind.build kind config.width tree = .error (.rejected rejection) →
          rejection.cause ≠ .misuse fault) ∧
    ∀ source tree, ParseTree.ofSource source = .ok tree → ∀ sub ∈ tree.postorder, Shaped sub := by
  constructor
  · intro config tree shaped
    refine ⟨BuilderKind.stack.build_shaped config.width shaped, ?_⟩
    intro kind rejection fault failed
    rw [kind.build_shaped config.width shaped] at failed
    obtain ⟨lexeme, place, fails⟩ := exists_literal_of_failure shaped failed
    rw [Literal.eq_of_read_rejected fails]
    exact Cause.noConfusion
  · exact fun source tree read sub member => shaped_of_ofSource read member

/-- A sum that no source has: a text stands between its parts, a group opens with a comma, and a
second number follows the one that overflows. Both builders stop at the first of the two. -/
theorem builders_agree_stray_text :
    ∃ tree, Shaped tree ∧
      BuilderKind.stack.build .bits8 tree = BuilderKind.recursive.build .bits8 tree ∧
      BuilderKind.recursive.build .bits8 tree =
        .error (.rejected (.located ⟨2, 3⟩ (.literalOverflow "200" 8))) := by
  have literal : Shaped (rule "primitive" [token "NUMBER" "001" ⟨1, 2⟩]) :=
    .literal ⟨"001", ⟨1, 2⟩, List.mem_cons_self⟩ rfl
  have inner : Shaped (rule "sum" [rule "primitive" [token "NUMBER" "001" ⟨1, 2⟩]]) :=
    .sum (List.cons_ne_nil _ _) (by simp [subtrees, branches, label])
      (by simpa [subtrees, branches] using literal)
  have group : Shaped (rule "primitive" [token "COMMA" "," ⟨1, 1⟩,
      rule "sum" [rule "primitive" [token "NUMBER" "001" ⟨1, 2⟩]]]) :=
    .group (by simp [HasNumber]) rfl rfl inner
  have twice : Shaped (rule "primitive"
      [token "NUMBER" "200" ⟨2, 3⟩, text "and", token "NUMBER" "300" ⟨2, 8⟩]) :=
    .literal ⟨"200", ⟨2, 3⟩, List.mem_cons_self⟩ rfl
  have shaped : Shaped (rule "sum"
      [rule "primitive" [token "COMMA" "," ⟨1, 1⟩,
        rule "sum" [rule "primitive" [token "NUMBER" "001" ⟨1, 2⟩]]],
      text "plus",
      rule "primitive"
        [token "NUMBER" "200" ⟨2, 3⟩, text "and", token "NUMBER" "300" ⟨2, 8⟩]]) :=
    .sum (List.cons_ne_nil _ _) (by simp [subtrees, branches, label])
      (by simpa [subtrees, branches] using ⟨group, twice⟩)
  have agree := (builders_agree.1 ⟨.bits8, .fail, .stack⟩ _ shaped).1
  exact ⟨_, shaped, agree, by with_unfolding_all rfl⟩

end SumCalc

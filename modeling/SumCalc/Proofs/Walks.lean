import SumCalc.Proofs.Building
import SumCalc.Proofs.Histories

/-!
# Walks on the same builder

Shaped trees are walked one after the other on one builder, and it lives on after those that fail. A
walk never touches what it finds on the stack, so it can only succeed where it finds nothing. What a
failed walk leaves there stays for good, and so does the result of the first walk that succeeds.

Results:
1. `walkEnds_shaped`: what the walk of a shaped tree does to a builder that is not complete.
2. `succeeds_iff`: a walk succeeds exactly if it finds a builder as good as new and the tree has an
   expression.
3. `depth_pos_append`: a stack that is not empty never becomes empty again.
4. `walks_unmixed`: which of many walks succeeds, and what the builder makes of it.
-/

namespace SumCalc

open ParseTree

namespace Builder

/-! ## One walk -/

/-- `WalkEnds width below result outcome`: the walk of a tree with this result on a builder that holds
`below` ends with this outcome. -/
inductive WalkEnds (width : Width) (below : List Expr) :
    Except Failure Expr → Builder × Outcome → Prop
  /-- On an empty stack, the expression of the tree completes the builder. -/
  | succeeds {e : Expr} :
      below = [] → WalkEnds width below (.ok e) (⟨width, .complete e⟩, .done)
  /-- On any other stack, it is pushed, and then it is not alone. -/
  | crowded {e : Expr} :
      below ≠ [] →
        WalkEnds width below (.ok e)
          (⟨width, .building (e :: below)⟩, .failed (refusal (.unbalanced (below.length + 1))))
  /-- A tree without expression leaves some expressions on top of the stack. -/
  | stops {failure : Failure} (others : List Expr) :
      WalkEnds width below (.error failure)
        (⟨width, .building (others ++ below)⟩, .failed failure)

theorem walkEnds_shaped (width : Width) {tree : ParseTree} (shaped : Shaped tree)
    (below : List Expr) :
    WalkEnds width below (tree.toExpr width) (perform ⟨width, .building below⟩ (.walk tree)) := by
  have pushes := pushes_shaped width shaped below
  obtain ⟨name, children, rfl⟩ := shaped.exists_rule
  rw [perform, walk_rule]
  generalize endAll ⟨width, .building below⟩ (ParseTree.rule name children).postorder = outcome
    at pushes ⊢
  generalize (ParseTree.rule name children).toExpr width = result at pushes ⊢
  cases result with
  | error failure =>
      cases pushes with
      | stopped _ others => exact .stops others
  | ok e =>
      cases pushes
      cases below with
      | nil => exact .succeeds rfl
      | cons value below => exact .crowded (List.cons_ne_nil _ _)

/-! ## Walks one after the other -/

/-- The builder after walks of trees, one after the other. -/
def walked (width : Width) (trees : List ParseTree) : Builder :=
  (new width).after (trees.map .walk)

/-- After walks of the trees in `front`, the walk of `tree` succeeds. -/
def Succeeds (width : Width) (front : List ParseTree) (tree : ParseTree) : Prop :=
  ((walked width front).perform (.walk tree)).2 = .done

theorem walked_snoc (width : Width) (front : List ParseTree) (tree : ParseTree) :
    walked width (front ++ [tree]) = ((walked width front).perform (.walk tree)).1 := by
  rw [walked, List.map_append, after_append]
  rfl

/-- A builder is complete after walks exactly if one of them succeeded. -/
theorem completed_walks_iff {width : Width} {trees : List ParseTree} :
    (new width).Completed (trees.map .walk) ↔
      ∃ front tree back, trees = front ++ tree :: back ∧ Succeeds width front tree := by
  constructor
  · rintro ⟨front, operation, back, split, -, done⟩
    obtain ⟨first, rest, rfl, rfl, same⟩ := List.map_eq_append_iff.1 split
    obtain ⟨tree, others, rfl, rfl, rfl⟩ := List.map_eq_cons_iff.1 same
    exact ⟨first, tree, others, rfl, done⟩
  · rintro ⟨front, tree, back, rfl, done⟩
    exact ⟨front.map .walk, .walk tree, back.map .walk, by simp, trivial, done⟩

/-- The two states that walks may leave a builder in. -/
theorem walked_cases (width : Width) (trees : List ParseTree) :
    (∃ values, walked width trees = ⟨width, .building values⟩ ∧
      ∀ front tree back, trees = front ++ tree :: back → ¬ Succeeds width front tree) ∨
    ∃ e, walked width trees = ⟨width, .complete e⟩ ∧
      ∃ front tree back, trees = front ++ tree :: back ∧ Succeeds width front tree := by
  rcases after_cases width (trees.map .walk) keeps_nil with
    ⟨values, state, -, incomplete⟩ | ⟨e, state, -, complete⟩
  · refine .inl ⟨values, state, fun front tree back split done => incomplete ?_⟩
    exact completed_walks_iff.2 ⟨front, tree, back, split, done⟩
  · exact .inr ⟨e, state, completed_walks_iff.1 complete⟩

/-- A walk succeeds exactly if it finds a builder as good as new and the tree has an expression. -/
theorem succeeds_iff {width : Width} {front : List ParseTree} {tree : ParseTree}
    (shaped : Shaped tree) :
    Succeeds width front tree ↔
      walked width front = new width ∧ ∃ e, tree.toExpr width = .ok e := by
  unfold Succeeds
  rcases walked_cases width front with ⟨below, state, -⟩ | ⟨e, state, -⟩
  · rw [state]
    have ends := walkEnds_shaped width shaped below
    generalize perform ⟨width, .building below⟩ (.walk tree) = outcome at ends ⊢
    generalize tree.toExpr width = result at ends ⊢
    cases ends with
    | succeeds empty =>
        subst empty
        exact iff_of_true rfl ⟨rfl, _, rfl⟩
    | crowded some => exact iff_of_false nofun fun found => some (by cases found.1; rfl)
    | stops others => exact iff_of_false nofun nofun
  · obtain ⟨name, children, rfl⟩ := shaped.exists_rule
    rw [state, perform_walk_complete]
    exact iff_of_false nofun nofun

/-- A walk that succeeds leaves the expression of its tree. -/
theorem walked_of_succeeds {width : Width} {front : List ParseTree} {tree : ParseTree}
    (shaped : Shaped tree) (done : Succeeds width front tree) :
    ∃ e, tree.toExpr width = .ok e ∧ walked width (front ++ [tree]) = ⟨width, .complete e⟩ := by
  obtain ⟨empty, e, read⟩ := (succeeds_iff shaped).1 done
  refine ⟨e, read, ?_⟩
  have ends := walkEnds_shaped width shaped []
  rw [walked_snoc, empty, new]
  rw [read] at ends
  generalize perform ⟨width, .building []⟩ (.walk tree) = outcome at ends ⊢
  cases ends with
  | succeeds => rfl
  | crowded some => exact absurd rfl some

/-- A stack that is not empty never becomes empty again. -/
theorem depth_pos_append {width : Width} {front : List ParseTree}
    (some : 0 < (walked width front).depth) {more : List ParseTree}
    (shaped : ∀ tree ∈ more, Shaped tree) : 0 < (walked width (front ++ more)).depth := by
  induction more using List.reverseRecOn with
  | nil => rwa [List.append_nil]
  | append_singleton more tree ih =>
      have before := ih fun tree member => shaped tree (List.mem_append_left _ member)
      have last : Shaped tree := shaped tree (by simp)
      rw [← List.append_assoc, walked_snoc]
      rcases walked_cases width (front ++ more) with ⟨below, state, -⟩ | ⟨e, state, -⟩
      · rw [state] at before ⊢
        have ends := walkEnds_shaped width last below
        generalize perform ⟨width, .building below⟩ (.walk tree) = outcome at ends ⊢
        generalize tree.toExpr width = result at ends
        cases ends with
        | succeeds => exact Nat.one_pos
        | crowded => exact Nat.succ_pos _
        | stops others =>
            have most : below.length ≤ (others ++ below).length := by simp
            exact Nat.lt_of_lt_of_le before most
      · rw [state, (perform_complete width e _).1]
        exact Nat.one_pos

/-- On a stack that is not empty, no walk succeeds, however many come before it. -/
theorem not_succeeds_of_depth_pos {width : Width} {front more : List ParseTree} {tree : ParseTree}
    (some : 0 < (walked width front).depth) (shaped : ∀ tree ∈ more, Shaped tree)
    (last : Shaped tree) : ¬ Succeeds width (front ++ more) tree := by
  intro done
  have still := depth_pos_append some shaped
  rw [((succeeds_iff last).1 done).1] at still
  exact absurd still (Nat.lt_irrefl 0)

/-- Behind a walk that succeeds, no walk succeeds. -/
theorem not_succeeds_of_succeeds {width : Width} {front more : List ParseTree}
    {tree later : ParseTree} (done : Succeeds width front tree) (first : Shaped tree)
    (shaped : ∀ tree ∈ more, Shaped tree) (last : Shaped later) :
    ¬ Succeeds width (front ++ tree :: more) later := by
  obtain ⟨e, -, complete⟩ := walked_of_succeeds first done
  have some : 0 < (walked width (front ++ [tree])).depth := by
    rw [complete]
    exact Nat.one_pos
  have never := not_succeeds_of_depth_pos some shaped last
  rwa [List.append_assoc] at never

/-- Of two walks that succeed, none comes before the other. -/
theorem front_eq_of_succeeds {width : Width} {front back front' back' : List ParseTree}
    {tree tree' : ParseTree} (same : front ++ tree :: back = front' ++ tree' :: back')
    (shaped : ∀ part ∈ front ++ tree :: back, Shaped part) (done : Succeeds width front tree)
    (done' : Succeeds width front' tree') : front = front' := by
  rcases List.append_eq_append_iff.1 same with ⟨more, rfl, split⟩ | ⟨more, rfl, split⟩
  · cases more with
    | nil => exact (List.append_nil front).symm
    | cons first more =>
        cases split
        have never : ¬ Succeeds width (front ++ tree :: more) tree' :=
          not_succeeds_of_succeeds done (shaped _ (by simp))
            (fun tree member => shaped tree (by simp [member])) (shaped tree' (by simp))
        exact absurd done' never
  · cases more with
    | nil => exact List.append_nil front'
    | cons first more =>
        cases split
        have never : ¬ Succeeds width (front' ++ tree' :: more) tree :=
          not_succeeds_of_succeeds done' (shaped _ (by simp))
            (fun tree member => shaped tree (by simp [member])) (shaped tree (by simp))
        exact absurd done never

/-- The result of a builder after walks is the expression of the tree whose walk succeeded. -/
theorem exists_of_result {width : Width} {trees : List ParseTree}
    (shaped : ∀ tree ∈ trees, Shaped tree) {e : Expr}
    (found : (walked width trees).result = .ok e) :
    ∃ front tree back, trees = front ++ tree :: back ∧ Succeeds width front tree ∧
      tree.toExpr width = .ok e := by
  rcases walked_cases width trees with ⟨values, state, -⟩ | ⟨last, state, front, tree, back, rfl, done⟩
  · rw [state] at found
    cases found
  · refine ⟨front, tree, back, rfl, done, ?_⟩
    obtain ⟨other, read, complete⟩ := walked_of_succeeds (shaped tree (by simp)) done
    -- the walks behind the one that succeeded change nothing
    have final : walked width (front ++ tree :: back) = ⟨width, .complete other⟩ := by
      have split : walked width (front ++ tree :: back) =
          (walked width (front ++ [tree])).after (back.map .walk) := by
        rw [walked, walked, ← after_append]
        simp
      rw [split, complete]
      exact (after_complete width other _).1
    rw [final] at found
    cases found
    exact read

/-! ## Many walks -/

/-- Shaped trees are walked on one builder. A walk succeeds exactly if none did before, it finds an
empty stack, and the tree has an expression. So at most one walk succeeds; the result, if there is
one, is the expression of its tree; and once a failed walk leaves something on the stack, no later
walk succeeds. -/
theorem walks_unmixed (width : Width) (trees : List ParseTree)
    (shaped : ∀ tree ∈ trees, Shaped tree) :
    (∀ front tree back, trees = front ++ tree :: back →
      (Succeeds width front tree ↔
        (∀ earlier other later, front = earlier ++ other :: later →
          ¬ Succeeds width earlier other) ∧
        (walked width front).depth = 0 ∧
        ∃ e, BuilderKind.recursive.build width tree = .ok e)) ∧
    (∀ front tree back front' tree' back',
      trees = front ++ tree :: back → trees = front' ++ tree' :: back' →
        Succeeds width front tree → Succeeds width front' tree' → front = front') ∧
    (∀ e, (walked width trees).result = .ok e →
      ∃ front tree back, trees = front ++ tree :: back ∧ Succeeds width front tree ∧
        BuilderKind.recursive.build width tree = .ok e) ∧
    ∀ front tree middle later back, trees = front ++ tree :: (middle ++ later :: back) →
      ¬ Succeeds width front tree → 0 < (walked width (front ++ [tree])).depth →
        ¬ Succeeds width (front ++ tree :: middle) later := by
  refine ⟨?_, ?_, fun e => exists_of_result shaped, ?_⟩
  · rintro front tree back rfl
    have here : Shaped tree := shaped tree (by simp)
    rw [succeeds_iff here]
    rcases walked_cases width front with
      ⟨below, state, none⟩ | ⟨e, state, earlier, other, later, split, done⟩
    · -- no walk has succeeded, so the stack decides
      have empty : walked width front = new width ↔ (walked width front).depth = 0 := by
        rw [state]
        cases below with
        | nil => exact iff_of_true rfl rfl
        | cons value below => exact iff_of_false nofun nofun
      rw [empty]
      exact ⟨fun found => ⟨none, found⟩, fun found => found.2⟩
    · -- a walk has succeeded, and the builder is complete
      rw [state]
      exact iff_of_false (by rintro ⟨⟨⟩, -⟩) fun found => found.1 earlier other later split done
  · rintro front tree back front' tree' back' rfl same done done'
    exact front_eq_of_succeeds same shaped done done'
  · rintro front tree middle later back rfl - some
    have never : ¬ Succeeds width (front ++ [tree] ++ middle) later :=
      not_succeeds_of_depth_pos some (fun tree member => shaped tree (by simp [member]))
        (shaped later (by simp))
    rwa [List.append_assoc] at never

/-- At eight bits, a literal that is too great leaves the stack empty, and the next tree gets through
but the one behind it does not. If a literal before the one that is too great is left, no tree gets
through. -/
theorem walks_unmixed_bits8 :
    ∃ small great sum : ParseTree,
      (∀ tree ∈ [small, great, sum], Shaped tree) ∧
      Succeeds .bits8 [great] small ∧ ¬ Succeeds .bits8 [great, small] small ∧
      (∃ e, (walked .bits8 [great, small, small]).result = .ok e ∧
        BuilderKind.recursive.build .bits8 small = .ok e) ∧
      ¬ Succeeds .bits8 [sum] small := by
  let literal (lexeme : String) (place : Position) : ParseTree :=
    .rule "primitive" [.token "NUMBER" lexeme place]
  have literal_shaped : ∀ lexeme place, Shaped (literal lexeme place) := fun lexeme place =>
    .literal ⟨lexeme, place, List.mem_cons_self⟩ rfl
  let small := literal "05" ⟨1, 1⟩
  let great := literal "200" ⟨1, 3⟩
  let sum := ParseTree.rule "sum" [small, great]
  have smallShaped : Shaped small := literal_shaped _ _
  have greatShaped : Shaped great := literal_shaped _ _
  have sumShaped : Shaped sum := by
    refine .sum (List.cons_ne_nil _ _) ?_ ?_
    · simp [subtrees, branches, small, great, literal, label]
    · simpa [subtrees, branches, small, great, literal] using ⟨smallShaped, greatShaped⟩
  have value : BuilderKind.recursive.build .bits8 small = .ok (.number 5 (some ⟨1, 1⟩)) := by cbv
  obtain ⟨-, once, -, -⟩ := walks_unmixed .bits8 [great, small, small]
    (by simp [smallShaped, greatShaped])
  obtain ⟨-, -, -, blocked⟩ := walks_unmixed .bits8 [sum, small]
    (by simp [smallShaped, sumShaped])
  have first : Succeeds .bits8 [great] small := by cbv
  refine ⟨small, great, sum, by simp [smallShaped, greatShaped, sumShaped], first, ?_, ?_, ?_⟩
  · intro second
    have same := once _ _ [small] _ _ [] rfl rfl first second
    cases same
  · have found : (walked .bits8 [great, small, small]).result = .ok (.number 5 (some ⟨1, 1⟩)) := by
      cbv
    exact ⟨_, found, value⟩
  · refine blocked [] sum [] small [] rfl ?_ ?_
    · have fails : ((walked .bits8 []).perform (.walk sum)).2 =
          .failed (.rejected (.located ⟨1, 3⟩ (.literalOverflow "200" 8))) := by cbv
      rw [Succeeds, fails]
      rintro ⟨⟩
    · have one : (walked .bits8 [sum]).depth = 1 := by cbv
      rw [List.nil_append, one]
      exact Nat.one_pos

end Builder

end SumCalc

import Mathlib.Logic.Function.Iterate
import Mathlib.Tactic.SplitIfs
import SumCalc.Builder.Walk

/-!
# The calls of a walk

A walk keeps the rules still to come on a stack. A rule is taken off and put back to be left later,
and the rules below it are put above it, the last one first; when it comes up again, it makes the call
that its name asks for, if any. When the stack is empty, `finish` is called. A call that fails ends the
walk. `Walking` is such a walk with all calls made so far.

`Walking.outcome` says what is going to come of a walk: the calls of the nodes that are still to end,
children before parents and from left to right, and then `finish`, up to the first that fails. A turn
does not change it and leaves less work, so the turns end with it.

Results:
1. `outcome_turn`, `work_turn`: what one turn preserves, and that work gets less.
2. `turns_eq`: the turns end with the outcome of the walk.
3. `makeAll_calls`, `makeAll_cases`: calls made one after the other.
4. `walk_calls`: on every tree and from every builder, the calls are those of the nodes in post-order.
-/

namespace SumCalc

namespace Builder

/-! ## Calls -/

/-- A call that a walk makes on a builder. -/
inductive Call
  | endPrimitive (tree : ParseTree)
  | endSum (tree : ParseTree)
  | finish

namespace Call

/-- What a call makes of a builder. -/
def apply (builder : Builder) : Call → Except Failure Builder
  | endPrimitive tree => builder.endPrimitive tree
  | endSum tree => builder.endSum tree
  | finish => builder.finish

/-- The call that the end of a node asks for. Builders know no other names. -/
def ofNode? (tree : ParseTree) : Option Call :=
  if tree.label = "primitive" then some (endPrimitive tree)
  else if tree.label = "sum" then some (endSum tree)
  else none

theorem ofNode?_ne_finish (tree : ParseTree) : ofNode? tree ≠ some finish := by
  unfold ofNode?
  split_ifs <;> exact nofun

end Call

theorem endNode_eq_apply (builder : Builder) (tree : ParseTree) :
    builder.endNode tree =
      match Call.ofNode? tree with
      | some call => call.apply builder
      | none => .ok builder := by
  unfold endNode Call.ofNode?
  split_ifs <;> rfl

/-- Makes calls one after the other, up to the first that fails. The result comes with all calls that
were made. -/
def makeAll (builder : Builder) : List Call → Except Stop Builder × List Call
  | [] => (.ok builder, [])
  | call :: rest =>
      match call.apply builder with
      | .ok next => ((next.makeAll rest).1, call :: (next.makeAll rest).2)
      | .error failure => (.error ⟨failure, builder⟩, [call])

end Builder

/-- The calls that the nodes of a tree ask for, those of children before those of their parents and from
left to right. -/
def ParseTree.calls (tree : ParseTree) : List Builder.Call :=
  tree.postorder.filterMap Builder.Call.ofNode?

namespace Builder

/-! ## Walks with the calls made -/

/-- The rules among some trees are put on a stack, one after the other. -/
def pushEach : List ParseTree → List Task → List Task
  | [], stack => stack
  | .rule name children :: rest, stack => pushEach rest (.enter name children :: stack)
  | _ :: rest, stack => pushEach rest stack

/-- A walk part way through, or what came of it, with the calls made so far. -/
inductive Walking
  | running (stack : List Task) (builder : Builder) (made : List Call)
  | ended (result : Except Stop Builder) (made : List Call)

namespace Walking

/-- Makes a call. A failure ends the walk and leaves the builder as it was. -/
def make (call : Call) (builder : Builder) (made : List Call)
    (next : Builder → List Call → Walking) : Walking :=
  match call.apply builder with
  | .ok after => next after (made ++ [call])
  | .error failure => .ended (.error ⟨failure, builder⟩) (made ++ [call])

/-- One turn: the uppermost task is taken off the stack and done. -/
def turn : Walking → Walking
  | .running [] builder made => make .finish builder made fun after made => .ended (.ok after) made
  | .running (.enter name children :: stack) builder made =>
      .running (pushEach children.reverse (.leave name children :: stack)) builder made
  | .running (.leave name children :: stack) builder made =>
      match Call.ofNode? (.rule name children) with
      | none => .running stack builder made
      | some call => make call builder made (.running stack)
  | .ended result made => .ended result made

/-- The calls that tasks are going to make, and the last one. -/
def coming (stack : List Task) : List Call :=
  (stack.flatMap Task.ends).filterMap Call.ofNode? ++ [.finish]

/-- What is going to come of a walk, with all calls that are going to have been made. -/
def outcome : Walking → Except Stop Builder × List Call
  | .running stack builder made =>
      ((builder.makeAll (coming stack)).1, made ++ (builder.makeAll (coming stack)).2)
  | .ended result made => (result, made)

/-- The work that a walk still takes. -/
def work : Walking → Nat
  | .running stack _ _ => Task.workAll stack + 1
  | .ended _ _ => 0

end Walking

/-! ## One turn -/

theorem pushEach_append (front back : List ParseTree) (stack : List Task) :
    pushEach (front ++ back) stack = pushEach back (pushEach front stack) := by
  induction front generalizing stack with
  | nil => rfl
  | cons tree rest ih => cases tree <;> exact ih _

/-- Put on a stack from the last one on, rules are in order from the top. -/
theorem pushEach_reverse (trees : List ParseTree) (stack : List Task) :
    pushEach trees.reverse stack = entries trees ++ stack := by
  induction trees with
  | nil => rfl
  | cons tree rest ih =>
      rw [List.reverse_cons, pushEach_append, ih]
      cases tree <;> rfl

namespace Walking

theorem outcome_make (call : Call) (builder : Builder) (made : List Call)
    (next : Builder → List Call → Walking) :
    (make call builder made next).outcome =
      match call.apply builder with
      | .ok after => (next after (made ++ [call])).outcome
      | .error failure => (.error ⟨failure, builder⟩, made ++ [call]) := by
  unfold make
  cases call.apply builder <;> rfl

theorem coming_enter (name : String) (children : List ParseTree) (stack : List Task) :
    coming (pushEach children.reverse (.leave name children :: stack)) =
      coming (.enter name children :: stack) := by
  rw [pushEach_reverse, coming, List.flatMap_append, flatMap_entries]
  simp only [coming, List.flatMap_cons, Task.ends, ParseTree.postorder, List.append_assoc]

theorem coming_leave (name : String) (children : List ParseTree) (stack : List Task) :
    coming (.leave name children :: stack) =
      (Call.ofNode? (.rule name children)).toList ++ coming stack := by
  rw [coming, List.flatMap_cons, Task.ends, List.singleton_append, List.filterMap_cons]
  cases Call.ofNode? (.rule name children) <;> rfl

/-- A turn does not change what is going to come of a walk. -/
theorem outcome_turn (walking : Walking) : walking.turn.outcome = walking.outcome := by
  match walking with
  | .ended result made => rfl
  | .running [] builder made =>
      have last : coming [] = [.finish] := rfl
      rw [turn, outcome_make, outcome, last, makeAll]
      cases Call.finish.apply builder <;> rfl
  | .running (.enter name children :: stack) builder made =>
      rw [turn, outcome, outcome, coming_enter]
  | .running (.leave name children :: stack) builder made =>
      rw [turn, outcome, coming_leave]
      cases Call.ofNode? (.rule name children) with
      | none => rfl
      | some call =>
          simp only [outcome_make, Option.toList, List.cons_append, List.nil_append, makeAll]
          cases call.apply builder with
          | error failure => rfl
          | ok after => simp only [outcome, List.append_assoc, List.cons_append, List.nil_append]

theorem work_make_le {call : Call} {builder : Builder} {made : List Call}
    {next : Builder → List Call → Walking} {bound : Nat}
    (least : ∀ after made, (next after made).work ≤ bound) :
    (make call builder made next).work ≤ bound := by
  unfold make
  cases call.apply builder with
  | ok after => exact least after _
  | error failure => exact Nat.zero_le bound

/-- A turn leaves less work. -/
theorem work_turn (stack : List Task) (builder : Builder) (made : List Call) :
    (running stack builder made).turn.work < (running stack builder made).work := by
  match stack with
  | [] =>
      have done : (running [] builder made).turn.work ≤ 0 := work_make_le fun _ _ => Nat.le_refl _
      exact Nat.lt_succ_of_le done
  | .enter name children :: stack =>
      have bound := workAll_entries_le children
      rw [turn, work, work, pushEach_reverse, Task.workAll_append]
      simp only [Task.workAll, Task.work]
      omega
  | .leave name children :: stack =>
      have left : (running (.leave name children :: stack) builder made).turn.work ≤
          Task.workAll stack + 1 := by
        rw [turn]
        cases Call.ofNode? (.rule name children) with
        | none => exact Nat.le_refl _
        | some call => exact work_make_le fun _ _ => Nat.le_refl _
      simp only [work, Task.workAll, Task.work] at left ⊢
      omega

/-- The turns end with the outcome of the walk, and there are no more of them than the work. -/
theorem turns_eq (walking : Walking) {turns : Nat} (enough : walking.work ≤ turns) :
    turn^[turns] walking = .ended walking.outcome.1 walking.outcome.2 := by
  induction turns generalizing walking with
  | zero =>
      cases walking with
      | ended result made => rfl
      | running stack builder made => exact absurd enough (Nat.not_succ_le_zero _)
  | succ turns ih =>
      rw [Function.iterate_succ_apply, ← outcome_turn]
      refine ih _ ?_
      cases walking with
      | ended result made => exact Nat.zero_le turns
      | running stack builder made =>
          exact Nat.le_of_lt_succ (Nat.lt_of_lt_of_le (work_turn stack builder made) enough)

end Walking

/-! ## Calls one after the other -/

/-- The calls of nodes, and then the last one, come to what the end of these nodes comes to. -/
theorem makeAll_calls (builder : Builder) (nodes : List ParseTree) :
    (builder.makeAll (nodes.filterMap Call.ofNode? ++ [.finish])).1 = (do
      let builder ← builder.endAll nodes
      builder.finish.mapError fun failure => ⟨failure, builder⟩) := by
  induction nodes generalizing builder with
  | nil =>
      show (builder.makeAll [.finish]).1 = builder.finish.mapError _
      cases ended : builder.finish <;> simp only [makeAll, Call.apply, ended] <;> rfl
  | cons tree rest ih =>
      rw [endAll, endNode_eq_apply, List.filterMap_cons]
      cases Call.ofNode? tree with
      | none => exact ih builder
      | some call =>
          rw [List.cons_append, makeAll]
          dsimp only
          cases call.apply builder with
          | error failure => rfl
          | ok next => exact ih next

/-- Either all calls are made, or the first that fails is the last one made. -/
theorem makeAll_cases (builder : Builder) (calls : List Call) :
    (∃ next, builder.makeAll calls = (.ok next, calls) ∧
      calls.foldlM Call.apply builder = .ok next) ∨
    ∃ front call back reached failure, calls = front ++ call :: back ∧
      builder.makeAll calls = (.error ⟨failure, reached⟩, front ++ [call]) ∧
      front.foldlM Call.apply builder = .ok reached ∧ call.apply reached = .error failure := by
  induction calls generalizing builder with
  | nil => exact .inl ⟨builder, rfl, rfl⟩
  | cons call rest ih =>
      cases applied : call.apply builder with
      | error failure =>
          exact .inr ⟨[], call, rest, builder, failure, rfl, by simp only [makeAll, applied]; rfl,
            rfl, applied⟩
      | ok after =>
          rcases ih after with ⟨next, all, folded⟩ |
            ⟨front, failing, back, reached, failure, rfl, made, folded, fails⟩
          · refine .inl ⟨next, by simp only [makeAll, applied, all], ?_⟩
            rw [List.foldlM_cons, applied]
            exact folded
          · refine .inr ⟨call :: front, failing, back, reached, failure, rfl,
              by simp only [makeAll, applied, made]; rfl, ?_, fails⟩
            rw [List.foldlM_cons, applied]
            exact folded

theorem finish_not_mem_calls (tree : ParseTree) : Call.finish ∉ tree.calls := by
  intro member
  obtain ⟨node, -, found⟩ := List.mem_filterMap.1 member
  exact Call.ofNode?_ne_finish node found

/-- A walk of a tree always ends, whatever the tree and the builder are like. It makes the calls of the
nodes in post-order, one for each `sum` and each `primitive` and none for others, and then calls
`finish`. If one of the calls fails, it is the last one: those before it have been made, `finish` is not
called, and the builder is as these calls left it. -/
theorem walk_calls (builder : Builder) (name : String) (children : List ParseTree) :
    ∃ result made,
      (∀ turns, 2 * (ParseTree.rule name children).size + 1 ≤ turns →
        Walking.turn^[turns] (.running [.enter name children] builder []) = .ended result made) ∧
      builder.walk (.rule name children) = result ∧
      ((∃ next, result = .ok next ∧ made = (ParseTree.rule name children).calls ++ [.finish] ∧
          made.foldlM Call.apply builder = .ok next) ∨
        (∃ reached failure, result = .error ⟨failure, reached⟩ ∧
          made = (ParseTree.rule name children).calls ++ [.finish] ∧
          (ParseTree.rule name children).calls.foldlM Call.apply builder = .ok reached ∧
          reached.finish = .error failure) ∨
        ∃ front call back reached failure, result = .error ⟨failure, reached⟩ ∧
          (ParseTree.rule name children).calls = front ++ call :: back ∧ made = front ++ [call] ∧
          .finish ∉ made ∧ front.foldlM Call.apply builder = .ok reached ∧
          call.apply reached = .error failure) := by
  let tree := ParseTree.rule name children
  have coming : Walking.coming [.enter name children] = tree.calls ++ [.finish] := by
    simp only [Walking.coming, List.flatMap_singleton]
    rfl
  refine ⟨(builder.makeAll (tree.calls ++ [.finish])).1,
    (builder.makeAll (tree.calls ++ [.finish])).2, fun turns enough => ?turns, ?walk, ?cases⟩
  case turns =>
    have least : (Walking.running [.enter name children] builder []).work ≤ turns := by
      refine Nat.le_trans (Nat.le_of_eq ?_) enough
      simp only [Walking.work, Task.workAll, Task.work, ParseTree.size]
      omega
    rw [Walking.turns_eq _ least, Walking.outcome, coming]
    rfl
  case walk =>
    rw [walk_rule]
    exact (makeAll_calls builder tree.postorder).symm
  case cases =>
    rcases makeAll_cases builder (tree.calls ++ [.finish]) with ⟨next, all, folded⟩ |
      ⟨front, call, back, reached, failure, split, made, folded, fails⟩
    · rw [all]
      exact .inl ⟨next, rfl, rfl, folded⟩
    · rw [made]
      rcases List.eq_nil_or_concat back with rfl | ⟨others, last, rfl⟩
      · obtain ⟨same, single⟩ := List.append_inj' split rfl
        cases single
        exact .inr (.inl ⟨reached, failure, rfl, by rw [← same], same ▸ folded, fails⟩)
      · rw [List.concat_eq_append, ← List.cons_append, ← List.append_assoc] at split
        have within := (List.append_inj' split rfl).1
        have absent : Call.finish ∉ front ++ [call] := by
          intro member
          refine finish_not_mem_calls tree ?_
          rw [within, List.append_cons]
          exact List.mem_append_left others member
        exact .inr (.inr ⟨front, call, others, reached, failure, rfl, within, rfl, absent, folded,
          fails⟩)

/-- The second number stands below a rule of another name and is too great for eight bits. The first
one is on the stack by then; neither the third one nor `finish` is called for. -/
theorem walk_calls_stopped :
    let children := [ParseTree.rule "primitive" [.token "NUMBER" "1" ⟨1, 1⟩], .text "+",
      .rule "note" [.rule "primitive" [.token "NUMBER" "200" ⟨1, 3⟩]],
      .rule "primitive" [.token "NUMBER" "3" ⟨1, 7⟩]]
    ∃ made, Walking.turn^[20] (.running [.enter "sum" children] (new .bits8) []) =
        .ended (.error ⟨.rejected (.located ⟨1, 3⟩ (.literalOverflow "200" 8)),
          ⟨.bits8, .building [.number 1 (some ⟨1, 1⟩)]⟩⟩) made ∧ .finish ∉ made := by
  intro children
  have stopped : (new .bits8).walk (.rule "sum" children) =
      .error ⟨.rejected (.located ⟨1, 3⟩ (.literalOverflow "200" 8)),
        ⟨.bits8, .building [.number 1 (some ⟨1, 1⟩)]⟩⟩ := by
    with_unfolding_all rfl
  obtain ⟨result, made, turns, walked, ending⟩ := walk_calls (new .bits8) "sum" children
  obtain rfl := walked.symm.trans stopped
  refine ⟨made, turns 20 (by decide), ?_⟩
  rcases ending with ⟨next, ok, -⟩ | ⟨reached, failure, same, -, -, fails⟩ |
    ⟨front, call, back, reached, failure, -, -, -, absent, -⟩
  · cases ok
  · cases same
    cases fails
  · exact absent

end Builder

end SumCalc

import SumCalc.Builder

/-!
# Walks

`Builder.walk` lets the nodes of a tree end one after the other, children before parents and from
left to right, and then the tree as a whole. The nodes still to come are kept in a list, so that the
depth of the tree is bounded by no call stack. `run_eq_endAll` and `walk_rule` say that their order is
that of `ParseTree.postorder`. `Builder.perform` is one operation of many on the same builder, which
lives on after a failure.
-/

namespace SumCalc

namespace Builder

/-- A walk that came to an end early. -/
structure Stop where
  failure : Failure
  /-- The builder when the failing event came. -/
  builder : Builder

/-- What a walk has still to do at a node. -/
inductive Task
  /-- The rules below a rule are still to end, and then the rule itself. -/
  | enter (name : String) (children : List ParseTree)
  /-- Only the rule itself is still to end. -/
  | leave (name : String) (children : List ParseTree)

/-- The number of steps of a task. -/
def Task.work : Task → Nat
  | enter _ children => 2 * ParseTree.sizeAll children + 2
  | leave .. => 1

/-- The rules among some trees, to be entered. -/
def entries (trees : List ParseTree) : List Task :=
  (ParseTree.branches trees).map fun branch => .enter branch.1 branch.2

/-- The number of steps of some tasks. -/
def Task.workAll : List Task → Nat
  | [] => 0
  | task :: tasks => task.work + workAll tasks

theorem Task.workAll_append (front back : List Task) :
    workAll (front ++ back) = workAll front + workAll back := by
  induction front with
  | nil => simp [workAll]
  | cons task tasks ih => simp only [List.cons_append, workAll, ih]; omega

theorem workAll_entries_le (trees : List ParseTree) :
    Task.workAll (entries trees) ≤ 2 * ParseTree.sizeAll trees := by
  have bound := ParseTree.sizeEach_branches_le trees
  have double : ∀ branches : List (String × List ParseTree),
      Task.workAll (branches.map fun branch => .enter branch.1 branch.2) =
        2 * ParseTree.sizeEach (branches.map Prod.snd) := by
    intro branches
    induction branches with
    | nil => rfl
    | cons branch rest ih =>
        simp only [List.map_cons, Task.workAll, ih, Task.work, ParseTree.sizeEach]
        omega
  rw [entries, double]
  omega

/-- Does tasks one after the other. -/
def run (builder : Builder) : List Task → Except Stop Builder
  | [] => .ok builder
  | .enter name children :: tasks =>
      run builder (entries children ++ .leave name children :: tasks)
  | .leave name children :: tasks =>
      match builder.endNode (.rule name children) with
      | .ok builder => run builder tasks
      | .error failure => .error ⟨failure, builder⟩
termination_by tasks => Task.workAll tasks
decreasing_by
  · have bound := workAll_entries_le children
    simp only [Task.workAll_append, Task.workAll, Task.work]
    omega
  · simp only [Task.workAll, Task.work]
    omega

/-- Lets the nodes of a tree end, and then the tree. A leaf cannot be walked. -/
def walk (builder : Builder) (tree : ParseTree) : Except Stop Builder := do
  let children ← tree.children?.mapError fun failure => ⟨failure, builder⟩
  let builder ← builder.run [.enter tree.label children]
  builder.finish.mapError fun failure => ⟨failure, builder⟩

/-- Lets nodes end one after the other. -/
def endAll (builder : Builder) : List ParseTree → Except Stop Builder
  | [] => .ok builder
  | tree :: rest =>
      match builder.endNode tree with
      | .ok builder => builder.endAll rest
      | .error failure => .error ⟨failure, builder⟩

theorem endAll_append (builder : Builder) (front back : List ParseTree) :
    builder.endAll (front ++ back) =
      (builder.endAll front).bind fun builder => builder.endAll back := by
  induction front generalizing builder with
  | nil => rfl
  | cons tree rest ih =>
      simp only [List.cons_append, endAll]
      cases builder.endNode tree with
      | error failure => rfl
      | ok next => exact ih next

/-- The nodes that a task lets end, in their order. -/
def Task.ends : Task → List ParseTree
  | enter name children => (ParseTree.rule name children).postorder
  | leave name children => [.rule name children]

theorem flatMap_entries (trees : List ParseTree) :
    (entries trees).flatMap Task.ends = ParseTree.postorderAll trees := by
  induction trees with
  | nil => rfl
  | cons tree rest ih =>
      cases tree <;> simp_all [entries, ParseTree.branches, ParseTree.postorderAll,
        ParseTree.postorder, Task.ends]

/-- Tasks let nodes end in the order of their trees. -/
theorem run_eq_endAll (builder : Builder) (tasks : List Task) :
    builder.run tasks = builder.endAll (tasks.flatMap Task.ends) := by
  induction builder, tasks using run.induct with
  | case1 builder => simp [run, endAll]
  | case2 builder name children tasks ih =>
      rw [run, ih]
      simp [flatMap_entries, Task.ends, ParseTree.postorder]
  | case3 builder name children tasks next ended ih =>
      rw [run]
      simp only [List.flatMap_cons, Task.ends, List.cons_append, List.nil_append, endAll, ended]
      exact ih
  | case4 builder name children tasks failure ended =>
      rw [run]
      simp only [List.flatMap_cons, Task.ends, List.cons_append, List.nil_append, endAll, ended]

/-- A walk lets the nodes of a tree end in their order, and then the tree. -/
theorem walk_rule (builder : Builder) (name : String) (children : List ParseTree) :
    builder.walk (.rule name children) = (do
      let builder ← builder.endAll (ParseTree.rule name children).postorder
      builder.finish.mapError fun failure => ⟨failure, builder⟩) := by
  have nodes : builder.run [.enter name children] =
      builder.endAll (ParseTree.rule name children).postorder := by
    rw [run_eq_endAll]
    simp [Task.ends]
  rw [← nodes]
  rfl

/-- One operation on a builder. -/
inductive Operation
  | endPrimitive (tree : ParseTree)
  | endSum (tree : ParseTree)
  | walk (tree : ParseTree)
  | finish
  | result

/-- What an operation returns besides the builder it leaves behind. -/
inductive Outcome
  | done
  | result (e : Expr)
  | failed (failure : Failure)

/-- The builder after an operation that may fail: a failure leaves it as it was. -/
def settle (builder : Builder) : Except Failure Builder → Builder × Outcome
  | .ok next => (next, .done)
  | .error failure => (builder, .failed failure)

/-- The builder after an operation, and what the operation returns. -/
def perform (builder : Builder) : Operation → Builder × Outcome
  | .endPrimitive tree => builder.settle (builder.endPrimitive tree)
  | .endSum tree => builder.settle (builder.endSum tree)
  | .walk tree =>
      match builder.walk tree with
      | .ok next => (next, .done)
      | .error stop => (stop.builder, .failed stop.failure)
  | .finish => builder.settle builder.finish
  | .result =>
      match builder.result with
      | .ok e => (builder, .result e)
      | .error failure => (builder, .failed failure)

end Builder

namespace ParseTree

/-- The expression that a new builder makes of a tree. -/
def walkExpr (width : Width) (tree : ParseTree) : Except Failure Expr :=
  match (Builder.new width).walk tree with
  | .ok builder => builder.result
  | .error stop => .error stop.failure

end ParseTree

end SumCalc

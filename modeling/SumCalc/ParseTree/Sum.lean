import SumCalc.Literal
import SumCalc.ParseTree

/-!
# Expressions of parse trees

A `sum` denotes the sum of the rules among its children, from left to right. Each of them denotes
the first number among its children or, without any, the one `sum` among them. `ParseTree.sumExpr`
says this by recursion; `ParseTree.toExpr` computes it with the open sums kept in a list, so that
its depth is bounded by no call stack. `resume_part`, `resume_sum` and `resume_value` say that they
agree.
-/

namespace SumCalc.ParseTree

/-- The children of the rules among some trees. -/
def addends (trees : List ParseTree) : List (List ParseTree) := (branches trees).map Prod.snd

theorem sizeEach_addends_le (trees : List ParseTree) :
    sizeEach (addends trees) ≤ sizeAll trees :=
  sizeEach_branches_le trees

/-- The children of the one `sum` among some trees. -/
def grouped? (trees : List ParseTree) : Option (List ParseTree) :=
  match branches trees with
  | [(name, inner)] => if name = "sum" then some inner else none
  | _ => none

theorem sizeAll_of_grouped? {trees inner : List ParseTree} (one : grouped? trees = some inner) :
    sizeAll inner < sizeAll trees := by
  unfold grouped? at one
  split at one
  · next name found only =>
      split at one
      · have bound := sizeEach_branches_le trees
        simp only [Option.some.injEq] at one
        subst one
        simp only [only, List.map_cons, List.map_nil, sizeEach] at bound
        omega
      · simp at one
  · simp at one

mutual

/-- The expression of an addend with the given children. -/
def partExpr (width : Width) (children : List ParseTree) : Except Failure Expr :=
  match firstNumber? children with
  | some (lexeme, place) => Literal.read width lexeme place
  | none =>
      match _one : grouped? children with
      | some inner => sumExpr width inner
      | none => .error (.malformed .ungrouped)
termination_by 3 * sizeAll children + 2
decreasing_by
  have smaller := sizeAll_of_grouped? _one
  omega

/-- The expression of a sum with the given children. -/
def sumExpr (width : Width) (children : List ParseTree) : Except Failure Expr :=
  match _all : addends children with
  | [] => .error (.malformed .emptySum)
  | first :: rest => do
      let total ← partExpr width first
      moreExpr width total rest
termination_by 3 * sizeAll children + 1
decreasing_by
  all_goals
    have bound := sizeEach_addends_le children
    simp only [_all, sizeEach] at bound
    omega

/-- The sum of an expression and further addends. -/
def moreExpr (width : Width) (total : Expr) : List (List ParseTree) → Except Failure Expr
  | [] => .ok total
  | next :: rest => do
      let part ← partExpr width next
      moreExpr width (total.add part) rest
termination_by addends => 3 * sizeEach addends
decreasing_by
  all_goals
    simp only [sizeEach]
    omega

end

/-- A sum being folded. -/
structure SumFrame where
  /-- The sum of the addends before the one being read, if there are any. -/
  total : Option Expr
  /-- The addends after the one being read. -/
  pending : List (List ParseTree)

/-- What is to be given to the innermost sum being folded. -/
inductive SumFocus
  /-- An addend with the given children. -/
  | part (children : List ParseTree)
  /-- A sum with the given children. -/
  | sum (children : List ParseTree)
  /-- The expression of an addend. -/
  | value (e : Expr)

/-- The work that a sum being folded still takes. -/
def SumFrame.work (frame : SumFrame) : Nat :=
  3 * sizeEach frame.pending + 1

/-- The work that sums being folded still take. -/
def SumFrame.workAll : List SumFrame → Nat
  | [] => 0
  | frame :: frames => frame.work + workAll frames

/-- The work that a focus still takes. -/
def SumFocus.work : SumFocus → Nat
  | part children => 3 * sizeAll children + 2
  | sum children => 3 * sizeAll children + 2
  | value _ => 0

/-- The sum of a frame together with the addend that was read. -/
def SumFrame.close (frame : SumFrame) (e : Expr) : Expr :=
  match frame.total with
  | none => e
  | some total => total.add e

/-- Reads what is in focus within the sums being folded, the innermost first. -/
def resume (width : Width) : SumFocus → List SumFrame → Except Failure Expr
  | .part children, frames =>
      match firstNumber? children with
      | some (lexeme, place) =>
          match Literal.read width lexeme place with
          | .ok e => resume width (.value e) frames
          | .error failure => .error failure
      | none =>
          match _one : grouped? children with
          | some inner => resume width (.sum inner) frames
          | none => .error (.malformed .ungrouped)
  | .sum children, frames =>
      match _all : addends children with
      | [] => .error (.malformed .emptySum)
      | first :: rest => resume width (.part first) (⟨none, rest⟩ :: frames)
  | .value e, [] => .ok e
  | .value e, frame :: frames =>
      match _more : frame.pending with
      | [] => resume width (.value (frame.close e)) frames
      | next :: rest => resume width (.part next) (⟨some (frame.close e), rest⟩ :: frames)
termination_by focus frames => focus.work + SumFrame.workAll frames
decreasing_by
  · simp only [SumFocus.work]
    omega
  · have smaller := sizeAll_of_grouped? _one
    simp only [SumFocus.work]
    omega
  · have bound := sizeEach_addends_le children
    simp only [_all, sizeEach] at bound
    simp only [SumFocus.work, SumFrame.workAll, SumFrame.work]
    omega
  · simp only [SumFocus.work, SumFrame.workAll, SumFrame.work]
    omega
  · simp only [SumFocus.work, SumFrame.workAll, SumFrame.work, sizeEach, _more]
    omega

mutual

/-- Reading an addend within frames is giving its expression to them. -/
theorem resume_part (width : Width) (children : List ParseTree) (frames : List SumFrame) :
    resume width (.part children) frames =
      (partExpr width children).bind fun e => resume width (.value e) frames := by
  rw [resume, partExpr]
  cases firstNumber? children with
  | some found =>
      obtain ⟨lexeme, place⟩ := found
      dsimp only
      cases Literal.read width lexeme place <;> rfl
  | none =>
      dsimp only
      split
      · next inner one =>
          have smaller := sizeAll_of_grouped? one
          exact resume_sum width inner frames
      · rfl
termination_by 3 * sizeAll children + 2

/-- Reading a sum within frames is giving its expression to them. -/
theorem resume_sum (width : Width) (children : List ParseTree) (frames : List SumFrame) :
    resume width (.sum children) frames =
      (sumExpr width children).bind fun e => resume width (.value e) frames := by
  rw [resume, sumExpr]
  split
  · rfl
  · next first rest all =>
      have bound : sizeAll first + 1 + sizeEach rest ≤ sizeAll children := by
        simpa [all, sizeEach] using sizeEach_addends_le children
      rw [resume_part width first]
      cases partExpr width first with
      | error failure => rfl
      | ok e => exact resume_value width ⟨none, rest⟩ e frames
termination_by 3 * sizeAll children + 1
decreasing_by all_goals omega

/-- Giving an expression to a frame is giving the sum of its other addends to the frames around. -/
theorem resume_value (width : Width) (frame : SumFrame) (e : Expr) (frames : List SumFrame) :
    resume width (.value e) (frame :: frames) =
      (moreExpr width (frame.close e) frame.pending).bind fun e =>
        resume width (.value e) frames := by
  obtain ⟨total, pending⟩ := frame
  rw [resume]
  cases pending with
  | nil => rw [moreExpr]; rfl
  | cons next rest =>
      rw [moreExpr]
      dsimp only
      rw [resume_part width next]
      cases partExpr width next with
      | error failure => rfl
      | ok part => exact resume_value width ⟨some _, rest⟩ part frames
termination_by 3 * sizeEach frame.pending
decreasing_by
  all_goals
    simp only [sizeEach]
    omega

end

/-- The children of a rule; a leaf has none to offer. -/
def children? : ParseTree → Except Failure (List ParseTree)
  | rule _ children => .ok children
  | token .. => .error (.malformed (.childless .token))
  | text _ => .error (.malformed (.childless .text))

/-- The expression of a tree: of the first rule below a `root`, of a `sum`, or of a `primitive`. -/
def toExpr (width : Width) (tree : ParseTree) : Except Failure Expr := do
  if tree.label = "root" then
    match branches (← tree.children?) with
    | [] => .error (.malformed .emptyRoot)
    | (_, first) :: _ => resume width (.sum first) []
  else if tree.label = "sum" then resume width (.sum (← tree.children?)) []
  else if tree.label = "primitive" then resume width (.part (← tree.children?)) []
  else .error (.malformed (.unsupported tree.label))

end SumCalc.ParseTree

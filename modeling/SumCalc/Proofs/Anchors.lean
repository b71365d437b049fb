import SumCalc.Term

/-!
# Where sums begin

An expression is `Anchored` if each sum in it carries the place of its leftmost number. Adding keeps
this, since `Term.add` takes over the place of the left part.

Results:
1. `leaves_chain`: the numbers of a chain are those of its parts, one after the other.
2. `length_leaves`: an expression has one number more than sums.
3. `Anchored.chain`: a chain of anchored parts is anchored.
4. `Anchored.isSome_of_mem_placesOnto`: if the numbers of an anchored expression have places, so has
   every part of it.
-/

namespace SumCalc

namespace Term

/-! ## Numbers of an expression -/

theorem leaves_add (left right : Expr) : (left.add right).leaves = left.leaves ++ right.leaves := rfl

theorem leaves_chain (first : Expr) (rest : List Expr) :
    (first.chain rest).leaves = (first :: rest).flatMap Term.leaves := by
  induction rest generalizing first with
  | nil => simp [chain]
  | cons e rest ih =>
      have step : first.chain (e :: rest) = (first.add e).chain rest := rfl
      rw [step, ih]
      simp [leaves_add]

/-- The number of sums within an expression. -/
def plusCount : Expr → Nat
  | number _ _ => 0
  | plus l r _ => l.plusCount + r.plusCount + 1

theorem length_leaves (e : Expr) : e.leaves.length = e.plusCount + 1 := by
  induction e with
  | number n place => rfl
  | plus l r place ihl ihr =>
      rw [leaves, List.length_append, ihl, ihr, plusCount]
      omega
  | foreign a => exact a.elim

theorem leaves_ne_nil (e : Expr) : e.leaves ≠ [] := by
  intro none
  have count := e.length_leaves
  rw [none] at count
  cases count

/-! ## Anchored expressions -/

/-- The place of the leftmost number of an expression. -/
def firstPlace (e : Expr) : Option Position := e.leaves.head?.bind Prod.snd

theorem firstPlace_plus (left right : Expr) (place : Option Position) :
    firstPlace (.plus left right place) = left.firstPlace := by
  obtain ⟨leaf, others, first⟩ := List.exists_cons_of_ne_nil left.leaves_ne_nil
  simp [firstPlace, leaves, first]

theorem isSome_firstPlace {e : Expr} (known : ∀ leaf ∈ e.leaves, leaf.2.isSome = true) :
    e.firstPlace.isSome = true := by
  obtain ⟨leaf, others, first⟩ := List.exists_cons_of_ne_nil e.leaves_ne_nil
  have here := known leaf (by simp [first])
  simpa [firstPlace, first] using here

/-- Each sum in an expression carries the place of its leftmost number. -/
def Anchored : Expr → Prop
  | number _ _ => True
  | plus left right place => place = left.firstPlace ∧ left.Anchored ∧ right.Anchored

theorem Anchored.place_eq {e : Expr} (anchored : e.Anchored) : e.place = e.firstPlace := by
  cases e with
  | number n place => rfl
  | plus left right place =>
      rw [firstPlace_plus]
      exact anchored.1
  | foreign a => exact a.elim

theorem Anchored.add {left right : Expr} (first : left.Anchored) (second : right.Anchored) :
    (left.add right).Anchored :=
  ⟨first.place_eq, first, second⟩

theorem Anchored.chain {first : Expr} {rest : List Expr} (anchored : first.Anchored)
    (others : ∀ e ∈ rest, e.Anchored) : (first.chain rest).Anchored := by
  induction rest generalizing first with
  | nil => exact anchored
  | cons e rest ih =>
      have both := anchored.add (others e List.mem_cons_self)
      exact ih both fun e member => others e (List.mem_cons_of_mem _ member)

/-- If all numbers of an anchored expression have places, so have all its sums. -/
theorem Anchored.isSome_of_mem_placesOnto {e : Expr} (anchored : e.Anchored)
    (known : ∀ leaf ∈ e.leaves, leaf.2.isSome = true) {rest : List (Option Position)}
    (others : ∀ place ∈ rest, place.isSome = true) :
    ∀ place ∈ e.placesOnto rest, place.isSome = true := by
  induction e generalizing rest with
  | number n origin =>
      have here := known (n, origin) List.mem_cons_self
      intro place member
      rcases List.mem_cons.1 member with rfl | later
      · exact here
      · exact others place later
  | plus left right origin ihl ihr =>
      obtain ⟨rfl, first, second⟩ := anchored
      have leftKnown := fun leaf member => known leaf (List.mem_append_left _ member)
      have rightKnown := fun leaf member => known leaf (List.mem_append_right _ member)
      intro place member
      rcases List.mem_cons.1 member with rfl | later
      · exact isSome_firstPlace leftKnown
      · exact ihl first leftKnown (ihr second rightKnown others) place later
  | foreign a => exact a.elim

end Term

end SumCalc

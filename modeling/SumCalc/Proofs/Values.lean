import Mathlib.Algebra.Order.Ring.Int
import SumCalc.Evaluation

/-!
# The values of expressions

With wrapping, every sum has a value, and it is the exact sum modulo the number of integers of the
width. Without, the first sum beyond the width ends the evaluation. Numbers that are not negative
only add up, so no part of an expression is worth more than the whole, and the evaluation ends early
exactly if the exact sum is too great.

Results:
1. `Width.wrap_eq_iff`: wrapping finds the one integer of the width in each residue class.
2. `Term.value_wrap`: the value of an expression with wrapping.
3. `Term.value_fail`, `Term.value_fail_overflow`: its value without, if no number is negative.
-/

namespace SumCalc

/-! ## Wrapping -/

namespace Width

/-- Wrapping is two's complement: the low bits, less the span of the width if they exceed it. -/
theorem wrap_eq (width : Width) (n : Int) :
    width.wrap n =
      if n % 2 ^ width.bits ≤ width.maxInt then n % 2 ^ width.bits
      else n % 2 ^ width.bits - 2 ^ width.bits := by
  cases width <;> simp [wrap, Int.bmod_def, maxInt, bits] <;> omega

/-- Wrapping an integer gives the one integer of the width that is congruent to it. -/
theorem wrap_eq_iff (width : Width) (n m : Int) :
    width.wrap n = m ↔ width.Fits m ∧ (2 ^ width.bits : Int) ∣ m - n := by
  rw [wrap, Nat.pow_eq, Int.bmod_eq_iff (Nat.two_pow_pos _), ← and_assoc]
  have range :
      (-((2 ^ width.bits : Nat) / 2 : Int) ≤ m ∧ m < ((2 ^ width.bits : Nat) + 1 : Int) / 2) ↔
        width.Fits m := by
    cases width <;> simp only [bits, Fits, minInt, maxInt, Int.pow_eq] <;> omega
  rw [range, Int.natCast_pow]
  rfl

theorem wrap_eq_self {width : Width} {n : Int} (fits : width.Fits n) : width.wrap n = n := by
  rw [wrap_eq_iff, Int.sub_self]
  exact ⟨fits, Int.dvd_zero _⟩

theorem minInt_le_zero (width : Width) : width.minInt ≤ 0 := by
  cases width <;> decide

theorem wrap_add_wrap (width : Width) (m n : Int) :
    width.wrap (width.wrap m + width.wrap n) = width.wrap (m + n) := by
  unfold wrap
  rw [← Int.add_bmod]

end Width

/-! ## Adding under a configuration -/

theorem Config.add_wrap {config : Config} (wraps : config.overflow = .wrap) (left right : Int) :
    config.add left right = .ok (config.width.wrap (left + right)) := by
  unfold Config.add
  split
  · next fits => rw [Width.wrap_eq_self fits]
  · rw [wraps]

theorem Config.add_fail {config : Config} (fails : config.overflow = .fail) {left right : Int}
    (unfit : ¬ config.width.Fits (left + right)) :
    config.add left right = .error (.nowhere (.sumOverflow left right config.width.bits)) := by
  rw [Config.add, if_neg unfit, fails]

theorem Config.add_of_fits {config : Config} {left right : Int}
    (fits : config.width.Fits (left + right)) : config.add left right = .ok (left + right) := by
  rw [Config.add, if_pos fits]

namespace Term

/-! ## The value of a number and of a sum -/

theorem value_number (config : Config) (n : Int) (place : Option Position) :
    value config (.number n place) = .ok n := by
  rw [value, evaluate, Fold.apply_eq_run]
  rfl

theorem value_plus (config : Config) (left right : Expr) (place : Option Position) :
    value config (.plus left right place) = (do
      let a ← value config left
      let b ← value config right
      config.add a b) := by
  simp only [value, evaluate, Fold.apply_eq_run, Fold.run]
  cases (valuation config).run left with
  | error obstacle => rfl
  | ok a =>
      cases (valuation config).run right with
      | error obstacle => rfl
      | ok b =>
          show Except.mapError _ ((config.add a b).mapError Obstacle.rejected) = config.add a b
          cases config.add a b <;> rfl

/-! ## Whole expressions -/

/-- With wrapping, the value is the exact sum, wrapped. -/
theorem value_wrap {config : Config} (wraps : config.overflow = .wrap) {e : Expr}
    (fit : ∀ leaf ∈ e.leaves, config.width.Fits leaf.1) :
    e.value config = .ok (config.width.wrap e.exactSum) := by
  induction e with
  | number n place =>
      have fits : config.width.Fits n := fit (n, place) List.mem_cons_self
      rw [value_number, exactSum, Width.wrap_eq_self fits]
  | plus left right place ihl ihr =>
      have first := ihl fun leaf member => fit leaf (List.mem_append_left _ member)
      have second := ihr fun leaf member => fit leaf (List.mem_append_right _ member)
      rw [value_plus, first, second, exactSum, ← Width.wrap_add_wrap]
      exact Config.add_wrap wraps _ _
  | foreign a => exact a.elim

theorem exactSum_eq_sum_leaves (e : Expr) : e.exactSum = (e.leaves.map Prod.fst).sum := by
  induction e with
  | number n _ => simp [exactSum, leaves]
  | plus l r _ ihl ihr => simp [exactSum, leaves, ihl, ihr]
  | foreign a => exact a.elim

theorem exactSum_nonneg {e : Expr} (nonneg : ∀ leaf ∈ e.leaves, 0 ≤ leaf.1) : 0 ≤ e.exactSum := by
  induction e with
  | number n place => exact nonneg (n, place) List.mem_cons_self
  | plus left right place ihl ihr =>
      have first := ihl fun leaf member => nonneg leaf (List.mem_append_left _ member)
      have second := ihr fun leaf member => nonneg leaf (List.mem_append_right _ member)
      exact Int.add_nonneg first second
  | foreign a => exact a.elim

/-- The numbers that a source may hold. -/
def InRange (width : Width) (e : Expr) : Prop :=
  ∀ leaf ∈ e.leaves, 0 ≤ leaf.1 ∧ leaf.1 ≤ width.maxInt

theorem InRange.fit {width : Width} {e : Expr} (range : InRange width e) :
    ∀ leaf ∈ e.leaves, width.Fits leaf.1 := by
  intro leaf member
  obtain ⟨nonneg, fits⟩ := range leaf member
  exact ⟨Int.le_trans width.minInt_le_zero nonneg, fits⟩

/-- The parts of a sum in range are in range, and neither is worth more than the sum. -/
theorem InRange.parts {width : Width} {left right : Expr} {place : Option Position}
    (range : InRange width (.plus left right place)) :
    InRange width left ∧ InRange width right ∧ 0 ≤ left.exactSum ∧ 0 ≤ right.exactSum := by
  have first : InRange width left := fun leaf member => range leaf (List.mem_append_left _ member)
  have second : InRange width right := fun leaf member => range leaf (List.mem_append_right _ member)
  exact ⟨first, second, exactSum_nonneg fun leaf member => (first leaf member).1,
    exactSum_nonneg fun leaf member => (second leaf member).1⟩

/-- An exact sum within the width is the value. -/
theorem value_fail {config : Config} {e : Expr} (range : InRange config.width e)
    (fits : e.exactSum ≤ config.width.maxInt) : e.value config = .ok e.exactSum := by
  induction e with
  | number n place => exact value_number config n place
  | plus left right place ihl ihr =>
      obtain ⟨leftRange, rightRange, leftNonneg, rightNonneg⟩ := range.parts
      rw [exactSum] at fits
      have first := ihl leftRange (by omega)
      have second := ihr rightRange (by omega)
      have least := config.width.minInt_le_zero
      rw [value_plus, first, second, exactSum]
      exact Config.add_of_fits ⟨by omega, fits⟩
  | foreign a => exact a.elim

/-- If the exact sum is beyond the width, some sum in the expression is found to be so. -/
theorem value_fail_overflow {config : Config} (fails : config.overflow = .fail) {e : Expr}
    (range : InRange config.width e) (beyond : config.width.maxInt < e.exactSum) :
    ∃ left right,
      e.value config = .error (.nowhere (.sumOverflow left right config.width.bits)) := by
  induction e with
  | number n place =>
      have fits : n ≤ config.width.maxInt := (range (n, place) List.mem_cons_self).2
      exact absurd beyond (Int.not_lt.2 fits)
  | plus left right place ihl ihr =>
      obtain ⟨leftRange, rightRange, leftNonneg, rightNonneg⟩ := range.parts
      by_cases leftFits : left.exactSum ≤ config.width.maxInt
      · by_cases rightFits : right.exactSum ≤ config.width.maxInt
        · -- both parts fit, so the sum of the two is the first that does not
          rw [value_plus, value_fail leftRange leftFits, value_fail rightRange rightFits]
          refine ⟨_, _, Config.add_fail fails fun fits => ?_⟩
          exact absurd beyond (Int.not_lt.2 fits.2)
        · -- the left part fits, and the right part is too great by itself
          obtain ⟨a, b, stopped⟩ := ihr rightRange (Int.not_le.1 rightFits)
          rw [value_plus, value_fail leftRange leftFits, stopped]
          exact ⟨a, b, rfl⟩
      · -- the left part is too great by itself
        obtain ⟨a, b, stopped⟩ := ihl leftRange (Int.not_le.1 leftFits)
        rw [value_plus, stopped]
        exact ⟨a, b, rfl⟩
  | foreign a => exact a.elim

end Term

end SumCalc

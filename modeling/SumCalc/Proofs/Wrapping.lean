import Mathlib.Algebra.BigOperators.Group.List.Basic
import SumCalc.Proofs.Obstacles

/-!
# Sums that wrap

With wrapping, what a sum is worth depends on its exact sum modulo the number of integers of the
width, and on nothing else: not on the order of its numbers, their grouping or their sizes, and not
on which subtotals leave the width. A number by itself is never wrapped, so all this is about sums.

Results:
1. `Width.wrap_wrap`: wrapping at a width first does not show at a narrower one.
2. `evaluate_plus_wrap`: a sum is worth its exact sum, wrapped.
3. `evaluate_modular`: what follows for other sums, narrower widths and the other policy.
-/

namespace SumCalc

/-! ## Residues -/

namespace Width

theorem fits_wrap (width : Width) (n : Int) : width.Fits (width.wrap n) :=
  ((width.wrap_eq_iff n _).1 rfl).1

theorem wrap_idem (width : Width) (n : Int) : width.wrap (width.wrap n) = width.wrap n :=
  wrap_eq_self (width.fits_wrap n)

/-- Congruent integers are wrapped alike. -/
theorem wrap_congr {width : Width} {m n : Int} (congruent : (2 ^ width.bits : Int) ∣ m - n) :
    width.wrap m = width.wrap n := by
  obtain ⟨fits, same⟩ := (width.wrap_eq_iff n _).1 rfl
  rw [wrap_eq_iff]
  refine ⟨fits, ?_⟩
  have difference := Int.dvd_sub same congruent
  rwa [sub_sub_sub_cancel_right] at difference

/-- Wrapping at a width first does not show at a narrower one. -/
theorem wrap_wrap {narrow wide : Width} (le : narrow.bits ≤ wide.bits) (n : Int) :
    narrow.wrap (wide.wrap n) = narrow.wrap n :=
  Int.bmod_bmod_of_dvd (Nat.pow_dvd_pow 2 le)

end Width

namespace Term

variable {config : Config}

/-! ## Values with wrapping -/

theorem evaluate_eq_ok_iff {e : Expr} {n : Int} :
    e.evaluate config = .ok n ↔ e.value config = .ok n := by
  rw [value]
  cases e.evaluate config with
  | error obstacle => exact iff_of_false (by rintro ⟨⟩) (by rintro ⟨⟩)
  | ok m => simp [Except.mapError]

/-- With wrapping, every expression has a value, which is in the residue class of its exact sum. -/
theorem exists_value_wrap (wraps : config.overflow = .wrap) (e : Expr) :
    ∃ n, e.value config = .ok n ∧ config.width.wrap n = config.width.wrap e.exactSum := by
  induction e with
  | number n place => exact ⟨n, value_number config n place, rfl⟩
  | foreign a => exact a.elim
  | plus left right place ihl ihr =>
      obtain ⟨a, first, inLeft⟩ := ihl
      obtain ⟨b, second, inRight⟩ := ihr
      refine ⟨config.width.wrap (a + b), ?_, ?_⟩
      · rw [value_plus, first, second]
        exact Config.add_wrap wraps a b
      · rw [Width.wrap_idem, ← Width.wrap_add_wrap, inLeft, inRight, Width.wrap_add_wrap, exactSum]

/-- With wrapping, a sum is worth its exact sum, wrapped. Its numbers may be beyond the width. -/
theorem evaluate_plus_wrap (wraps : config.overflow = .wrap) {e : Expr} (sum : e.isPlus = true) :
    e.evaluate config = .ok (config.width.wrap e.exactSum) := by
  cases e with
  | number n place => cases sum
  | foreign a => cases sum
  | plus left right place =>
      obtain ⟨a, first, inLeft⟩ := exists_value_wrap wraps left
      obtain ⟨b, second, inRight⟩ := exists_value_wrap wraps right
      rw [evaluate_eq_ok_iff, value_plus, first, second, exactSum, ← Width.wrap_add_wrap, ← inLeft,
        ← inRight, Width.wrap_add_wrap]
      exact Config.add_wrap wraps a b

/-- With wrapping, a sum has a value: the one integer of the width that is congruent to its exact sum.
Every other sum whose exact sum is congruent has the same value, among them all sums of the same
numbers in any order. At a narrower width the value is this one, wrapped. Without wrapping it is the
same, if there is one. -/
theorem evaluate_modular (config : Config) (wraps : config.overflow = .wrap) (e : Expr)
    (sum : e.isPlus = true) :
    ∃ n, e.evaluate config = .ok n ∧
      (∀ m, m = n ↔ config.width.Fits m ∧ (2 ^ config.width.bits : Int) ∣ m - e.exactSum) ∧
      (∀ other : Expr, other.isPlus = true →
        (2 ^ config.width.bits : Int) ∣ other.exactSum - e.exactSum →
          other.evaluate config = .ok n) ∧
      (∀ other : Expr, other.isPlus = true →
        (other.leaves.map Prod.fst).Perm (e.leaves.map Prod.fst) →
          other.evaluate config = .ok n) ∧
      (∀ narrow : Config, narrow.overflow = .wrap → narrow.width.bits ≤ config.width.bits →
        e.evaluate narrow = .ok (narrow.width.wrap n)) ∧
      ∀ strict : Config, strict.overflow = .fail → strict.width = config.width →
        ∀ m, e.evaluate strict = .ok m → m = n := by
  have alike : ∀ other : Expr, other.isPlus = true →
      (2 ^ config.width.bits : Int) ∣ other.exactSum - e.exactSum →
        other.evaluate config = .ok (config.width.wrap e.exactSum) := by
    intro other otherSum congruent
    rw [evaluate_plus_wrap wraps otherSum, Width.wrap_congr congruent]
  refine ⟨config.width.wrap e.exactSum, evaluate_plus_wrap wraps sum, ?_, alike, ?_, ?_, ?_⟩
  · intro m
    rw [eq_comm]
    exact config.width.wrap_eq_iff e.exactSum m
  · intro other otherSum same
    refine alike other otherSum ?_
    rw [exactSum_eq_sum_leaves, exactSum_eq_sum_leaves, same.sum_eq, Int.sub_self]
    exact Int.dvd_zero _
  · intro narrow narrowWraps le
    rw [evaluate_plus_wrap narrowWraps sum, Width.wrap_wrap le]
  · intro strict fails sameWidth m valued
    rw [evaluate_eq_ok_iff] at valued
    have fit := allFit_of_value fails valued
    rw [value_exact fit] at valued
    cases valued
    rw [← sameWidth, Width.wrap_eq_self (fit e e.self_mem_postorder sum)]

/-- Numbers far beyond eight bits, one of them negative, in two orders and groupings. -/
theorem evaluate_modular_bits8 :
    ∃ n, (plus (.number 1000 none) (.plus (.number (-5) none) (.number 300 none) none) none :
          Expr).evaluate ⟨.bits8, .wrap, .recursive⟩ = .ok n ∧ n = 15 ∧
      (plus (.plus (.number 300 none) (.number 1000 none) none) (.number (-5) none) none :
          Expr).evaluate ⟨.bits8, .wrap, .recursive⟩ = .ok n := by
  obtain ⟨n, valued, only, -, permuted, -, -⟩ :=
    evaluate_modular ⟨.bits8, .wrap, .recursive⟩ rfl
      (plus (.number 1000 none) (.plus (.number (-5) none) (.number 300 none) none) none) rfl
  refine ⟨n, valued, ((only 15).2 (by decide)).symm, permuted _ rfl (by decide)⟩

end Term

end SumCalc

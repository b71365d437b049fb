import Mathlib.Data.Int.Bitwise
import SumCalc.Proofs.Wrapping

/-!
# Two's complement

An integer of any size is wrapped by keeping its low bits and taking off the span of the width if
they exceed the greatest integer. The low bits of a negative integer are those of its infinite two's
complement, so keeping them is taking a residue. Sums that wrap may be grouped in any way. Without
wrapping, the grouping decides whether there is a sum at all, since a subtotal may leave the width;
it makes no difference to which sum it is, and none at all to integers that are not negative.

Results:
1. `land_mask`: keeping the low bits of an integer is taking its residue.
2. `leftSum_wrap`, `rightSum_wrap`: with wrapping, sums of three integers.
3. `leftSum_eq_ok_iff`, `rightSum_eq_ok_iff`: the same without.
4. `add_twosComplement`: the laws of wrapping and adding, on all integers.
-/

namespace SumCalc

/-! ## Low bits -/

/-- The bits of a mask that a number does not have make up the rest of the mask. -/
theorem ldiff_mask (m bits : Nat) : Nat.ldiff (2 ^ bits - 1) m = 2 ^ bits - (m % 2 ^ bits + 1) := by
  refine Nat.eq_of_testBit_eq fun i => ?_
  rw [Nat.testBit_ldiff, Nat.testBit_two_pow_sub_one,
    Nat.testBit_two_pow_sub_succ (Nat.mod_lt m (Nat.two_pow_pos bits)), Nat.testBit_mod_two_pow]
  cases decide (i < bits) <;> rfl

/-- Keeping the low bits of an integer is taking its residue. -/
theorem land_mask (n : Int) (bits : Nat) : n.land (2 ^ bits - 1) = n % 2 ^ bits := by
  have positive : 0 < 2 ^ bits := Nat.two_pow_pos bits
  have mask : (2 ^ bits - 1 : Int) = ((2 ^ bits - 1 : Nat) : Int) := by
    rw [Nat.cast_pred positive, Nat.cast_pow, Nat.cast_two]
  rw [mask]
  cases n with
  | ofNat m =>
      show ((m &&& (2 ^ bits - 1) : Nat) : Int) = (m : Int) % 2 ^ bits
      rw [Nat.and_two_pow_sub_one_eq_mod, Int.natCast_mod, Nat.cast_pow, Nat.cast_two]
  | negSucc m =>
      have residue : m % 2 ^ bits < 2 ^ bits := Nat.mod_lt m positive
      have span : ((2 ^ bits : Nat) : Int) = 2 ^ bits := by rw [Nat.cast_pow, Nat.cast_two]
      show (Nat.ldiff (2 ^ bits - 1) m : Int) = Int.negSucc m % 2 ^ bits
      rw [ldiff_mask, ← span, Int.negSucc_emod m (Int.natCast_pos.2 positive), ← Int.natCast_mod]
      omega

/-- The low bits of an integer, as many as the width has. -/
def Width.lowBits (width : Width) (n : Int) : Int := n.land (2 ^ width.bits - 1)

/-- Wrapping keeps the low bits, and takes off the span of the width if they exceed its greatest
integer. -/
theorem Width.wrap_eq_lowBits (width : Width) (n : Int) :
    width.wrap n =
      if width.maxInt < width.lowBits n then width.lowBits n - 2 ^ width.bits
      else width.lowBits n := by
  rw [wrap_eq, lowBits, land_mask]
  simp only [← Int.not_le, ite_not]

theorem Width.wrap_eq_self_iff {width : Width} {n : Int} : width.wrap n = n ↔ width.Fits n :=
  ⟨fun same => same ▸ width.fits_wrap n, wrap_eq_self⟩

/-! ## Sums of three integers -/

namespace Config

/-- The sum of three integers, the first two being added first. -/
def leftSum (config : Config) (a b c : Int) : Except Rejection Int := do
  config.add (← config.add a b) c

/-- The sum of three integers, the last two being added first. -/
def rightSum (config : Config) (a b c : Int) : Except Rejection Int := do
  config.add a (← config.add b c)

variable {config : Config} {a b c n : Int}

theorem leftSum_wrap (wraps : config.overflow = .wrap) (a b c : Int) :
    config.leftSum a b c = .ok (config.width.wrap (a + b + c)) := by
  have regrouped : config.width.wrap (config.width.wrap (a + b) + c) =
      config.width.wrap (a + b + c) := Int.bmod_add_bmod
  rw [leftSum, add_wrap wraps, ← regrouped]
  exact add_wrap wraps _ c

theorem rightSum_wrap (wraps : config.overflow = .wrap) (a b c : Int) :
    config.rightSum a b c = .ok (config.width.wrap (a + b + c)) := by
  have regrouped : config.width.wrap (a + config.width.wrap (b + c)) =
      config.width.wrap (a + (b + c)) := Int.add_bmod_bmod
  rw [rightSum, add_wrap wraps, Int.add_assoc, ← regrouped]
  exact add_wrap wraps a _

/-- Without wrapping, a sum is exact, and there is one if it fits. -/
theorem add_eq_ok_iff (fails : config.overflow = .fail) :
    config.add a b = .ok n ↔ n = a + b ∧ config.width.Fits (a + b) := by
  by_cases fits : config.width.Fits (a + b)
  · rw [add_of_fits fits, Except.ok.injEq, eq_comm]
    exact (and_iff_left fits).symm
  · rw [add_fail fails fits]
    exact iff_of_false nofun fun sum => fits sum.2

theorem leftSum_eq_ok_iff (fails : config.overflow = .fail) :
    config.leftSum a b c = .ok n ↔
      n = a + b + c ∧ config.width.Fits (a + b) ∧ config.width.Fits (a + b + c) := by
  constructor
  · intro found
    obtain ⟨subtotal, first, second⟩ := exists_of_bind_ok found
    obtain ⟨rfl, fits⟩ := (add_eq_ok_iff fails).1 first
    obtain ⟨rfl, whole⟩ := (add_eq_ok_iff fails).1 second
    exact ⟨rfl, fits, whole⟩
  · rintro ⟨rfl, fits, whole⟩
    rw [leftSum, add_of_fits fits]
    exact add_of_fits whole

theorem rightSum_eq_ok_iff (fails : config.overflow = .fail) :
    config.rightSum a b c = .ok n ↔
      n = a + b + c ∧ config.width.Fits (b + c) ∧ config.width.Fits (a + b + c) := by
  rw [Int.add_assoc a b c]
  constructor
  · intro found
    obtain ⟨subtotal, first, second⟩ := exists_of_bind_ok found
    obtain ⟨rfl, fits⟩ := (add_eq_ok_iff fails).1 first
    obtain ⟨rfl, whole⟩ := (add_eq_ok_iff fails).1 second
    exact ⟨rfl, fits, whole⟩
  · rintro ⟨rfl, fits, whole⟩
    rw [rightSum, add_of_fits fits]
    exact add_of_fits whole

/-- What lies between zero and an integer of the width is one of the width. -/
theorem fits_of_le {width : Width} {m n : Int} (nonneg : 0 ≤ m) (le : m ≤ n) (fits : width.Fits n) :
    width.Fits m :=
  ⟨Int.le_trans width.minInt_le_zero nonneg, Int.le_trans le fits.2⟩

/-- Wrapping gives an integer of the width that is congruent to the one wrapped, and leaves just the
integers of the width as they are; it is two's complement. With wrapping, a sum is the exact sum,
wrapped, in any order and grouping. Without it, what two groupings come to is the exact sum, and for
integers that are not negative there is a sum in both or in none. -/
theorem add_twosComplement (config : Config) (a b c n : Int) :
    (config.width.minInt ≤ config.width.wrap n ∧ config.width.wrap n ≤ config.width.maxInt ∧
      (2 ^ config.width.bits : Int) ∣ n - config.width.wrap n ∧
      (config.width.wrap n = n ↔ config.width.Fits n) ∧
      (config.width.wrap n =
        if config.width.maxInt < config.width.lowBits n then
          config.width.lowBits n - 2 ^ config.width.bits
        else config.width.lowBits n) ∧
      config.width.wrap n = (BitVec.ofInt config.width.bits n).toInt) ∧
    (config.overflow = .wrap →
      config.add a b = .ok (config.width.wrap (a + b)) ∧ config.add a b = config.add b a ∧
      config.leftSum a b c = .ok (config.width.wrap (a + b + c)) ∧
      config.leftSum a b c = config.rightSum a b c) ∧
    (config.overflow = .fail →
      (∀ l r, config.leftSum a b c = .ok l → config.rightSum a b c = .ok r →
        l = a + b + c ∧ r = a + b + c) ∧
      (0 ≤ a → 0 ≤ b → 0 ≤ c →
        ((∃ l, config.leftSum a b c = .ok l) ↔ ∃ r, config.rightSum a b c = .ok r))) := by
  refine ⟨?wrapped, fun wraps => ?wrapping, fun fails => ⟨?sums, ?together⟩⟩
  case wrapped =>
    obtain ⟨⟨least, greatest⟩, congruent⟩ := (config.width.wrap_eq_iff n _).1 rfl
    refine ⟨least, greatest, dvd_sub_comm.1 congruent, Width.wrap_eq_self_iff,
      config.width.wrap_eq_lowBits n, ?_⟩
    rw [BitVec.toInt_ofInt]
    rfl
  case wrapping =>
    refine ⟨add_wrap wraps a b, ?_, leftSum_wrap wraps a b c, ?_⟩
    · rw [add_wrap wraps, add_wrap wraps, Int.add_comm]
    · rw [leftSum_wrap wraps, rightSum_wrap wraps]
  case sums =>
    intro l r left right
    exact ⟨((leftSum_eq_ok_iff fails).1 left).1, ((rightSum_eq_ok_iff fails).1 right).1⟩
  case together =>
    intro nonnegA nonnegB nonnegC
    constructor
    · rintro ⟨l, left⟩
      obtain ⟨-, -, whole⟩ := (leftSum_eq_ok_iff fails).1 left
      have fits := fits_of_le (by omega) (by omega : b + c ≤ a + b + c) whole
      exact ⟨_, (rightSum_eq_ok_iff fails).2 ⟨rfl, fits, whole⟩⟩
    · rintro ⟨r, right⟩
      obtain ⟨-, -, whole⟩ := (rightSum_eq_ok_iff fails).1 right
      have fits := fits_of_le (by omega) (by omega : a + b ≤ a + b + c) whole
      exact ⟨_, (leftSum_eq_ok_iff fails).2 ⟨rfl, fits, whole⟩⟩

/-- At eight bits, a sum of integers far beyond the width that wraps does not depend on its grouping.
Without wrapping, one grouping of a sum up to 127 shows that there is the other. -/
theorem add_twosComplement_bits8 :
    (leftSum ⟨.bits8, .wrap, .recursive⟩ 1000 (-5) 300 = .ok 15 ∧
      rightSum ⟨.bits8, .wrap, .recursive⟩ 1000 (-5) 300 = .ok 15) ∧
    ∃ r, rightSum ⟨.bits8, .fail, .recursive⟩ 100 20 7 = .ok r ∧ r = 127 := by
  obtain ⟨-, wrapping, -⟩ := add_twosComplement ⟨.bits8, .wrap, .recursive⟩ 1000 (-5) 300 0
  obtain ⟨-, -, strict⟩ := add_twosComplement ⟨.bits8, .fail, .recursive⟩ 100 20 7 0
  constructor
  · obtain ⟨-, -, sum, same⟩ := wrapping rfl
    have left : leftSum ⟨.bits8, .wrap, .recursive⟩ 1000 (-5) 300 = .ok 15 := sum.trans (by decide)
    exact ⟨left, same.symm.trans left⟩
  · obtain ⟨sums, together⟩ := strict rfl
    have left : leftSum ⟨.bits8, .fail, .recursive⟩ 100 20 7 = .ok 127 := by rfl
    obtain ⟨r, right⟩ := (together (by decide) (by decide) (by decide)).1 ⟨127, left⟩
    exact ⟨r, right, (sums 127 r left right).2⟩

end Config

end SumCalc

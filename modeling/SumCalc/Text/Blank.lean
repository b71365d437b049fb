/-!
# White space

`isBlank` is the Unicode property White_Space together with the four information separators
U+001C to U+001F. `strip` removes blanks from both ends of a text.
-/

namespace SumCalc.Text

/-- Whether a character counts as white space. -/
def isBlank (c : Char) : Bool :=
  (0x09 ≤ c.toNat && c.toNat ≤ 0x0d) || (0x1c ≤ c.toNat && c.toNat ≤ 0x20) ||
  c.toNat == 0x85 || c.toNat == 0xa0 || c.toNat == 0x1680 ||
  (0x2000 ≤ c.toNat && c.toNat ≤ 0x200a) || c.toNat == 0x2028 || c.toNat == 0x2029 ||
  c.toNat == 0x202f || c.toNat == 0x205f || c.toNat == 0x3000

theorem isBlank_of_isWhitespace {c : Char} (white : c.isWhitespace = true) :
    isBlank c = true := by
  simp only [Char.isWhitespace, Bool.or_eq_true, decide_eq_true_eq] at white
  rcases white with ((rfl | rfl) | rfl) | rfl <;> decide

/-- The characters of a list without those at its end that satisfy a test. -/
def dropEndWhile (test : Char → Bool) (cs : List Char) : List Char :=
  (cs.reverse.dropWhile test).reverse

/-- A text without the characters at its two ends that satisfy a test. -/
def trimWhile (test : Char → Bool) (cs : List Char) : List Char :=
  dropEndWhile test (cs.dropWhile test)

/-- What is taken from the two ends of a text satisfies the test. -/
theorem exists_trimWhile (test : Char → Bool) (cs : List Char) :
    ∃ front back, cs = front ++ (trimWhile test cs ++ back) ∧ (∀ c ∈ front, test c = true) ∧
      ∀ c ∈ back, test c = true := by
  refine ⟨cs.takeWhile test, ((cs.dropWhile test).reverse.takeWhile test).reverse, ?_, ?_, ?_⟩
  · rw [trimWhile, dropEndWhile, ← List.reverse_append, List.takeWhile_append_dropWhile,
      List.reverse_reverse, List.takeWhile_append_dropWhile]
  · exact fun c member => (List.all_eq_true.1 List.all_takeWhile) c member
  · exact fun c member => (List.all_eq_true.1 List.all_takeWhile) c (List.mem_reverse.1 member)

/-- A text without the blanks at its two ends. -/
def strip (cs : List Char) : List Char := trimWhile isBlank cs

example : strip " \ta b\u3000".toList = "a b".toList := by decide

end SumCalc.Text

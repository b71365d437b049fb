import SumCalc.Literal
import SumCalc.Proofs.Values

/-!
# What literals denote

A text of decimal digits denotes `decimal`, leading zeros or not. `read_digits` says that this number
decides alone: a literal is refused for its length only if it does not fit, and a literal that is
short enough is always read. So it does not matter what would become of longer ones; `ConvertsUpTo`
is all that is asked of a way to turn digits into a number.

Results:
1. `Text.Numeral.read?_digits`: a numeral of decimal digits denotes its decimal value.
2. `Literal.pow_le_decimal`: without leading zeros, the length bounds the value from below.
3. `Literal.readCounted_digits`: if digits are counted first, few of them need to be convertible.
4. `Literal.read_digits`: a literal of decimal digits is read exactly if its value fits the width.
5. `Literal.read_verdict`: counting the digits first never changes the verdict.
-/

namespace SumCalc

/-- The number that decimal digits denote, the most significant first. -/
def decimal (digits : List Char) : Nat := Nat.ofDigitChars 10 digits 0

/-! ## Numerals -/

namespace Text

theorem toNat_bounds_of_isDigit {c : Char} (digit : c.isDigit = true) :
    48 ≤ c.toNat ∧ c.toNat ≤ 57 := by
  simpa [Char.isDigit, UInt32.le_iff_toNat_le] using digit

theorem digitValue?_of_isDigit {c : Char} (digit : c.isDigit = true) :
    digitValue? c = some (c.toNat - '0'.toNat) := by
  have bounds := toNat_bounds_of_isDigit digit
  have first : digitBases.find? (fun base => base ≤ c.toNat && c.toNat ≤ base + 9) = some 48 := by
    rw [digitBases, List.find?_cons_of_pos]
    simpa using bounds
  rw [digitValue?, first]
  rfl

theorem isBlank_eq_false_of_isDigit {c : Char} (digit : c.isDigit = true) : isBlank c = false := by
  have bounds := toNat_bounds_of_isDigit digit
  simp [isBlank]
  omega

/-- Nothing is trimmed from a text without the characters in question. -/
theorem trimWhile_eq_self {test : Char → Bool} {cs : List Char} (none : ∀ c ∈ cs, test c = false) :
    trimWhile test cs = cs := by
  have kept : ∀ cs : List Char, (∀ c ∈ cs, test c = false) → cs.dropWhile test = cs := by
    intro cs none
    cases cs with
    | nil => rfl
    | cons c rest => simp [none c List.mem_cons_self]
  rw [trimWhile, kept cs none, dropEndWhile, kept _ (by simpa using none), List.reverse_reverse]

namespace Numeral

theorem digits?_of_isDigit {cs : List Char} (nonempty : cs ≠ [])
    (inside : ∀ c ∈ cs, c.isDigit = true) :
    digits? cs = some (cs.map fun c => c.toNat - '0'.toNat) := by
  induction cs with
  | nil => exact absurd rfl nonempty
  | cons c rest ih =>
      have digit := digitValue?_of_isDigit (inside c List.mem_cons_self)
      cases rest with
      | nil => simp [digits?, digit]
      | cons d rest =>
          have second : d.isDigit = true := inside d (by simp)
          have others := ih (List.cons_ne_nil d rest)
            (fun c member => inside c (List.mem_cons_of_mem _ member))
          have noUnderscore : d ≠ '_' := by
            rintro rfl
            exact absurd second (by decide)
          rw [digits?, digit, others]
          · rfl
          · exact List.cons_ne_nil d rest
          · rintro rest same
            exact noUnderscore (List.cons.inj same).1

/-- A numeral of decimal digits denotes their value, unless there are too many of them. -/
theorem read?_digits {cs : List Char} (nonempty : cs ≠ [])
    (inside : ∀ c ∈ cs, c.isDigit = true) (short : cs.length ≤ digitLimit) :
    read? (String.ofList cs) = some (decimal cs : Int) := by
  have untrimmed : trimWhile isMargin cs = cs := trimWhile_eq_self fun c member => by
    simp [isMargin, isBlank_eq_false_of_isDigit (inside c member)]
  have value : ofDigits (cs.map fun c => c.toNat - '0'.toNat) = decimal cs := by
    rw [ofDigits, List.foldl_map, decimal, Nat.ofDigitChars_eq_foldl]
  have natural : natural? cs = some (decimal cs) := by
    rw [natural?, digits?_of_isDigit nonempty inside]
    simp only [Option.bind_eq_bind, Option.bind_some, List.length_map, if_pos short, value]
  have unsigned : signed? cs = (natural? cs).map Int.ofNat := by
    unfold signed?
    split
    · exact absurd (inside '-' List.mem_cons_self) (by decide)
    · exact absurd (inside '+' List.mem_cons_self) (by decide)
    · rfl
  rw [read?, String.toList_ofList, untrimmed, unsigned, natural]
  rfl

end Numeral

end Text

/-! ## Literals -/

namespace Literal

theorem decimal_dropWhile_zero (cs : List Char) : decimal (cs.dropWhile (· = '0')) = decimal cs := by
  induction cs with
  | nil => rfl
  | cons c rest ih =>
      by_cases zero : c = '0'
      · subst zero
        rw [List.dropWhile_cons_of_pos (by decide), ih, decimal, decimal, Nat.ofDigitChars_cons]
        rfl
      · rw [List.dropWhile_cons_of_neg (by simpa using zero)]

theorem significant_eq (cs : List Char) :
    significant cs = cs.dropWhile (· = '0') ∨
      cs.dropWhile (· = '0') = [] ∧ significant cs = ['0'] := by
  unfold significant
  split
  · next none => exact .inr ⟨none, rfl⟩
  · exact .inl rfl

theorem significant_ne_nil (cs : List Char) : significant cs ≠ [] := by
  unfold significant
  split
  · exact List.cons_ne_nil _ _
  · next some => exact some

/-- Leading zeros do not change the value. -/
theorem decimal_significant (cs : List Char) : decimal (significant cs) = decimal cs := by
  rw [← decimal_dropWhile_zero cs]
  rcases significant_eq cs with same | ⟨none, zero⟩
  · rw [same]
  · rw [none, zero]
    rfl

theorem isDigit_of_mem_significant {cs : List Char} (inside : ∀ c ∈ cs, c.isDigit = true) :
    ∀ c ∈ significant cs, c.isDigit = true := by
  intro c member
  rcases significant_eq cs with same | ⟨-, zero⟩
  · rw [same] at member
    exact inside c ((List.dropWhile_sublist _).mem member)
  · rw [zero, List.mem_singleton] at member
    subst member
    rfl

/-- A text of digits that does not begin with a zero has at least the value of the power of ten with
as many digits. -/
theorem pow_le_decimal {c : Char} {rest : List Char} (digit : c.isDigit = true) (lead : c ≠ '0') :
    10 ^ rest.length ≤ decimal (c :: rest) := by
  have positive : 1 ≤ c.toNat - '0'.toNat := by
    have bounds := Text.toNat_bounds_of_isDigit digit
    have other : c.toNat ≠ 48 := fun same => lead (Char.toNat_inj.1 same)
    show 1 ≤ c.toNat - 48
    omega
  calc
    10 ^ rest.length = 10 ^ rest.length * 1 := (Nat.mul_one _).symm
    _ ≤ 10 ^ rest.length * (10 * 0 + (c.toNat - '0'.toNat)) := by
        rw [Nat.mul_zero, Nat.zero_add]
        exact Nat.mul_le_mul_left _ positive
    _ ≤ decimal (c :: rest) := by
        rw [decimal, Nat.ofDigitChars_cons, Nat.ofDigitChars_eq_ofDigitChars_zero]
        exact Nat.le_add_right _ _

theorem maxInt_lt_pow (width : Width) : width.maxInt < 10 ^ maxLength width := by
  cases width <;> decide +kernel

theorem maxLength_bounds (width : Width) :
    1 ≤ maxLength width ∧ maxLength width ≤ Text.Numeral.digitLimit := by
  cases width <;> decide +kernel

/-- A literal is too long only if its value does not fit. -/
theorem maxInt_lt_of_long {width : Width} {cs : List Char} (inside : ∀ c ∈ cs, c.isDigit = true)
    (long : maxLength width < (significant cs).length) : width.maxInt < decimal cs := by
  have digits := isDigit_of_mem_significant inside
  obtain ⟨c, rest, parts⟩ := List.exists_cons_of_ne_nil (significant_ne_nil cs)
  rw [← decimal_significant, parts]
  rw [parts] at long digits
  -- only the text of zero begins with a zero, and that is not long
  have lead : c ≠ '0' := by
    rintro rfl
    have least := (maxLength_bounds width).1
    rcases significant_eq cs with same | ⟨-, zero⟩
    · have head := List.head?_dropWhile_not (fun c => decide (c = '0')) cs
      rw [← same, parts] at head
      simp at head
    · rw [zero] at parts
      cases parts
      simp only [List.length_singleton] at long
      omega
  have power : 10 ^ maxLength width ≤ decimal (c :: rest) :=
    calc
      10 ^ maxLength width ≤ 10 ^ rest.length :=
        Nat.pow_le_pow_right (by decide) (Nat.le_of_lt_succ long)
      _ ≤ decimal (c :: rest) := pow_le_decimal (digits c List.mem_cons_self) lead
  have above : width.maxInt < ((10 ^ maxLength width : Nat) : Int) := by
    simpa using maxInt_lt_pow width
  exact Int.lt_of_lt_of_le above (Int.ofNat_le.2 power)

/-! ## Ways to convert digits -/

/-- `convert` gives the value of every text of at most `limit` decimal digits. What it does with
other texts is left open: it may fail on all longer ones. -/
def ConvertsUpTo (limit : Nat) (convert : String → Option Int) : Prop :=
  ∀ cs : List Char, cs ≠ [] → (∀ c ∈ cs, c.isDigit = true) → cs.length ≤ limit →
    convert (String.ofList cs) = some (decimal cs : Int)

/-- The number that a literal at a place denotes if its digits are converted, however many they
are. -/
def readWhole (convert : String → Option Int) (width : Width) (text : String) (place : Position) :
    Except Failure Expr :=
  let digits := String.ofList (significant text.toList)
  match convert digits with
  | none => .error (.unreadable digits)
  | some n =>
      if width.Fits n then .ok (.number n place)
      else .error (.rejected (.located place (.literalOverflow text width.bits)))

/-- The number that a literal at a place denotes if its digits are counted before they are
converted. -/
def readCounted (convert : String → Option Int) (width : Width) (text : String)
    (place : Position) : Except Failure Expr :=
  if maxLength width < (significant text.toList).length then
    .error (.rejected (.located place (.literalOverflow text width.bits)))
  else readWhole convert width text place

theorem read_eq_readCounted (width : Width) (text : String) (place : Position) :
    read width text place = readCounted Text.Numeral.read? width text place := by
  cases numeral : Text.Numeral.read? (String.ofList (significant text.toList)) <;>
    simp only [read, readCounted, readWhole, numeral]

section

variable {limit : Nat} {convert : String → Option Int} {width : Width} {text : String}

/-- A literal of not too many digits is its decimal value if that fits, and an overflow otherwise. -/
theorem readWhole_digits (converts : ConvertsUpTo limit convert) (place : Position)
    (inside : ∀ c ∈ text.toList, c.isDigit = true)
    (short : (significant text.toList).length ≤ limit) :
    readWhole convert width text place =
      if (decimal text.toList : Int) ≤ width.maxInt then
        .ok (.number (decimal text.toList) place)
      else .error (.rejected (.located place (.literalOverflow text width.bits))) := by
  have value := converts _ (significant_ne_nil _) (isDigit_of_mem_significant inside) short
  have least : width.minInt ≤ decimal text.toList :=
    Int.le_trans width.minInt_le_zero (Int.natCast_nonneg _)
  rw [decimal_significant] at value
  unfold readWhole
  dsimp only
  rw [value]
  simp only [Width.Fits, least, true_and]

/-- If digits are counted first, only literals of at most as many digits as the greatest integer has
are converted. -/
theorem readCounted_digits (enough : maxLength width ≤ limit) (converts : ConvertsUpTo limit convert)
    (place : Position) (inside : ∀ c ∈ text.toList, c.isDigit = true) :
    readCounted convert width text place =
      if (decimal text.toList : Int) ≤ width.maxInt then
        .ok (.number (decimal text.toList) place)
      else .error (.rejected (.located place (.literalOverflow text width.bits))) := by
  by_cases long : maxLength width < (significant text.toList).length
  · -- refused for its length
    have beyond : ¬ (decimal text.toList : Int) ≤ width.maxInt :=
      Int.not_le.2 (maxInt_lt_of_long inside long)
    rw [readCounted, if_pos long, if_neg beyond]
  · rw [readCounted, if_neg long]
    exact readWhole_digits converts place inside (Nat.le_trans (Nat.not_lt.1 long) enough)

end

theorem convertsUpTo_read? : ConvertsUpTo Text.Numeral.digitLimit Text.Numeral.read? :=
  fun _ nonempty inside short => Text.Numeral.read?_digits nonempty inside short

theorem convertsUpTo_decimal (limit : Nat) :
    ConvertsUpTo limit fun text => some (decimal text.toList : Int) := by
  intro cs _ _ _
  show some (decimal (String.ofList cs).toList : Int) = some (decimal cs : Int)
  rw [String.toList_ofList]

/-- A literal of digits is its decimal value if that fits, and an overflow otherwise. -/
theorem read_digits (width : Width) {text : String} (place : Position)
    (inside : ∀ c ∈ text.toList, c.isDigit = true) :
    read width text place =
      if (decimal text.toList : Int) ≤ width.maxInt then
        .ok (.number (decimal text.toList) place)
      else .error (.rejected (.located place (.literalOverflow text width.bits))) := by
  rw [read_eq_readCounted]
  exact readCounted_digits (maxLength_bounds width).2 convertsUpTo_read? place inside

/-- A literal of decimal digits, any number of zeros at the front included, is its value if that is at
most the greatest integer of the width, and otherwise an overflow that shows the literal as it is
written. Its digits are always convertible. Counting them first makes no difference: the verdict is
that of any way to convert which is right on the texts short enough for the limit, whatever it does
with longer ones, and that of converting all digits, however many, without counting them. -/
theorem read_verdict (config : Config) (place : Position) {text : String}
    (inside : ∀ c ∈ text.toList, c.isDigit = true) :
    (read config.width text place = .ok (.number (decimal text.toList) place) ↔
      (decimal text.toList : Int) ≤ config.width.maxInt) ∧
    (read config.width text place =
        .error (.rejected (.located place (.literalOverflow text config.width.bits))) ↔
      config.width.maxInt < decimal text.toList) ∧
    (∀ digits, read config.width text place ≠ .error (.unreadable digits)) ∧
    (∀ limited, ConvertsUpTo Text.Numeral.digitLimit limited →
      readCounted limited config.width text place = read config.width text place) ∧
    ∀ full, (∀ limit, ConvertsUpTo limit full) →
      readWhole full config.width text place = read config.width text place := by
  have verdict := read_digits config.width place inside
  refine ⟨?accepted, ?refused, ?converted, fun limited converts => ?counted,
    fun full converts => ?whole⟩
  case accepted =>
    rw [verdict]
    split
    · next fits => exact iff_of_true rfl fits
    · next beyond => exact iff_of_false nofun beyond
  case refused =>
    rw [verdict]
    split
    · next fits => exact iff_of_false nofun (Int.not_lt.2 fits)
    · next beyond => exact iff_of_true rfl (Int.not_le.1 beyond)
  case converted =>
    intro digits
    rw [verdict]
    split <;> nofun
  case counted =>
    rw [verdict]
    exact readCounted_digits (maxLength_bounds config.width).2 converts place inside
  case whole =>
    rw [verdict]
    exact readWhole_digits (converts _) place inside le_rfl

/-- At eight bits, 127 is the greatest literal. Zeros at the front do not count, but they are shown. -/
theorem read_verdict_bits8 :
    read .bits8 "000127" ⟨1, 1⟩ = .ok (.number 127 (some ⟨1, 1⟩)) ∧
    read .bits8 "000128" ⟨1, 4⟩ =
      .error (.rejected (.located ⟨1, 4⟩ (.literalOverflow "000128" 8))) ∧
    readCounted Text.Numeral.read? .bits8 "000128" ⟨1, 4⟩ =
      .error (.rejected (.located ⟨1, 4⟩ (.literalOverflow "000128" 8))) ∧
    readWhole (fun text => some (decimal text.toList : Int)) .bits8 "000128" ⟨1, 4⟩ =
      .error (.rejected (.located ⟨1, 4⟩ (.literalOverflow "000128" 8))) := by
  have inside : ∀ text ∈ ["000127", "000128"], ∀ c ∈ text.toList, c.isDigit = true := by simp
  obtain ⟨accepted, -⟩ :=
    read_verdict ⟨.bits8, .fail, .recursive⟩ ⟨1, 1⟩ (inside "000127" (by simp))
  obtain ⟨-, refused, -, counted, whole⟩ :=
    read_verdict ⟨.bits8, .fail, .recursive⟩ ⟨1, 4⟩ (inside "000128" (by simp))
  have overflow := refused.2 (by decide)
  exact ⟨accepted.2 (by decide), overflow, (counted _ convertsUpTo_read?).trans overflow,
    (whole _ convertsUpTo_decimal).trans overflow⟩

end Literal

end SumCalc

import Mathlib.Data.List.TakeWhile
import SumCalc.Text.Lines

/-!
# Records of a text file

The stripped lines of a text that are not blank are found piece by piece: blanks and line ends
around a text do not matter, a line end within it cuts it in two. A file that holds texts one per
line has the records of these texts, in their order.

Results:
1. `strip_eq`, `exists_strip`: what the stripped text of a text is.
2. `lineRecords_append`, `lineRecords_line`: the records of a text, line by line.
3. `lineRecords_blanks_append`, `lineRecords_append_blanks`: blanks around a text.
4. `lineRecords_of_holdsLines`: the records of a file with one text per line.
-/

namespace SumCalc.Text

/-! ## Stripped texts -/

/-- A text of blanks only. -/
def AllBlank (cs : List Char) : Prop := ∀ c ∈ cs, isBlank c = true

/-- A text that neither begins nor ends with a blank. -/
structure Stripped (cs : List Char) : Prop where
  begins : ∀ c ∈ cs.head?, isBlank c = false
  ends : ∀ c ∈ cs.getLast?, isBlank c = false

theorem dropWhile_blanks_append {blanks cs : List Char} (blank : AllBlank blanks)
    (begins : ∀ c ∈ cs.head?, isBlank c = false) : (blanks ++ cs).dropWhile isBlank = cs := by
  rw [List.dropWhile_append_of_pos blank]
  cases cs with
  | nil => rfl
  | cons c rest => exact List.dropWhile_cons_of_neg (by simp [begins c rfl])

/-- A text without the blanks around it. -/
theorem strip_eq {front core back : List Char} (before : AllBlank front) (behind : AllBlank back)
    (stripped : Stripped core) : strip (front ++ (core ++ back)) = core := by
  have blanks : AllBlank back.reverse := fun c member => behind c (List.mem_reverse.1 member)
  cases core with
  | nil =>
      have all : AllBlank (front ++ ([] ++ back)) := fun c member =>
        (List.mem_append.1 member).elim (before c) (behind c)
      rw [strip, trimWhile, List.dropWhile_eq_nil_iff.2 all]
      rfl
  | cons c rest =>
      have begins : ∀ d ∈ (c :: rest ++ back).head?, isBlank d = false := stripped.begins
      have ends : ∀ d ∈ (c :: rest).reverse.head?, isBlank d = false := by
        rw [List.head?_reverse]
        exact stripped.ends
      rw [strip, trimWhile, dropWhile_blanks_append before begins, dropEndWhile,
        List.reverse_append, dropWhile_blanks_append blanks ends, List.reverse_reverse]

theorem stripped_strip (cs : List Char) : Stripped (strip cs) := by
  have stop : ∀ (text : List Char), ∀ c ∈ (text.dropWhile isBlank).head?, isBlank c = false := by
    intro text c head
    have outside := List.head?_dropWhile_not isBlank text
    rw [head] at outside
    simpa using outside
  have front : strip cs <+: cs.dropWhile isBlank := by
    rw [strip, trimWhile, dropEndWhile, ← List.reverse_suffix, List.reverse_reverse]
    exact List.dropWhile_suffix _
  constructor
  · intro c head
    obtain ⟨back, split⟩ := front
    refine stop cs c ?_
    rw [← split, List.head?_append, Option.mem_def.1 head]
    rfl
  · intro c last
    rw [strip, trimWhile, dropEndWhile, List.getLast?_reverse] at last
    exact stop _ c last

/-- The stripped text of a text, and the blanks around it. -/
theorem exists_strip (cs : List Char) : ∃ front back, cs = front ++ (strip cs ++ back) ∧
    AllBlank front ∧ AllBlank back := exists_trimWhile isBlank cs

/-- A blank in a stripped text stands between characters that are none. -/
theorem Stripped.around_blank {front back : List Char} {c : Char}
    (stripped : Stripped (front ++ c :: back)) (blank : isBlank c = true) :
    ¬ AllBlank front ∧ ¬ AllBlank back := by
  constructor
  · intro before
    have first : ∃ d ∈ (front ++ c :: back).head?, isBlank d = true := by
      cases front with
      | nil => exact ⟨c, rfl, blank⟩
      | cons d front => exact ⟨d, rfl, before d List.mem_cons_self⟩
    obtain ⟨d, head, isBlank⟩ := first
    rw [stripped.begins d head] at isBlank
    cases isBlank
  · intro behind
    obtain ⟨d, last⟩ := Option.ne_none_iff_exists'.1
      (mt List.getLast?_eq_none_iff.1 (List.cons_ne_nil c back))
    have isBlank : isBlank d = true := by
      rcases List.mem_cons.1 (List.mem_of_getLast? last) with rfl | member
      · exact blank
      · exact behind d member
    rw [stripped.ends d] at isBlank
    · cases isBlank
    · rw [List.getLast?_append, last]
      rfl

theorem strip_blanks_append {blanks : List Char} (blank : AllBlank blanks) (cs : List Char) :
    strip (blanks ++ cs) = strip cs := by
  obtain ⟨front, back, split, before, behind⟩ := exists_strip cs
  have all : AllBlank (blanks ++ front) := fun c member =>
    (List.mem_append.1 member).elim (blank c) (before c)
  conv => lhs; rw [split, ← List.append_assoc]
  exact strip_eq all behind (stripped_strip cs)

theorem strip_append_blanks {blanks : List Char} (blank : AllBlank blanks) (cs : List Char) :
    strip (cs ++ blanks) = strip cs := by
  obtain ⟨front, back, split, before, behind⟩ := exists_strip cs
  have all : AllBlank (back ++ blanks) := fun c member =>
    (List.mem_append.1 member).elim (behind c) (blank c)
  conv => lhs; rw [split, List.append_assoc, List.append_assoc]
  exact strip_eq before all (stripped_strip cs)

theorem strip_blanks {blanks : List Char} (blank : AllBlank blanks) : strip blanks = [] := by
  have none : strip ([] ++ ([] ++ blanks)) = [] := strip_eq nofun blank ⟨nofun, nofun⟩
  exact none

theorem allBlank_of_strip {cs : List Char} (none : strip cs = []) : AllBlank cs := by
  obtain ⟨front, back, split, before, behind⟩ := exists_strip cs
  rw [split, none]
  exact fun c member => (List.mem_append.1 member).elim (before c) (behind c)

theorem strip_of_stripped {cs : List Char} (stripped : Stripped cs) : strip cs = cs := by
  have same : strip ([] ++ (cs ++ [])) = cs := strip_eq nofun nofun stripped
  rwa [List.nil_append, List.append_nil] at same

/-! ## Records -/

/-- The stripped lines of a text that are not blank. -/
def lineRecords (cs : List Char) : List (List Char) :=
  ((pieces cs).map strip).filter fun line => !line.isEmpty

theorem records_eq (content : String) :
    records content = (lineRecords (unifyNewlines content.toList)).map String.ofList := by
  rw [records, lineRecords]
  generalize (pieces (unifyNewlines content.toList)).map strip = lines
  induction lines with
  | nil => rfl
  | cons line lines ih =>
      cases line with
      | nil => exact ih
      | cons c rest => exact congrArg (String.ofList (c :: rest) :: ·) ih

/-- A line end cuts a text in two. -/
theorem lineRecords_append {c : Char} (ends : isLineEnd c = true) (front back : List Char) :
    lineRecords (front ++ c :: back) = lineRecords front ++ lineRecords back := by
  rw [lineRecords, pieces, List.splitOnP_append_cons _ _ ends, List.map_append, List.filter_append]
  rfl

/-- A text without line ends. -/
def IsLine (cs : List Char) : Prop := ∀ c ∈ cs, isLineEnd c = false

instance (cs : List Char) : Decidable (IsLine cs) := List.decidableBAll _ cs

theorem lineRecords_line {cs : List Char} (line : IsLine cs) :
    lineRecords cs = if strip cs = [] then [] else [strip cs] := by
  rw [lineRecords, pieces, List.splitOnP_eq_singleton line, List.map_singleton]
  cases strip cs <;> simp

theorem line_cases (cs : List Char) : IsLine cs ∨
    ∃ front c back, cs = front ++ c :: back ∧ IsLine front ∧ isLineEnd c = true := by
  induction cs with
  | nil => exact .inl nofun
  | cons c rest ih =>
      cases ends : isLineEnd c with
      | true => exact .inr ⟨[], c, rest, rfl, nofun, ends⟩
      | false =>
          rcases ih with line | ⟨front, d, back, rfl, line, endsLater⟩
          · exact .inl (List.forall_mem_cons.2 ⟨ends, line⟩)
          · exact .inr ⟨c :: front, d, back, rfl, List.forall_mem_cons.2 ⟨ends, line⟩, endsLater⟩

/-- A text is a line, or a line, a line end and a text. -/
theorem line_induction {motive : List Char → Prop} (line : ∀ cs, IsLine cs → motive cs)
    (append : ∀ front c back, IsLine front → isLineEnd c = true → motive back →
      motive (front ++ c :: back)) (cs : List Char) : motive cs := by
  rcases line_cases cs with whole | ⟨front, c, back, rfl, begun, ends⟩
  · exact line cs whole
  · have shorter : back.length < (front ++ c :: back).length := by
      rw [List.length_append, List.length_cons]
      omega
    exact append front c back begun ends (line_induction line append back)
termination_by cs.length

/-- Line ends are blanks. -/
theorem isBlank_of_isLineEnd {c : Char} (ends : isLineEnd c = true) : isBlank c = true := by
  simp only [isLineEnd, isBlank, Bool.or_eq_true, Bool.and_eq_true, decide_eq_true_eq,
    beq_iff_eq] at ends ⊢
  omega

/-- Blanks have no records. -/
theorem lineRecords_blanks {blanks : List Char} (blank : AllBlank blanks) :
    lineRecords blanks = [] := by
  induction blanks using line_induction with
  | line cs line =>
      rw [lineRecords_line line, if_pos (strip_blanks blank)]
  | append front c back line ends ih =>
      have none : strip front = [] :=
        strip_blanks fun d member => blank d (List.mem_append_left _ member)
      rw [lineRecords_append ends, lineRecords_line line, if_pos none,
        ih fun d member => blank d (by simp [member])]
      rfl

/-- Only blanks have no records. -/
theorem allBlank_of_lineRecords {cs : List Char} (none : lineRecords cs = []) : AllBlank cs := by
  have line : ∀ cs, IsLine cs → lineRecords cs = [] → AllBlank cs := by
    intro cs line none
    refine allBlank_of_strip ?_
    by_contra some
    rw [lineRecords_line line, if_neg some] at none
    cases none
  induction cs using line_induction with
  | line cs begun => exact line cs begun none
  | append front c back begun ends ih =>
      rw [lineRecords_append ends, List.append_eq_nil_iff] at none
      intro d member
      rcases List.mem_append.1 member with inFront | inBack
      · exact line front begun none.1 d inFront
      · rcases List.mem_cons.1 inBack with rfl | later
        · exact isBlank_of_isLineEnd ends
        · exact ih none.2 d later

theorem IsLine.append {front back : List Char} (first : IsLine front) (second : IsLine back) :
    IsLine (front ++ back) :=
  fun c member => (List.mem_append.1 member).elim (first c) (second c)

/-- Blanks in front of a text do not change its records. -/
theorem lineRecords_blanks_append {blanks : List Char} (blank : AllBlank blanks) (cs : List Char) :
    lineRecords (blanks ++ cs) = lineRecords cs := by
  induction blanks using line_induction with
  | line blanks begun =>
      -- the blanks are in front of the first line
      rcases line_cases cs with line | ⟨front, c, back, rfl, line, ends⟩
      · rw [lineRecords_line (begun.append line), lineRecords_line line, strip_blanks_append blank]
      · rw [← List.append_assoc, lineRecords_append ends, lineRecords_append ends,
          lineRecords_line (begun.append line), lineRecords_line line, strip_blanks_append blank]
  | append front c back line ends ih =>
      have none : lineRecords front = [] :=
        lineRecords_blanks fun d member => blank d (List.mem_append_left _ member)
      rw [List.append_assoc, List.cons_append, lineRecords_append ends, none,
        ih fun d member => blank d (by simp [member])]
      rfl

/-- Nor do blanks behind it. -/
theorem lineRecords_append_blanks {blanks : List Char} (blank : AllBlank blanks) (cs : List Char) :
    lineRecords (cs ++ blanks) = lineRecords cs := by
  induction cs using line_induction with
  | line cs begun =>
      -- the blanks are behind the last line
      rcases line_cases blanks with line | ⟨front, c, back, rfl, line, ends⟩
      · rw [lineRecords_line (begun.append line), lineRecords_line begun, strip_append_blanks blank]
      · have first : AllBlank front := fun d member => blank d (List.mem_append_left _ member)
        have others : AllBlank back := fun d member => blank d (by simp [member])
        rw [← List.append_assoc, lineRecords_append ends, lineRecords_blanks others,
          lineRecords_line (begun.append line), lineRecords_line begun, strip_append_blanks first,
          List.append_nil]
  | append front c back line ends ih =>
      rw [List.append_assoc, List.cons_append, lineRecords_append ends, lineRecords_append ends, ih]

/-- The records of a text are those of the stripped text. -/
theorem lineRecords_strip (cs : List Char) : lineRecords (strip cs) = lineRecords cs := by
  obtain ⟨front, back, split, before, behind⟩ := exists_strip cs
  conv => rhs; rw [split, lineRecords_blanks_append before, lineRecords_append_blanks behind]

/-! ## Files -/

/-- A text that holds some texts one per line. Lines end with a line feed, a carriage return or
both; the last one need not end. -/
inductive HoldsLines : List String → List Char → Prop
  | nil : HoldsLines [] []
  | last {text : String} : HoldsLines [text] text.toList
  | cons {text : String} {texts : List String} {ending rest : List Char} :
      ending ∈ [['\n'], ['\r', '\n'], ['\r']] → HoldsLines texts rest →
        HoldsLines (text :: texts) (text.toList ++ (ending ++ rest))

theorem unifyNewlines_append {text : List Char} (noReturn : '\r' ∉ text) (rest : List Char) :
    unifyNewlines (text ++ rest) = text ++ unifyNewlines rest := by
  induction text with
  | nil => rfl
  | cons c text ih =>
      rw [List.mem_cons, not_or] at noReturn
      have other : c ≠ '\r' := fun same => noReturn.1 same.symm
      rw [List.cons_append, unifyNewlines, if_neg other, ih noReturn.2]
      · rfl
      · exact fun _ same _ => other same

/-- Each way to end a line becomes a line feed. -/
theorem unifyNewlines_ending {ending rest : List Char}
    (ends : ending ∈ [['\n'], ['\r', '\n'], ['\r']]) (begins : rest.head? ≠ some '\n') :
    unifyNewlines (ending ++ rest) = '\n' :: unifyNewlines rest := by
  simp only [List.mem_cons, List.not_mem_nil, or_false] at ends
  rcases ends with rfl | rfl | rfl
  · exact unifyNewlines_append (show '\r' ∉ ['\n'] by decide) rest
  · rfl
  · rw [List.singleton_append, unifyNewlines]
    · rfl
    · rintro more - rfl
      exact begins rfl

/-- What stands behind a carriage return is the next text, not a line feed. -/
theorem HoldsLines.head?_ne {texts : List String} {cs : List Char} (holds : HoldsLines texts cs)
    (each : ∀ text ∈ texts, text.toList ≠ [] ∧ '\n' ∉ text.toList ∧ '\r' ∉ text.toList) :
    cs.head? ≠ some '\n' := by
  have first : ∀ text ∈ texts, ∀ rest : List Char, (text.toList ++ rest).head? ≠ some '\n' := by
    intro text member rest
    obtain ⟨nonempty, unfed, -⟩ := each text member
    obtain ⟨c, others, same⟩ := List.exists_cons_of_ne_nil nonempty
    rw [same, List.cons_append, List.head?_cons]
    rintro ⟨⟩
    exact unfed (same ▸ List.mem_cons_self)
  cases holds with
  | nil => nofun
  | @last text =>
      have begins := first text List.mem_cons_self []
      rwa [List.append_nil] at begins
  | cons ends holds => exact first _ List.mem_cons_self _

/-- A file that holds texts one per line has the records of these texts. -/
theorem lineRecords_of_holdsLines {texts : List String} {cs : List Char}
    (holds : HoldsLines texts cs)
    (each : ∀ text ∈ texts, text.toList ≠ [] ∧ '\n' ∉ text.toList ∧ '\r' ∉ text.toList) :
    lineRecords (unifyNewlines cs) = texts.flatMap fun text => lineRecords text.toList := by
  induction holds with
  | nil => exact lineRecords_blanks nofun
  | @last text =>
      have whole := unifyNewlines_append (each text List.mem_cons_self).2.2 []
      rw [List.append_nil] at whole
      rw [whole, List.flatMap_singleton]
      exact congrArg lineRecords (List.append_nil _)
  | @cons text texts ending rest ends holds ih =>
      have others := fun text member => each text (List.mem_cons_of_mem _ member)
      have begins := holds.head?_ne others
      rw [unifyNewlines_append (each text List.mem_cons_self).2.2, unifyNewlines_ending ends begins,
        lineRecords_append (by decide), ih others, List.flatMap_cons]

end SumCalc.Text

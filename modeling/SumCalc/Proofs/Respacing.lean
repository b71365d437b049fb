import SumCalc.Proofs.Denotation
import SumCalc.Proofs.Lines
import SumCalc.Proofs.Origins
import SumCalc.Proofs.Outcome
import SumCalc.Proofs.Printing

/-!
# Sources that differ in blanks

Two sources with the same lexemes are worth the same and are written the same, or they are refused
for the same kind of reason. So a source may be stripped. It may not be cut at its blanks: every
source has one number more than plus signs, so the parts are not all sources. A form feed is a blank
of the grammar and ends a line, so a source with one between its tokens falls into several lines.

Results:
1. `lexemes?_strip`, `exists_lexemes_lineRecords`: the lexemes of a stripped source, of its lines.
2. `evaluate_alike`: what comes of two sources with the same lexemes.
3. `lineRecords_of_unbroken`: a source without form feeds inside is one line, the stripped source.
4. `exists_outside_of_broken`: with one inside it has several, and one of these is no source.
-/

namespace SumCalc

/-! ## Blanks of a source -/

/-- A text with lexemes has no stray character. -/
theorem not_isStray_of_mem {cs : List Char} {lexemes : List Lexeme}
    (found : lexemes? cs = some lexemes) : ∀ c ∈ cs, ¬ Token.IsStray c := by
  induction cs using Piece.text_induction generalizing lexemes with
  | nil => nofun
  | stray c rest stray =>
      rw [lexemes?_stray stray] at found
      cases found
  | piece piece rest munched ih =>
      have regular : ∀ c ∈ piece.text, ¬ Token.IsStray c := by
        rintro c member ⟨unskipped, undigit, unsymbol⟩
        cases munched.1 with
        | number _ inside => simp [inside c member] at undigit
        | blanks _ inside => simp [inside c member] at unskipped
        | plus | leftParen | rightParen =>
            cases List.mem_singleton.1 member
            cases unsymbol
      have others : ∃ later, lexemes? rest = some later := by
        cases piece with
        | blanks text =>
            cases munched.1 with
            | blanks _ inside => exact ⟨lexemes, (lexemes?_blanks inside rest).symm.trans found⟩
        | token kind text =>
            rw [Piece.text_token, lexemes?_munched munched] at found
            obtain ⟨later, found, -⟩ := Option.map_eq_some_iff.1 found
            exact ⟨later, found⟩
      obtain ⟨later, found⟩ := others
      intro c member
      exact (List.mem_append.1 member).elim (regular c) (ih found c)

theorem isDigit_eq_false_of_isBlank {c : Char} (blank : Text.isBlank c = true) :
    c.isDigit = false := by
  by_contra digit
  obtain ⟨least, greatest⟩ := Char.isDigit_iff_toNat.1 (by simpa using digit)
  have zero : '0'.toNat = 48 := rfl
  have nine : '9'.toNat = 57 := rfl
  simp only [Text.isBlank, Bool.or_eq_true, Bool.and_eq_true, decide_eq_true_eq,
    beq_iff_eq] at blank
  omega

/-- The blanks of a text with lexemes are those between tokens. -/
theorem isSkipped_of_isBlank {cs : List Char} {lexemes : List Lexeme}
    (found : lexemes? cs = some lexemes) {c : Char} (member : c ∈ cs)
    (blank : Text.isBlank c = true) : Token.isSkipped c = true := by
  by_contra unskipped
  have unsymbol : Token.symbol? c = none := by
    cases symbol : Token.symbol? c with
    | none => rfl
    | some kind => rcases Token.eq_of_symbol? symbol with rfl | rfl | rfl <;> cases blank
  exact not_isStray_of_mem found c member
    ⟨by simpa using unskipped, isDigit_eq_false_of_isBlank blank, unsymbol⟩

/-- A blank keeps what stands before it apart from what stands behind it. -/
theorem lexemes?_append_blank (front : List Char) {blanks : List Char}
    (begins : ∀ c ∈ blanks.head?, Text.isBlank c = true) :
    lexemes? (front ++ blanks) = joined (lexemes? front) (lexemes? blanks) :=
  lexemes?_append (apart_of_head fun c head => isDigit_eq_false_of_isBlank (begins c head))

/-- A stripped text has the same lexemes. -/
theorem lexemes?_strip {cs : List Char} {lexemes : List Lexeme}
    (found : lexemes? cs = some lexemes) : lexemes? (Text.strip cs) = some lexemes := by
  obtain ⟨front, back, split, before, behind⟩ := Text.exists_strip cs
  have first : ∀ c ∈ front, Token.isSkipped c = true := by
    intro c member
    exact isSkipped_of_isBlank found (by rw [split]; simp [member]) (before c member)
  have last : ∀ c ∈ back, Token.isSkipped c = true := by
    intro c member
    exact isSkipped_of_isBlank found (by rw [split]; simp [member]) (behind c member)
  have none : lexemes? back = some [] := by
    have empty := lexemes?_blanks last []
    rwa [List.append_nil, lexemes?_nil] at empty
  rw [split, lexemes?_blanks first,
    lexemes?_append_blank _ fun c head => behind c (List.mem_of_head? head), none] at found
  obtain ⟨inner, last, core, ⟨⟩, rfl⟩ := joined_eq_some_iff.1 found
  rw [core, List.append_nil]

/-- The lexemes of a text are those of its records, one after the other. -/
theorem exists_lexemes_lineRecords {cs : List Char} {lexemes : List Lexeme}
    (found : lexemes? cs = some lexemes) :
    ∃ parts, List.Forall₂ (fun record part => lexemes? record = some part) (Text.lineRecords cs)
        parts ∧
      parts.flatten = lexemes := by
  have line : ∀ {cs lexemes}, Text.IsLine cs → lexemes? cs = some lexemes →
      ∃ parts, List.Forall₂ (fun record part => lexemes? record = some part) (Text.lineRecords cs)
          parts ∧
        parts.flatten = lexemes := by
    intro cs lexemes line found
    have stripped := lexemes?_strip found
    rw [Text.lineRecords_line line]
    split
    · next none =>
        rw [none, lexemes?_nil] at stripped
        exact ⟨[], .nil, Option.some.inj stripped⟩
    · exact ⟨[lexemes], .cons stripped .nil, by simp⟩
  induction cs using Text.line_induction generalizing lexemes with
  | line cs begun => exact line begun found
  | append front c back begun ends ih =>
      -- the line end is a blank between the lexemes of the line and those of what follows
      have blank := Text.isBlank_of_isLineEnd ends
      have skipped := isSkipped_of_isBlank found (by simp) blank
      have single : lexemes? (c :: back) = lexemes? back :=
        lexemes?_blanks (List.forall_mem_singleton.2 skipped) back
      rw [lexemes?_append_blank _ (by simp [blank]), single] at found
      obtain ⟨first, last, here, later, rfl⟩ := joined_eq_some_iff.1 found
      obtain ⟨parts, each, rfl⟩ := line begun here
      obtain ⟨others, eachOther, rfl⟩ := ih later
      rw [Text.lineRecords_append ends]
      exact ⟨parts ++ others, List.rel_append each eachOther, by simp⟩

/-! ## Sources with the same lexemes -/

theorem inLanguage_iff_lexemes {source : String} :
    InLanguage source ↔
      ∃ lexemes, lexemes? source.toList = some lexemes ∧ Derivable (lexemes.map Lexeme.kind) := by
  constructor
  · rintro ⟨tokens, lexes, derivable⟩
    refine ⟨_, lexemes?_of_lexes lexes, ?_⟩
    rw [List.map_map]
    exact derivable
  · rintro ⟨lexemes, found, derivable⟩
    obtain ⟨tokens, lexes, rfl⟩ := lexemes?_eq_some_iff.1 found
    rw [List.map_map] at derivable
    exact ⟨tokens, lexes, derivable⟩

namespace Term

/-- Places play no part in the value. -/
theorem value_bare (config : Config) (e : Expr) : e.bare.value config = e.value config := by
  induction e with
  | number n place => rw [bare, value_number, value_number]
  | plus left right place ihl ihr => rw [bare, value_plus, value_plus, ihl, ihr]
  | foreign a => exact a.elim

end Term

section

variable {config : Config} {source other : String}

/-- A source of the language that has no expression has a literal beyond the width. -/
theorem evaluate_of_not_parsed (inside : InLanguage source)
    (unparsed : ∀ e, Source.parse config source ≠ .ok e) :
    ∃ place text, Source.evaluate config source =
      .error (.rejected (.located place (.literalOverflow text config.width.bits))) := by
  obtain ⟨tokens, lexes, derivable⟩ := inside
  cases first : firstOverflow? config.width tokens with
  | some token => exact ⟨_, _, evaluate_literalOverflow lexes derivable first⟩
  | none =>
      obtain ⟨e, parsed, -⟩ : ∃ e, Source.parse config source = .ok e ∧ _ :=
        parse_of_fits lexes derivable first
      exact absurd parsed (unparsed e)

/-- What comes of two sources is alike: the same value and expressions that differ in places only,
or rejections with the same code. -/
inductive EvaluateAlike (config : Config) (source other : String) : Prop
  | accepted {e e' : Expr} {n : Int} :
      Source.evaluate config source = .ok ⟨source, e, n⟩ →
        Source.evaluate config other = .ok ⟨other, e', n⟩ → e.bare = e'.bare →
          EvaluateAlike config source other
  | refused {rejection rejection' : Rejection} :
      Source.evaluate config source = .error (.rejected rejection) →
        Source.evaluate config other = .error (.rejected rejection') →
          rejection.code = rejection'.code → EvaluateAlike config source other

/-- Sources with the same lexemes have the same expression, but for its places. -/
theorem exists_parse_of_same (same : lexemes? source.toList = lexemes? other.toList) {e : Expr}
    (parsed : Source.parse config source = .ok e) :
    ∃ e', Source.parse config other = .ok e' ∧ e'.bare = e.bare := by
  obtain ⟨lexemes, found, denotes⟩ := (parse_iff_denotes config source e.bare).1 ⟨e, parsed, rfl⟩
  exact (parse_iff_denotes config other e.bare).2 ⟨lexemes, same ▸ found, denotes⟩

/-- What comes of two sources of the language with the same lexemes is alike. -/
theorem evaluate_alike (inside : InLanguage source)
    (same : lexemes? source.toList = lexemes? other.toList) :
    EvaluateAlike config source other := by
  have insideOther : InLanguage other := by
    rw [inLanguage_iff_lexemes] at inside ⊢
    rwa [← same]
  cases parsed : Source.parse config source with
  | ok e =>
      obtain ⟨e', parsedOther, bare⟩ := exists_parse_of_same same parsed
      have value : e'.value config = e.value config := by
        rw [← Term.value_bare, bare, Term.value_bare]
      have here := evaluate_of_parse parsed
      have there := evaluate_of_parse parsedOther
      rw [value] at there
      cases valued : e.value config with
      | ok n =>
          rw [valued] at here there
          exact .accepted here there bare.symm
      | error rejection =>
          rw [valued] at here there
          exact .refused here there rfl
  | error failure =>
      have unparsed : ∀ e, Source.parse config source ≠ .ok e := by simp [parsed]
      have unparsedOther : ∀ e, Source.parse config other ≠ .ok e := by
        intro e parsedOther
        obtain ⟨e', parsed, -⟩ := exists_parse_of_same same.symm parsedOther
        exact unparsed e' parsed
      obtain ⟨_, _, here⟩ := evaluate_of_not_parsed inside unparsed
      obtain ⟨_, _, there⟩ := evaluate_of_not_parsed insideOther unparsedOther
      exact .refused here there rfl

end

/-! ## Form feeds -/

/-- A source without the blanks around it. -/
def stripped (source : String) : String := String.ofList (Text.strip source.toList)

/-- A form feed stands between the tokens of a source. -/
def Broken (source : String) : Prop := '\x0c' ∈ Text.strip source.toList

instance (source : String) : Decidable (Broken source) := inferInstanceAs (Decidable (_ ∈ _))

/-- How many of some lexemes are plus signs. -/
def signCount (lexemes : List Lexeme) : Nat :=
  lexemes.countP fun lexeme => lexeme.kind = .plus

/-- A source of the language has one number more than plus signs. -/
theorem numberCount_of_inLanguage {source : String} {lexemes : List Lexeme}
    (inside : InLanguage source) (found : lexemes? source.toList = some lexemes) :
    numberCount lexemes = signCount lexemes + 1 := by
  obtain ⟨tokens, lexes, derivable⟩ := inside
  obtain rfl := Option.some.inj ((lexemes?_of_lexes lexes).symm.trans found)
  have signs : signCount (tokens.map Token.lexeme) = (operators tokens).length := by
    rw [signCount, List.countP_map, operators, ← List.countP_eq_length_filter]
    rfl
  rw [numberCount_map_lexeme, signs, length_numbers derivable]

/-- Each of several sources of the language has one number more than plus signs. -/
theorem numberCount_flatten {sources : List (List Char)} {parts : List (List Lexeme)}
    (each : List.Forall₂ (fun source part => lexemes? source = some part) sources parts)
    (inside : ∀ source ∈ sources, InLanguage (String.ofList source)) :
    numberCount parts.flatten = signCount parts.flatten + sources.length := by
  induction each with
  | nil => rfl
  | @cons source part sources parts found each ih =>
      have here : numberCount part = signCount part + 1 :=
        numberCount_of_inLanguage (inside source List.mem_cons_self)
          (by rwa [String.toList_ofList])
      have later := ih fun source member => inside source (List.mem_cons_of_mem _ member)
      rw [List.flatten_cons, numberCount_append, here, later, signCount, signCount, signCount,
        List.countP_append, List.length_cons]
      omega

section

variable {source : String}

/-- The lexemes of a source of the language, which are those of the stripped source. -/
theorem exists_lexemes_stripped (inside : InLanguage source) :
    ∃ lexemes, lexemes? source.toList = some lexemes ∧
      lexemes? (stripped source).toList = some lexemes := by
  obtain ⟨lexemes, found, -⟩ := inLanguage_iff_lexemes.1 inside
  refine ⟨lexemes, found, ?_⟩
  rw [stripped, String.toList_ofList]
  exact lexemes?_strip found

/-- What comes of a source and of the stripped source is alike. -/
theorem evaluate_stripped_alike (config : Config) (inside : InLanguage source) :
    EvaluateAlike config source (stripped source) := by
  obtain ⟨lexemes, found, foundStripped⟩ := exists_lexemes_stripped inside
  exact evaluate_alike inside (found.trans foundStripped.symm)

theorem strip_ne_nil (inside : InLanguage source) : Text.strip source.toList ≠ [] := by
  intro none
  obtain ⟨lexemes, found, foundStripped⟩ := exists_lexemes_stripped inside
  have number := numberCount_of_inLanguage inside found
  rw [stripped, String.toList_ofList, none, lexemes?_nil] at foundStripped
  cases foundStripped
  cases number

theorem lineRecords_ne_nil (inside : InLanguage source) : Text.lineRecords source.toList ≠ [] :=
  fun none => strip_ne_nil inside (Text.strip_blanks (Text.allBlank_of_lineRecords none))

/-- A source without form feeds inside is one line, the stripped source. -/
theorem lineRecords_of_unbroken (inside : InLanguage source) (unfed : '\n' ∉ source.toList)
    (unreturned : '\r' ∉ source.toList) (unbroken : ¬ Broken source) :
    Text.lineRecords source.toList = [Text.strip source.toList] := by
  obtain ⟨lexemes, found, -⟩ := exists_lexemes_stripped inside
  obtain ⟨front, back, split, -, -⟩ := Text.exists_strip source.toList
  have line : Text.IsLine (Text.strip source.toList) := by
    intro c member
    have within : c ∈ source.toList := by rw [split]; simp [member]
    by_contra ends
    have blank := Text.isBlank_of_isLineEnd (by simpa using ends)
    have skipped := isSkipped_of_isBlank found within blank
    simp only [Token.isSkipped, Bool.or_eq_true, decide_eq_true_eq] at skipped
    rcases skipped with (((rfl | rfl) | rfl) | rfl) | rfl
    · exact ends rfl
    · exact ends rfl
    · exact unbroken member
    · exact unreturned within
    · exact unfed within
  rw [← Text.lineRecords_strip, Text.lineRecords_line line,
    Text.strip_of_stripped (Text.stripped_strip _), if_neg (strip_ne_nil inside)]

/-- A broken source has several lines, and one of these is no source. -/
theorem exists_outside_of_broken (inside : InLanguage source) (broken : Broken source) :
    2 ≤ (Text.lineRecords source.toList).length ∧
      ∃ record ∈ Text.lineRecords source.toList, ¬ InLanguage (String.ofList record) := by
  obtain ⟨front, back, split⟩ := List.append_of_mem broken
  have around := (split ▸ Text.stripped_strip source.toList).around_blank (by decide)
  have cut : Text.lineRecords source.toList = Text.lineRecords front ++ Text.lineRecords back := by
    rw [← Text.lineRecords_strip, split, Text.lineRecords_append (by decide)]
  have first : Text.lineRecords front ≠ [] := mt Text.allBlank_of_lineRecords around.1
  have last : Text.lineRecords back ≠ [] := mt Text.allBlank_of_lineRecords around.2
  have several : 2 ≤ (Text.lineRecords source.toList).length := by
    have some := List.length_pos_of_ne_nil first
    have others := List.length_pos_of_ne_nil last
    rw [cut, List.length_append]
    omega
  refine ⟨several, ?_⟩
  by_contra none
  have all : ∀ record ∈ Text.lineRecords source.toList, InLanguage (String.ofList record) := by
    intro record member
    by_contra outside
    exact none ⟨record, member, outside⟩
  -- so many numbers more than signs as there are lines, but there is only one more
  obtain ⟨lexemes, found, -⟩ := inLanguage_iff_lexemes.1 inside
  obtain ⟨parts, each, rfl⟩ := exists_lexemes_lineRecords found
  have whole := numberCount_of_inLanguage inside found
  have pieces := numberCount_flatten each all
  omega

end

end SumCalc

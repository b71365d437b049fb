import SumCalc.Proofs.Respacing

/-!
# Blanks put into a source

Blanks may be put in anywhere but within a number, and what comes of the source stays the same, be
it an expression or a refusal: only places differ. A reader decides by what it awaits and by how many
parentheses are open, and a token matters to it as a lexeme. So two readers that are `Level` take the
same text alike, wherever it stands, and stop at the same character or at the same token. Literals
are looked at when the whole source is read; the first that is too great is the same lexeme.

Results:
1. `Reader.alike_step`, `Reader.alike_read`: readers that are level stay level, or both stop.
2. `alike_ofSource`: a source is read, or refused, alike with blanks put in.
3. `parse_insert_blanks`: the expression or the refusal of a source with blanks put in.
-/

namespace SumCalc

/-! ## Results that differ in places -/

/-- `AlikeBut related first second`: both are results, and related, or both are rejections with the
same cause. -/
inductive AlikeBut {α β : Type} (related : α → β → Prop) :
    Except Rejection α → Except Rejection β → Prop
  | accepted {a : α} {b : β} : related a b → AlikeBut related (.ok a) (.ok b)
  | refused {rejection rejection' : Rejection} :
      rejection.cause = rejection'.cause →
        AlikeBut related (.error rejection) (.error rejection')

theorem AlikeBut.refl {α : Type} {related : α → α → Prop} (reflexive : ∀ a, related a a)
    (result : Except Rejection α) : AlikeBut related result result := by
  cases result with
  | ok a => exact .accepted (reflexive a)
  | error rejection => exact .refused rfl

theorem AlikeBut.bind {α β γ δ : Type} {related : α → β → Prop} {relatedNext : γ → δ → Prop}
    {first : Except Rejection α} {second : Except Rejection β} {next : α → Except Rejection γ}
    {next' : β → Except Rejection δ} (alike : AlikeBut related first second)
    (onward : ∀ a b, related a b → AlikeBut relatedNext (next a) (next' b)) :
    AlikeBut relatedNext (first >>= next) (second >>= next') := by
  cases alike with
  | accepted both => exact onward _ _ both
  | refused same => exact .refused same

namespace Reader

/-! ## Readers -/

/-- Two readers await the same within equally many parentheses. -/
def Level (reader reader' : Reader) : Prop :=
  reader.awaited = reader'.awaited ∧ reader.outer.length = reader'.outer.length

theorem Level.refl (reader : Reader) : Level reader reader := ⟨rfl, rfl⟩

/-- Readers that are level take a lexeme alike. -/
theorem alike_step {reader reader' : Reader} (level : Level reader reader') {token token' : Token}
    (same : token.lexeme = token'.lexeme) :
    AlikeBut Level (reader.step token) (reader'.step token') := by
  obtain ⟨parts, outer, awaited⟩ := reader
  obtain ⟨parts', outer', awaited'⟩ := reader'
  obtain ⟨rfl, depth⟩ := level
  obtain ⟨kind, text, place⟩ := token
  obtain ⟨kind', text', place'⟩ := token'
  cases same
  cases awaited <;> cases kind
  case operand.number => exact .accepted ⟨rfl, depth⟩
  case operand.leftParen => exact .accepted ⟨rfl, congrArg (· + 1) depth⟩
  case operator.plus => exact .accepted ⟨rfl, depth⟩
  case operator.rightParen =>
      -- the innermost parenthesis is closed, if one is open
      cases outer <;> cases outer' <;> simp only [List.length_cons, List.length_nil] at depth
      · exact .refused rfl
      · omega
      · omega
      · exact .accepted ⟨rfl, by simpa using depth⟩
  all_goals exact .refused rfl

/-- Readers that are level take a text alike, wherever it stands. -/
theorem alike_read {reader reader' : Reader} (level : Level reader reader') (cs : List Char)
    (place place' : Position) : AlikeBut Level (reader.read cs place) (reader'.read cs place') := by
  induction cs using Piece.text_induction generalizing reader reader' place place' with
  | nil =>
      rw [read_nil, read_nil]
      exact .accepted level
  | stray c rest stray =>
      rw [read_stray stray, read_stray stray]
      exact .refused rfl
  | piece piece rest munched ih =>
      cases piece with
      | blanks text =>
          have inside := munched.isSkipped
          rw [Piece.text_blanks, read_blanks inside, read_blanks inside]
          exact ih level _ _
      | token kind text =>
          rw [Piece.text_token, read_munched munched, read_munched munched]
          have step : AlikeBut Level (reader.step ⟨kind, String.ofList text, place⟩)
              (reader'.step ⟨kind, String.ofList text, place'⟩) := alike_step level rfl
          exact step.bind fun _ _ level => ih level _ _

theorem alike_finish {reader reader' : Reader} (level : Level reader reader')
    (last last' : Position) :
    AlikeBut (fun _ _ => True) (reader.finish last) (reader'.finish last') := by
  obtain ⟨parts, outer, awaited⟩ := reader
  obtain ⟨parts', outer', awaited'⟩ := reader'
  obtain ⟨rfl, depth⟩ := level
  cases awaited with
  | operand => exact .refused rfl
  | operator =>
      cases outer <;> cases outer' <;> simp only [List.length_cons, List.length_nil] at depth
      · exact .accepted trivial
      · omega
      · omega
      · exact .refused rfl

end Reader

/-! ## Sources with blanks put in -/

/-- Blanks keep apart what no number goes across. -/
theorem Apart.insert {front back blanks : List Char} (apart : Apart front back)
    (inside : ∀ c ∈ blanks, Token.isSkipped c = true) : Apart front (blanks ++ back) := by
  cases blanks with
  | nil => exact apart
  | cons c blanks => exact apart_blanks front back (List.cons_ne_nil c blanks) inside

section

variable {u v w : String}

/-- A source with blanks put in has the same lexemes. -/
theorem lexemes?_insert (apart : Apart u.toList v.toList)
    (blanks : ∀ c ∈ w.toList, Token.isSkipped c = true) :
    lexemes? (u ++ w ++ v).toList = lexemes? (u ++ v).toList := by
  rw [String.toList_append, String.toList_append, String.toList_append, List.append_assoc,
    lexemes?_append (apart.insert blanks), lexemes?_append apart, lexemes?_blanks blanks]

/-- A source is read, or refused, alike with blanks put in. -/
theorem alike_ofSource (apart : Apart u.toList v.toList)
    (blanks : ∀ c ∈ w.toList, Token.isSkipped c = true) :
    AlikeBut (fun _ _ => True) (ParseTree.ofSource (u ++ v)) (ParseTree.ofSource (u ++ w ++ v)) := by
  rw [ofSource_eq_read, ofSource_eq_read, String.toList_append, String.toList_append,
    String.toList_append, List.append_assoc, Reader.read_append apart,
    Reader.read_append (apart.insert blanks)]
  -- the front is read alike because it is the same, and what follows because the readers are level
  have front : AlikeBut Eq (Reader.initial.read u.toList .start)
      (Reader.initial.read u.toList .start) := .refl Eq.refl _
  have whole := front.bind fun next other (same : next = other) => by
    subst same
    exact Reader.alike_read (.refl next) v.toList (Position.start.afterAll u.toList)
      ((Position.start.afterAll u.toList).afterAll w.toList)
  simp only [Reader.read_blanks blanks]
  exact whole.bind fun _ _ level => Reader.alike_finish level _ _

end

/-! ## Expressions of sources with blanks put in -/

/-- What comes of two sources is alike: expressions that differ in places only, or rejections with the
same cause, so with the same code, message and finding. -/
inductive ParseAlike : Except Failure Expr → Except Failure Expr → Prop
  | accepted {e e' : Expr} : e.same e' = true → ParseAlike (.ok e) (.ok e')
  | refused {rejection rejection' : Rejection} :
      rejection.cause = rejection'.cause →
        ParseAlike (.error (.rejected rejection)) (.error (.rejected rejection'))

/-- The first literal beyond a width is told from the lexemes. -/
theorem map_firstOverflow? (width : Width) (tokens : List Token) :
    (firstOverflow? width tokens).map Token.lexeme =
      (tokens.map Token.lexeme).find? fun lexeme =>
        lexeme.kind = .number && width.maxInt < decimal lexeme.text.toList := by
  rw [firstOverflow?, numbers, List.find?_filter, List.find?_map]
  congr 2
  funext token
  rw [Bool.eq_iff_iff]
  simp only [Function.comp_apply, decide_eq_true_eq, Bool.and_eq_true]
  exact Iff.rfl

/-- Sources of the language with the same lexemes come to the same, but for places. -/
theorem parseAlike_of_inLanguage (config : Config) {source other : String}
    (inside : InLanguage source) (same : lexemes? source.toList = lexemes? other.toList) :
    ParseAlike (Source.parse config source) (Source.parse config other) := by
  obtain ⟨tokens, lexes, derivable⟩ := inside
  have insideOther : InLanguage other :=
    inLanguage_iff_lexemes.2 (same ▸ inLanguage_iff_lexemes.1 ⟨tokens, lexes, derivable⟩)
  obtain ⟨tokens', lexes', derivable'⟩ := insideOther
  have lexemes : tokens.map Token.lexeme = tokens'.map Token.lexeme := by
    rwa [lexemes?_of_lexes lexes, lexemes?_of_lexes lexes', Option.some.injEq] at same
  have overflows := map_firstOverflow? config.width tokens
  rw [lexemes, ← map_firstOverflow?] at overflows
  cases first : firstOverflow? config.width tokens with
  | none =>
      obtain ⟨e, parsed, -⟩ : ∃ e, Source.parse config source = .ok e ∧ _ :=
        parse_of_fits lexes derivable first
      obtain ⟨e', parsedOther, bare⟩ := exists_parse_of_same same parsed
      rw [parsed, parsedOther]
      exact .accepted (Term.same_iff_bare_eq.2 bare.symm)
  | some token =>
      rw [first] at overflows
      obtain ⟨token', firstOther, sameLexeme⟩ := Option.map_eq_some_iff.1 overflows.symm
      rw [parse_literalOverflow lexes derivable first,
        parse_literalOverflow lexes' derivable' firstOther]
      have text : token'.text = token.text := congrArg Lexeme.text sameLexeme
      rw [text]
      exact .refused rfl

/-- Blanks may be put into a source anywhere but within a number. -/
theorem parse_insert_blanks (config : Config) (u v w : String) (apart : Apart u.toList v.toList)
    (blanks : ∀ c ∈ w.toList, Token.isSkipped c = true) :
    ParseAlike (Source.parse config (u ++ v)) (Source.parse config (u ++ w ++ v)) := by
  have alike := alike_ofSource apart blanks
  cases read : ParseTree.ofSource (u ++ v) with
  | ok tree =>
      exact parseAlike_of_inLanguage config ((inLanguage_iff _).2 ⟨tree, read⟩)
        (lexemes?_insert apart blanks).symm
  | error rejection =>
      rw [read] at alike
      cases readOther : ParseTree.ofSource (u ++ w ++ v) with
      | ok tree =>
          rw [readOther] at alike
          cases alike
      | error rejection' =>
          rw [readOther] at alike
          rw [Source.parse, Source.parse, read, readOther]
          cases alike with
          | refused same => exact .refused same

/-- Line breaks and a tab between tokens: an expression stays the same, and what is refused is
refused for the same cause, be it a second number or a literal that is too great. -/
theorem parse_insert_blanks_lines :
    (∃ e e', Source.parse ⟨.bits8, .fail, .stack⟩ "1+(2+3)" = .ok e ∧
      Source.parse ⟨.bits8, .fail, .stack⟩ "1+\n\t(2+3)" = .ok e' ∧ e.same e' = true) ∧
    (∃ rejection, Source.parse ⟨.bits8, .fail, .stack⟩ "1+\n(2 34" = .error (.rejected rejection) ∧
      rejection.message = "unexpected NUMBER '34', expected one of: PLUS, RPAR") ∧
    ∃ rejection, Source.parse ⟨.bits8, .wrap, .recursive⟩ "1 \r\n+0200" =
        .error (.rejected rejection) ∧
      rejection.cause = .literalOverflow "0200" 8 := by
  refine ⟨?accepted, ?misplaced, ?overflow⟩
  case accepted =>
    have parsed : Source.parse ⟨.bits8, .fail, .stack⟩ "1+(2+3)" =
        .ok (.plus (.number 1 (some ⟨1, 1⟩))
          (.plus (.number 2 (some ⟨1, 4⟩)) (.number 3 (some ⟨1, 6⟩)) (some ⟨1, 4⟩))
          (some ⟨1, 1⟩)) := by cbv
    have alike : ParseAlike (Source.parse ⟨.bits8, .fail, .stack⟩ "1+(2+3)")
        (Source.parse ⟨.bits8, .fail, .stack⟩ "1+\n\t(2+3)") :=
      parse_insert_blanks _ "1+" "(2+3)" "\n\t" (by simp [Apart]) (by simp [Token.isSkipped])
    generalize Source.parse ⟨.bits8, .fail, .stack⟩ "1+\n\t(2+3)" = other at alike ⊢
    rw [parsed] at alike
    cases alike with
    | accepted same => exact ⟨_, _, parsed, rfl, same⟩
  case misplaced =>
    have refused : Source.parse ⟨.bits8, .fail, .stack⟩ "1+(2 34" =
        .error (.rejected (.located ⟨1, 6⟩ (.faultySyntax
          (.misplaced .number "34" [.terminal .plus, .terminal .rightParen])))) := by cbv
    have alike : ParseAlike (Source.parse ⟨.bits8, .fail, .stack⟩ "1+(2 34")
        (Source.parse ⟨.bits8, .fail, .stack⟩ "1+\n(2 34") :=
      parse_insert_blanks _ "1+" "(2 34" "\n" (by simp [Apart]) (by simp [Token.isSkipped])
    generalize Source.parse ⟨.bits8, .fail, .stack⟩ "1+\n(2 34" = other at alike ⊢
    rw [refused] at alike
    cases alike with
    | refused same => exact ⟨_, rfl, by rw [Rejection.message, ← same]; rfl⟩
  case overflow =>
    have refused : Source.parse ⟨.bits8, .wrap, .recursive⟩ "1+0200" =
        .error (.rejected (.located ⟨1, 3⟩ (.literalOverflow "0200" 8))) := by cbv
    have alike : ParseAlike (Source.parse ⟨.bits8, .wrap, .recursive⟩ "1+0200")
        (Source.parse ⟨.bits8, .wrap, .recursive⟩ "1 \r\n+0200") :=
      parse_insert_blanks _ "1" "+0200" " \r\n" (by simp [Apart]) (by simp [Token.isSkipped])
    generalize Source.parse ⟨.bits8, .wrap, .recursive⟩ "1 \r\n+0200" = other at alike ⊢
    rw [refused] at alike
    cases alike with
    | refused same => exact ⟨_, rfl, same.symm⟩

end SumCalc

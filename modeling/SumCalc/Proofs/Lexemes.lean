import SumCalc.Proofs.Piecewise

/-!
# Tokens without their places

A `Lexeme` is what a token is apart from its place. The lexemes of a text do not depend on where the
text stands, so those of a text that is put together are those of its parts, one after the other,
unless a number goes over a seam; and blanks do not matter.

Results:
1. `lexemes?_blanks`, `lexemes?_munched`, `lexemes?_stray`: the lexemes of a text, piece by piece.
2. `lexemes?_append`: the lexemes of a text that is put together.
3. `lexemes?_eq_some_iff`: the lexemes of a source are its tokens without their places.
4. `parts_of_lexes`: what stands in front of a token of a source and what stands behind it.
-/

namespace SumCalc

/-- A token without its place. -/
structure Lexeme where
  kind : Terminal
  text : String
deriving DecidableEq, Repr

def Token.lexeme (token : Token) : Lexeme := ⟨token.terminal, token.text⟩

/-- The lexemes that were found, unless a stray character was. -/
def Token.Scan.lexemes? (scan : Scan) : Option (List Lexeme) :=
  match scan.stray with
  | some _ => none
  | none => some (scan.tokens.map lexeme)

/-- The lexemes of a text, unless it has a stray character. -/
def lexemes? (cs : List Char) : Option (List Lexeme) := (Token.scanFrom [] cs .start).lexemes?

/-! ## Piece by piece -/

/-- A token in front of those that are found later. -/
theorem Token.lexemes?_scanFrom_single (token : Token) (cs : List Char) (place : Position) :
    (scanFrom [token] cs place).lexemes? =
      (scanFrom [] cs place).lexemes?.map (token.lexeme :: ·) := by
  rw [scanFrom_done, Scan.lexemes?, Scan.lexemes?]
  cases (scanFrom [] cs place).stray <;> simp

/-- Where a text stands plays no part. -/
theorem Token.lexemes?_scanFrom (cs : List Char) (place : Position) :
    (scanFrom [] cs place).lexemes? = SumCalc.lexemes? cs := by
  rw [SumCalc.lexemes?]
  generalize Position.start = other
  induction cs using Piece.text_induction generalizing place other with
  | nil => rw [scanFrom_nil, scanFrom_nil]
  | stray c rest stray =>
      rw [scanFrom_stray stray, scanFrom_stray stray]
      rfl
  | piece piece rest munched ih =>
      rw [scanFrom_piece munched, scanFrom_piece munched]
      cases piece with
      | blanks text => exact ih _ _
      | token kind text =>
          show (scanFrom [_] rest _).lexemes? = (scanFrom [_] rest _).lexemes?
          rw [lexemes?_scanFrom_single, lexemes?_scanFrom_single, ih _ (other.afterAll text)]
          rfl

theorem lexemes?_nil : lexemes? [] = some [] := by
  rw [lexemes?, Token.scanFrom_nil]
  rfl

theorem lexemes?_stray {c : Char} (stray : Token.IsStray c) (rest : List Char) :
    lexemes? (c :: rest) = none := by
  rw [lexemes?, Token.scanFrom_stray stray]
  rfl

theorem lexemes?_blanks {text : List Char} (inside : ∀ c ∈ text, Token.isSkipped c = true)
    (rest : List Char) : lexemes? (text ++ rest) = lexemes? rest := by
  rw [lexemes?, Token.scanFrom_blanks inside, Token.lexemes?_scanFrom]

theorem lexemes?_munched {kind : Terminal} {text rest : List Char}
    (munched : (Piece.token kind text).Munched rest) :
    lexemes? (text ++ rest) = (lexemes? rest).map (⟨kind, String.ofList text⟩ :: ·) := by
  rw [← Token.lexemes?_scanFrom rest (Position.start.afterAll text), lexemes?]
  have front := Token.scanFrom_piece munched [] .start
  rw [Piece.text_token] at front
  rw [front]
  exact Token.lexemes?_scanFrom_single _ _ _

theorem lexemes?_symbol {c : Char} {kind : Terminal} (symbol : Token.symbol? c = some kind)
    (rest : List Char) :
    lexemes? (c :: rest) = (lexemes? rest).map (⟨kind, String.ofList [c]⟩ :: ·) :=
  lexemes?_munched (Piece.munched_symbol symbol)

/-! ## Texts that are put together -/

/-- The lexemes of two texts, one after the other. -/
def joined (front back : Option (List Lexeme)) : Option (List Lexeme) := do
  let first ← front
  let second ← back
  return first ++ second

theorem joined_eq_some_iff {front back : Option (List Lexeme)} {lexemes : List Lexeme} :
    joined front back = some lexemes ↔
      ∃ first last, front = some first ∧ back = some last ∧ first ++ last = lexemes := by
  cases front <;> cases back <;> simp [joined]

theorem joined_map_cons (lexeme : Lexeme) (front back : Option (List Lexeme)) :
    joined (front.map (lexeme :: ·)) back = (joined front back).map (lexeme :: ·) := by
  cases front <;> cases back <;> rfl

/-- The lexemes of a text that is put together are those of its parts, unless a number goes over the
seam. -/
theorem lexemes?_append {front back : List Char} (apart : Apart front back) :
    lexemes? (front ++ back) = joined (lexemes? front) (lexemes? back) := by
  induction front using Piece.text_induction with
  | nil =>
      rw [List.nil_append, lexemes?_nil]
      cases lexemes? back <;> rfl
  | stray c rest stray =>
      rw [List.cons_append, lexemes?_stray stray, lexemes?_stray stray]
      rfl
  | piece piece rest munched ih =>
      have later := ih apart.of_append
      rw [List.append_assoc]
      cases piece with
      | blanks text =>
          have inside := munched.isSkipped
          rw [Piece.text_blanks, lexemes?_blanks inside, lexemes?_blanks inside]
          exact later
      | token kind text =>
          rw [Piece.text_token, lexemes?_munched munched, lexemes?_munched (munched.append apart),
            later, joined_map_cons]

/-! ## Sources -/

/-- The lexemes of a source are its tokens without their places. -/
theorem lexemes?_eq_some_iff {source : String} {lexemes : List Lexeme} :
    lexemes? source.toList = some lexemes ↔
      ∃ tokens, Lexes source tokens ∧ tokens.map Token.lexeme = lexemes := by
  simp only [← scan_eq_iff_lexes]
  show (Token.scan source).lexemes? = some lexemes ↔ _
  obtain ⟨tokens, stray⟩ := Token.scan source
  cases stray with
  | some found => exact iff_of_false nofun (by rintro ⟨_, ⟨⟩, _⟩)
  | none => exact ⟨fun same => ⟨tokens, rfl, Option.some.inj same⟩, by rintro ⟨_, ⟨⟩, rfl⟩; rfl⟩

theorem lexemes?_of_lexes {source : String} {tokens : List Token} (lexes : Lexes source tokens) :
    lexemes? source.toList = some (tokens.map Token.lexeme) :=
  lexemes?_eq_some_iff.2 ⟨tokens, lexes, rfl⟩

theorem lexemes?_of_split {cs : List Char} {pieces : List Piece} (split : Split cs pieces)
    (front : List Char) :
    lexemes? cs = some ((tokensBehind front pieces).map Token.lexeme) := by
  rw [← Token.lexemes?_scanFrom cs (.following front), scanFrom_of_split split]
  rfl

/-- What is munched in front of a text is munched in front of each beginning of it. -/
theorem Piece.Munched.of_append {piece : Piece} {rest more : List Char}
    (munched : piece.Munched (rest ++ more)) : piece.Munched rest := by
  refine ⟨munched.1, fun other valid front => munched.2 other valid ?_⟩
  rw [← List.append_assoc]
  exact front.trans (List.prefix_append _ _)

/-- What stands in front of a token among pieces, and what stands behind it. -/
theorem parts_of_split {cs : List Char} {pieces : List Piece} (split : Split cs pieces)
    {before : List Char} (apart : Apart before cs) {front back : List Token} {token : Token}
    (same : tokensBehind before pieces = front ++ token :: back) :
    ∃ first last, cs = first ++ (token.text.toList ++ last) ∧
      token.place = .following (before ++ first) ∧
      Apart (before ++ first) (token.text.toList ++ last) ∧
      (Piece.token token.terminal token.text.toList).Munched last ∧
      lexemes? first = some (front.map Token.lexeme) ∧
      lexemes? last = some (back.map Token.lexeme) := by
  induction split generalizing before front with
  | nil => simp [tokensBehind] at same
  | @piece piece rest pieces munched split ih =>
      have behind := munched.apart before
      rw [tokensBehind] at same
      cases piece with
      | blanks text =>
          have inside := munched.isSkipped
          rw [Piece.tokens, List.nil_append] at same
          obtain ⟨first, last, rfl, place, seam, found, lexemes⟩ := ih behind same
          rw [Piece.text_blanks, List.append_assoc] at place seam
          refine ⟨text ++ first, last, by simp, place, seam, found, ?_⟩
          rwa [lexemes?_blanks inside]
      | token kind text =>
          rw [Piece.tokens, List.singleton_append] at same
          cases front with
          | nil =>
              rw [List.nil_append, List.cons.injEq] at same
              obtain ⟨rfl, rfl⟩ := same
              rw [String.toList_ofList]
              refine ⟨[], rest, rfl, ?_, ?_, munched, lexemes?_nil, lexemes?_of_split split _⟩
              · rw [List.append_nil]
              · rw [List.append_nil]
                exact apart
          | cons other front =>
              rw [List.cons_append, List.cons.injEq] at same
              obtain ⟨rfl, same⟩ := same
              obtain ⟨first, last, rfl, place, seam, found, lexemes, others⟩ := ih behind same
              rw [Piece.text_token, List.append_assoc] at place seam
              refine ⟨text ++ first, last, by simp, place, seam, found, ?_, others⟩
              rw [lexemes?_munched munched.of_append, lexemes]
              rfl

/-! ## Places as marks -/

namespace Position

/-- A place moves on over a text. -/
theorem afterAll_moves (place : Position) (cs : List Char) :
    place.line < (place.afterAll cs).line ∨
      (place.afterAll cs).line = place.line ∧
        (place.afterAll cs).column = place.column + cs.length := by
  induction cs generalizing place with
  | nil => exact .inr ⟨rfl, by simp⟩
  | cons c cs ih =>
      rw [afterAll_cons]
      have later := ih (place.after c)
      by_cases feed : c = '\n'
      · simp only [after, if_pos feed] at later ⊢
        omega
      · simp only [after, if_neg feed, List.length_cons] at later ⊢
        omega

/-- Two beginnings of a text that end at one place are the same. -/
theorem eq_of_following_eq {front other rest more : List Char}
    (same : front ++ rest = other ++ more) (place : following front = following other) :
    front = other := by
  -- what one of them has more does not move the place, so it is empty
  have still : ∀ (cs more : List Char), following (cs ++ more) = following cs → more = [] := by
    intro cs more unmoved
    have moves := afterAll_moves (following cs) more
    rw [← following_append, unmoved] at moves
    exact List.length_eq_zero_iff.1 (by omega)
  rcases List.append_eq_append_iff.1 same with ⟨extra, rfl, -⟩ | ⟨extra, rfl, -⟩
  · rw [still front extra place.symm, List.append_nil]
  · rw [still other extra place, List.append_nil]

end Position

/-- What stands in front of a token of a source, and what stands behind it. -/
theorem parts_of_lexes {source : String} {front back : List Token} {token : Token}
    (lexes : Lexes source (front ++ token :: back)) {before after : List Char}
    (occurs : source.toList = before ++ (token.text.toList ++ after))
    (place : token.place = .following before) :
    Apart before (token.text.toList ++ after) ∧
      (Piece.token token.terminal token.text.toList).Munched after ∧
      lexemes? before = some (front.map Token.lexeme) ∧
      lexemes? after = some (back.map Token.lexeme) := by
  obtain ⟨pieces, split, tokens⟩ := lexes
  have seam : Apart [] source.toList := nofun
  obtain ⟨first, last, same, found, parts⟩ := parts_of_split split seam tokens.symm
  rw [List.nil_append] at found parts
  -- there is only one place like that of the token
  rw [occurs] at same
  obtain rfl := Position.eq_of_following_eq same (place.symm.trans found)
  obtain rfl := List.append_cancel_left (List.append_cancel_left same)
  exact parts

end SumCalc

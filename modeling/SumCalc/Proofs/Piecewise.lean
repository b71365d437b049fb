import SumCalc.Proofs.Reading

/-!
# Reading a text piece by piece

The scanner finds all tokens before the reader takes the first of them. `Reader.read` describes both
together: a reader that stands in front of a text takes the pieces off it one by one, whatever it has
built before. So the reading of a longer text goes on where that of a front of it ends.

Results:
1. `read_blanks`, `read_digits`, `read_symbol`, `read_stray`: what a reader does with the front of a
   text.
2. `read_append`: a text is read as its front and then the rest, unless a number goes over the seam.
3. `ofSource_eq_read`: the tree of a source by reading its text.
-/

namespace SumCalc

namespace Token

/-- Tokens that were read before stay in front of those that are found. -/
theorem scanFrom_done (done : List Token) (cs : List Char) (place : Position) :
    scanFrom done cs place =
      ⟨done.reverse ++ (scanFrom [] cs place).tokens, (scanFrom [] cs place).stray⟩ := by
  induction cs using Piece.text_induction generalizing done place with
  | nil => simp [scanFrom_nil]
  | piece piece rest munched ih =>
      rw [scanFrom_piece munched, scanFrom_piece munched,
        ih ((piece.tokens place).reverse ++ done), ih ((piece.tokens place).reverse ++ [])]
      simp
  | stray c rest stray => simp [scanFrom_stray stray]

end Token

namespace Reader

/-- The reader after a text that begins at a place, or the first problem in the text. -/
def read (reader : Reader) (cs : List Char) (place : Position) : Except Rejection Reader := do
  let next ← (Token.scanFrom [] cs place).tokens.foldlM step reader
  match (Token.scanFrom [] cs place).stray with
  | some (c, stop) => .error (.located stop (.faultySyntax (.strayCharacter c)))
  | none => .ok next

theorem read_nil (reader : Reader) (place : Position) : reader.read [] place = .ok reader := by
  unfold read
  rw [Token.scanFrom_nil]
  rfl

theorem read_stray {c : Char} (stray : Token.IsStray c) (reader : Reader) (rest : List Char)
    (place : Position) :
    reader.read (c :: rest) place = .error (.located place (.faultySyntax (.strayCharacter c))) := by
  unfold read
  rw [Token.scanFrom_stray stray]
  rfl

theorem read_blanks {text : List Char} (inside : ∀ c ∈ text, Token.isSkipped c = true)
    (reader : Reader) (rest : List Char) (place : Position) :
    reader.read (text ++ rest) place = reader.read rest (place.afterAll text) := by
  unfold read
  rw [Token.scanFrom_blanks inside]

/-- A reader takes the token at the front of a text, or fails at it, and goes on behind it. -/
theorem read_munched {kind : Terminal} {text rest : List Char}
    (munched : (Piece.token kind text).Munched rest) (reader : Reader) (place : Position) :
    reader.read (text ++ rest) place = (do
      let next ← reader.step ⟨kind, String.ofList text, place⟩
      next.read rest (place.afterAll text)) := by
  have front : Token.scanFrom [] (text ++ rest) place =
      ⟨⟨kind, String.ofList text, place⟩ ::
          (Token.scanFrom [] rest (place.afterAll text)).tokens,
        (Token.scanFrom [] rest (place.afterAll text)).stray⟩ :=
    (Token.scanFrom_piece munched [] place).trans (Token.scanFrom_done _ _ _)
  unfold read
  rw [front, List.foldlM_cons]
  cases reader.step ⟨kind, String.ofList text, place⟩ <;> rfl

theorem read_token {kind : Terminal} {text rest : List Char} {reader next : Reader}
    {place : Position} (munched : (Piece.token kind text).Munched rest)
    (takes : Takes reader ⟨kind, String.ofList text, place⟩ next) :
    reader.read (text ++ rest) place = next.read rest (place.afterAll text) := by
  rw [read_munched munched, step_eq_ok_iff.2 takes]
  rfl

/-- The reading of a longer text goes on where that of a front of it ends. -/
theorem read_append {front back : List Char} (apart : Apart front back) (reader : Reader)
    (place : Position) :
    reader.read (front ++ back) place = (do
      let next ← reader.read front place
      next.read back (place.afterAll front)) := by
  induction front using Piece.text_induction generalizing reader place with
  | nil =>
      rw [read_nil]
      rfl
  | piece piece rest munched ih =>
      have later := ih apart.of_append
      rw [List.append_assoc, Position.afterAll_append]
      cases piece with
      | blanks text =>
          have inside := munched.isSkipped
          rw [Piece.text_blanks, read_blanks inside, read_blanks inside]
          exact later reader _
      | token kind text =>
          rw [Piece.text_token, read_munched munched, read_munched (munched.append apart)]
          cases reader.step ⟨kind, String.ofList text, place⟩ with
          | error rejection => rfl
          | ok next => exact later next _
  | stray c rest stray =>
      rw [List.cons_append, read_stray stray, read_stray stray]
      rfl

theorem read_digits {digits rest : List Char} (nonempty : digits ≠ [])
    (inside : ∀ c ∈ digits, c.isDigit = true) (stop : ∀ c ∈ rest.head?, c.isDigit = false)
    (parts : List ParseTree) (outer : List OpenSum) (place : Position) :
    Reader.read ⟨parts, outer, .operand⟩ (digits ++ rest) place =
      Reader.read
        ⟨.rule "primitive" [.leaf ⟨.number, String.ofList digits, place⟩] :: parts, outer, .operator⟩
        rest (place.afterAll digits) :=
  read_token (Piece.munched_number nonempty inside stop) (.number rfl)

theorem read_symbol {c : Char} {kind : Terminal} (symbol : Token.symbol? c = some kind)
    {reader next : Reader} {place : Position} (rest : List Char)
    (takes : Takes reader ⟨kind, String.ofList [c], place⟩ next) :
    reader.read (c :: rest) place = next.read rest (place.after c) :=
  read_token (Piece.munched_symbol symbol) takes

end Reader

/-- The tree of a source comes of reading its text to the end. -/
theorem ofSource_eq_read (source : String) :
    ParseTree.ofSource source = (do
      let reader ← Reader.initial.read source.toList .start
      reader.finish (ParseTree.lastPlace (Token.scan source).tokens)) := by
  unfold ParseTree.ofSource ParseTree.ofScan Reader.read Token.scan
  cases (Token.scanFrom [] source.toList .start).tokens.foldlM Reader.step .initial with
  | error rejection => rfl
  | ok reader =>
      dsimp only [bind, Except.bind]
      cases (Token.scanFrom [] source.toList .start).stray <;> rfl

end SumCalc

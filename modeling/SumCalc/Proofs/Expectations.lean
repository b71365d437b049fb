import SumCalc.Proofs.Viability

/-!
# What a refusal lists as expected

The refusal of a token, or of an early end, lists what was expected in its place. A list is
`Accurate` behind a text if it names exactly what the text may go on with: a token, when some
accepted source begins with the text, blanks and the token, and the end, when the text itself is
accepted.

What may follow a text depends on two things that the reader knows, what it awaits and whether a
parenthesis is open (`Reader.follows`). The lists are made from less. Behind an operand, a number or
an opening parenthesis is refused with the same list outside all parentheses as within them, a
closing parenthesis and the end of the source with lists of their own that leave the plus sign out.

Results:
1. `Reader.takes_iff_mem_follows`, `Reader.missing_eq_nil_iff`: `Reader.follows` is what a reader
   takes.
2. `viable_token_iff`, `continues_iff`: it is what a text may go on with.
3. `Reader.misplacedList_listed`, `Reader.earlyList_of_missing`: when a list is accurate, and what
   is wrong with it when it is not.
4. `ofSource_expected`: the same for every refused source.
-/

namespace SumCalc

/-- What a text may go on with. For a token, blanks keep it apart from the text. -/
def Continues (front : List Char) : Continuation → Prop
  | .terminal kind => ∃ blanks text,
      blanks ≠ [] ∧ (∀ c ∈ blanks, Token.isSkipped c = true) ∧ (Piece.token kind text).Valid ∧
        Viable (front ++ blanks ++ text)
  | .endOfSource => Accepted front

/-- A list is accurate behind a text if it names exactly what the text may go on with. -/
def Accurate (front : List Char) (listed : List Continuation) : Prop :=
  ∀ continuation, continuation ∈ listed ↔ Continues front continuation

/-! ## What a reader takes -/

namespace Reader

/-- What a reader takes next. -/
def follows (reader : Reader) : List Continuation :=
  match reader.awaited, reader.outer with
  | .operand, _ => operandStarts
  | .operator, [] => [.terminal .plus, .endOfSource]
  | .operator, _ :: _ => afterOperand

theorem takes_iff_mem_follows (reader : Reader) (token : Token) :
    (∃ next, Takes reader token next) ↔ .terminal token.terminal ∈ reader.follows := by
  constructor
  · rintro ⟨next, takes⟩
    cases takes with
    | number kind => simp [follows, operandStarts, kind]
    | opening kind => simp [follows, operandStarts, kind]
    | closing kind => simp [follows, afterOperand, kind]
    | @plus parts outer token kind => cases outer <;> simp [follows, afterOperand, kind]
  · intro member
    obtain ⟨parts, outer, awaited⟩ := reader
    cases awaited with
    | operand =>
        have kinds : token.terminal = .leftParen ∨ token.terminal = .number := by
          simpa [follows, operandStarts] using member
        rcases kinds with kind | kind
        · exact ⟨_, .opening kind⟩
        · exact ⟨_, .number kind⟩
    | operator =>
        cases outer with
        | nil =>
            have kind : token.terminal = .plus := by simpa [follows] using member
            exact ⟨_, .plus kind⟩
        | cons group outer =>
            have kinds : token.terminal = .plus ∨ token.terminal = .rightParen := by
              simpa [follows, afterOperand] using member
            rcases kinds with kind | kind
            · exact ⟨_, .plus kind⟩
            · exact ⟨_, .closing kind⟩

theorem missing_eq_nil_iff {reader : Reader} :
    reader.missing = [] ↔ .endOfSource ∈ reader.follows := by
  obtain ⟨parts, outer, awaited⟩ := reader
  cases awaited <;> cases outer <;> simp [missing, follows, operandStarts, afterOperand]

end Reader

/-! ## What a text may go on with -/

namespace Piece

theorem Valid.munched_nil {piece : Piece} (valid : piece.Valid) : piece.Munched [] :=
  ⟨valid, fun _ _ front => by simpa using front.length_le⟩

/-- Every kind of token has a text. -/
theorem exists_valid (kind : Terminal) : ∃ text, (token kind text).Valid := by
  cases kind with
  | number => exact ⟨['0'], .number (List.cons_ne_nil _ _) (by simp)⟩
  | plus => exact ⟨_, .plus⟩
  | leftParen => exact ⟨_, .leftParen⟩
  | rightParen => exact ⟨_, .rightParen⟩

end Piece

section

variable {front : List Char} {reader : Reader}

/-- What a reader got through may go on with a token exactly if the reader takes its kind, whatever
the text of the token and the blanks in front of it. -/
theorem viable_token_iff (read : Reader.initial.read front .start = .ok reader)
    {blanks text : List Char} {kind : Terminal} (nonempty : blanks ≠ [])
    (inside : ∀ c ∈ blanks, Token.isSkipped c = true) (valid : (Piece.token kind text).Valid) :
    Viable (front ++ blanks ++ text) ↔ .terminal kind ∈ reader.follows := by
  -- the blanks end the last number, so the reader goes on with the token
  have through : ∀ rest, Reader.initial.read (front ++ blanks ++ rest) .start =
      reader.read rest ((Position.start.afterAll front).afterAll blanks) := by
    intro rest
    have apart : Apart front (blanks ++ rest) := apart_blanks front rest nonempty inside
    rw [List.append_assoc, Reader.read_append apart, read, ← Reader.read_blanks inside]
    rfl
  constructor
  · rintro ⟨rest, accepted⟩
    obtain ⟨last, reads, -⟩ := accepted_iff.1 accepted
    rw [List.append_assoc, through] at reads
    -- the token at the front may be longer, but it is of the same kind
    obtain ⟨c, more, head⟩ := List.exists_cons_of_ne_nil valid.text_ne_nil
    obtain ⟨whole, tail, split, munched⟩ :=
      Piece.exists_munched (valid.kind?_head head) (more ++ rest)
    rw [Piece.text_token] at head
    rw [head, List.cons_append, split, Reader.read_munched munched] at reads
    cases stepped : reader.step ⟨kind, String.ofList whole,
        (Position.start.afterAll front).afterAll blanks⟩ with
    | error rejection =>
        rw [stepped] at reads
        cases reads
    | ok next =>
        exact (reader.takes_iff_mem_follows _).1 ⟨next, Reader.step_eq_ok_iff.1 stepped⟩
  · intro member
    obtain ⟨next, takes⟩ := (reader.takes_iff_mem_follows
      ⟨kind, String.ofList text, (Position.start.afterAll front).afterAll blanks⟩).2 member
    have reads : Reader.initial.read (front ++ blanks ++ text) .start = .ok next := by
      rw [through, ← List.append_nil text, Reader.read_token valid.munched_nil takes,
        Reader.read_nil]
    exact viable_of_read reads

/-- What a reader got through may go on with what the reader takes. -/
theorem continues_iff (read : Reader.initial.read front .start = .ok reader)
    (continuation : Continuation) :
    Continues front continuation ↔ continuation ∈ reader.follows := by
  cases continuation with
  | terminal kind =>
      constructor
      · rintro ⟨blanks, text, nonempty, inside, valid, viable⟩
        exact (viable_token_iff read nonempty inside valid).1 viable
      · intro member
        obtain ⟨text, valid⟩ := Piece.exists_valid kind
        have inside : ∀ c ∈ [' '], Token.isSkipped c = true := by simp [Token.isSkipped]
        have viable := (viable_token_iff read (List.cons_ne_nil _ _) inside valid).2 member
        exact ⟨[' '], text, List.cons_ne_nil _ _, inside, valid, viable⟩
  | endOfSource =>
      rw [Continues, accepted_iff, read, ← Reader.missing_eq_nil_iff]
      simp

theorem accurate_follows (read : Reader.initial.read front .start = .ok reader) :
    Accurate front reader.follows :=
  fun continuation => (continues_iff read continuation).symm

/-- A list that leaves out something the reader takes, or names something it does not, is not
accurate. -/
theorem not_accurate_of_ne (read : Reader.initial.read front .start = .ok reader)
    {listed : List Continuation} (continuation : Continuation)
    (differs : ¬ (continuation ∈ listed ↔ continuation ∈ reader.follows)) :
    ¬ Accurate front listed :=
  fun accurate => differs ((accurate continuation).trans (continues_iff read continuation))

end

/-! ## The lists -/

/-- The list in the refusal of a token behind a text. It is accurate unless the text is accepted.
Then the text may end or go on with a plus sign; the list leaves out the plus sign if a closing
parenthesis was found, and otherwise names a closing parenthesis instead of the end. -/
structure MisplacedList (front : List Char) (kind : Terminal) (listed : List Continuation) :
    Prop where
  accurate_iff : Accurate front listed ↔ ¬ Accepted front
  accepted : Accepted front → Accurate front [.terminal .plus, .endOfSource] ∧
    listed = if kind = .rightParen then [.endOfSource] else [.terminal .plus, .terminal .rightParen]

/-- The list in the refusal of a source that ends too early. It is accurate unless the source may go
on with a plus sign. Then it may go on with a closing parenthesis too, and only that is listed. -/
structure EarlyList (front : List Char) (listed : List Continuation) : Prop where
  accurate_iff : Accurate front listed ↔ ¬ Continues front (.terminal .plus)
  continued : Continues front (.terminal .plus) →
    Accurate front [.terminal .plus, .terminal .rightParen] ∧ listed = [.terminal .rightParen]

namespace Reader

variable {front : List Char} {reader : Reader}

/-- What a reader lists when it refuses a token of some kind. -/
def listed (reader : Reader) (kind : Terminal) : List Continuation :=
  match reader.awaited, reader.outer with
  | .operand, _ => operandStarts
  | .operator, [] => if kind = .rightParen then [.endOfSource] else afterOperand
  | .operator, _ :: _ => afterOperand

theorem eq_located_of_step {token : Token} {rejection : Rejection}
    (stopped : reader.step token = .error rejection) :
    rejection = .located token.place (.faultySyntax
      (.misplaced token.terminal token.text (reader.listed token.terminal))) := by
  obtain ⟨parts, outer, awaited⟩ := reader
  cases awaited <;> cases kind : token.terminal <;> simp only [step, kind, misplaced] at stopped
  case operand.number | operand.leftParen | operator.plus => cases stopped
  case operator.rightParen =>
      cases outer <;> cases stopped
      simp [listed]
  case operator.number | operator.leftParen =>
      cases stopped
      cases outer <;> simp [listed]
  all_goals
    cases stopped
    simp [listed]

/-- A reader that may not end lists what it takes. -/
theorem misplacedList_of_unfinished (read : Reader.initial.read front .start = .ok reader)
    (kind : Terminal) (whole : reader.listed kind = reader.follows)
    (unfinished : .endOfSource ∉ reader.follows) :
    MisplacedList front kind (reader.listed kind) := by
  have unaccepted : ¬ Accepted front := mt (continues_iff read .endOfSource).1 unfinished
  rw [whole]
  exact ⟨iff_of_true (accurate_follows read) unaccepted, fun accepted => absurd accepted unaccepted⟩

/-- What the refusal of a token lists, behind the text that the reader got through. -/
theorem misplacedList_listed (read : Reader.initial.read front .start = .ok reader)
    (kind : Terminal) : MisplacedList front kind (reader.listed kind) := by
  have whole := accurate_follows read
  have ends := continues_iff read .endOfSource
  obtain ⟨parts, outer, awaited⟩ := reader
  cases awaited with
  | operand => exact misplacedList_of_unfinished read kind rfl (by simp [follows, operandStarts])
  | operator =>
      cases outer with
      | cons group outer =>
          exact misplacedList_of_unfinished read kind rfl (by simp [follows, afterOperand])
      | nil =>
          have accepted : Accepted front := ends.2 (by simp [follows])
          have wrong : ¬ Accurate front (listed ⟨parts, [], .operator⟩ kind) := by
            by_cases closing : kind = .rightParen
            · exact not_accurate_of_ne read (.terminal .plus) (by simp [listed, follows, closing])
            · exact not_accurate_of_ne read (.terminal .rightParen)
                (by simp [listed, follows, afterOperand, closing])
          exact ⟨iff_of_false wrong (not_not_intro accepted), fun _ => ⟨whole, rfl⟩⟩

/-- What the refusal of a source lists that ends where the reader may not end. -/
theorem earlyList_of_missing (read : Reader.initial.read front .start = .ok reader)
    (missing : reader.missing ≠ []) : EarlyList front reader.missing := by
  have whole := accurate_follows read
  have goesOn := continues_iff read (.terminal .plus)
  obtain ⟨parts, outer, awaited⟩ := reader
  cases awaited with
  | operand =>
      have noPlus : ¬ Continues front (.terminal .plus) :=
        mt goesOn.1 (by simp [follows, operandStarts])
      exact ⟨iff_of_true whole noPlus, fun plus => absurd plus noPlus⟩
  | operator =>
      cases outer with
      | nil => exact absurd rfl missing
      | cons group outer =>
          have plus : Continues front (.terminal .plus) :=
            goesOn.2 (by simp [follows, afterOperand])
          have lacking : ¬ Accurate front [.terminal .rightParen] :=
            not_accurate_of_ne read (.terminal .plus)
              (by simp [follows, afterOperand])
          exact ⟨iff_of_false lacking (not_not_intro plus), fun _ => ⟨whole, rfl⟩⟩

end Reader

/-! ## Refused sources -/

/-- A refused source has a stray character and no list, or a token that is refused behind a text,
with the list that belongs to this text, or it ends too early, with the list that belongs to it. -/
theorem ofSource_expected (source : String) (rejection : Rejection)
    (refused : ParseTree.ofSource source = .error rejection) :
    (∃ place c, rejection = .located place (.faultySyntax (.strayCharacter c))) ∨
    (∃ front kind text after listed,
      source.toList = front ++ text ++ after ∧ (Piece.token kind text).Munched after ∧
      rejection = .located (.following front)
        (.faultySyntax (.misplaced kind (String.ofList text) listed)) ∧
      rejection.message = "unexpected " ++ kind.name ++ " " ++ Text.quote (String.ofList text) ++
        SyntaxFault.expectation listed ∧
      MisplacedList front kind listed) ∨
    ∃ place listed,
      rejection = .located place (.faultySyntax (.earlyEnd listed)) ∧
      rejection.message = "unexpected end of input" ++ SyntaxFault.expectation listed ∧
      EarlyList source.toList listed := by
  cases refusal_of_ofSource refused with
  | @stopped front _ reader _ split apart read stops =>
      cases stops with
      | stray => exact .inl ⟨_, _, rfl⟩
      | @token kind text after _ munched stopped =>
          have list := Reader.misplacedList_listed read kind
          obtain rfl := Reader.eq_located_of_step stopped
          rw [← List.append_assoc] at split
          exact .inr (.inl ⟨front, kind, text, after, _, split, munched, rfl, rfl, list⟩)
  | early _ read missing =>
      exact .inr (.inr ⟨_, _, rfl, rfl, Reader.earlyList_of_missing read missing⟩)

/-- Within a parenthesis: a second number behind an operand, and an early end. -/
theorem ofSource_expected_group :
    (∃ front after, "(1 2".toList = front ++ ['2'] ++ after ∧
      (⟨1, 4⟩ : Position) = .following front ∧
      MisplacedList front .number [.terminal .plus, .terminal .rightParen]) ∧
    EarlyList "(1".toList [.terminal .rightParen] := by
  have misplaced : ParseTree.ofSource "(1 2" =
      .error (.located ⟨1, 4⟩ (.faultySyntax (.misplaced .number "2" Reader.afterOperand))) := by
    with_unfolding_all rfl
  have early : ParseTree.ofSource "(1" =
      .error (.located ⟨1, 2⟩ (.faultySyntax (.earlyEnd [.terminal .rightParen]))) := by
    with_unfolding_all rfl
  constructor
  · rcases ofSource_expected _ _ misplaced with ⟨_, _, same⟩ |
      ⟨front, kind, text, after, listed, split, -, same, -, list⟩ | ⟨_, _, same, -⟩
    · cases same
    · simp only [Rejection.located, Rejection.mk.injEq, Cause.faultySyntax.injEq,
        SyntaxFault.misplaced.injEq, Option.some.injEq] at same
      obtain ⟨⟨rfl, found, rfl⟩, line, column⟩ := same
      have only : text = ['2'] := by simpa using congrArg String.toList found.symm
      exact ⟨front, after, only ▸ split, by rw [Position.mk.injEq]; exact ⟨line, column⟩, list⟩
    · cases same
  · rcases ofSource_expected _ _ early with ⟨_, _, same⟩ | ⟨_, _, _, _, _, _, _, same, -⟩ |
      ⟨_, _, same, -, list⟩
    · cases same
    · cases same
    · cases congrArg Rejection.cause same
      exact list

/-- Behind a number outside all parentheses a closing parenthesis is listed, though none may follow
there, and the end is not, though the number is accepted. -/
theorem expected_closing_outside_group :
    ∃ rejection, ParseTree.ofSource "1 2" = .error rejection ∧
      rejection.message = "unexpected NUMBER '2', expected one of: PLUS, RPAR" ∧
      "1 2".toList = "1 ".toList ++ "2".toList ∧ rejection.column = some 3 ∧
      ¬ Continues "1 ".toList (.terminal .rightParen) ∧ Continues "1 ".toList .endOfSource := by
  have read : Reader.initial.read "1 ".toList .start =
      .ok ⟨[.rule "primitive" [.leaf ⟨.number, "1", ⟨1, 1⟩⟩]], [], .operator⟩ := by
    with_unfolding_all rfl
  have misplaced : ParseTree.ofSource "1 2" =
      .error (.located ⟨1, 3⟩ (.faultySyntax (.misplaced .number "2" Reader.afterOperand))) := by
    with_unfolding_all rfl
  refine ⟨_, misplaced, ?_, rfl, rfl, ?_, ?_⟩
  · with_unfolding_all rfl
  · rw [continues_iff read]
    simp [Reader.follows]
  · rw [continues_iff read]
    simp [Reader.follows]

end SumCalc

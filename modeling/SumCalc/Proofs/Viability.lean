import SumCalc.Proofs.Piecewise

/-!
# Where a source is refused

A text is `Viable` if it can be continued to a source that is accepted. A reader that got through a
text can always go on: an operand and the missing parentheses complete it. And what a reader refuses,
no continuation can mend, since it refuses a token for its kind and the first character tells the
kind. So the first problem that is reported stands at the end of the longest viable front of the
source.

Results:
1. `viable_of_read`: what a reader gets through is viable.
2. `Reader.stopsWithin_of_read`: where a reader stops, at a stray character or at a token it refuses.
3. `not_viable_of_stops`: nothing that goes on with the character at which it stops is viable.
4. `refusal_of_ofSource`: the ways in which a source is refused.
5. `ofSource_refused`: the place and the finding of every refusal, in terms of viability.
-/

namespace SumCalc

/-- A text is accepted if it is the text of a source that has a tree. -/
def Accepted (cs : List Char) : Prop :=
  ∃ tree, ParseTree.ofSource (String.ofList cs) = .ok tree

/-- A text is viable if some source that begins with it is accepted. -/
def Viable (front : List Char) : Prop := ∃ rest, Accepted (front ++ rest)

theorem accepted_iff {cs : List Char} :
    Accepted cs ↔ ∃ reader, Reader.initial.read cs .start = .ok reader ∧ reader.missing = [] := by
  unfold Accepted
  simp only [ofSource_eq_read, String.toList_ofList]
  cases Reader.initial.read cs .start with
  | error rejection => exact iff_of_false (by rintro ⟨_, ⟨⟩⟩) (by rintro ⟨_, ⟨⟩, _⟩)
  | ok reader =>
      show (∃ tree, reader.finish _ = .ok tree) ↔ _
      unfold Reader.finish
      cases missing : reader.missing with
      | nil => exact iff_of_true ⟨_, rfl⟩ ⟨reader, rfl, missing⟩
      | cons continuation others =>
          refine iff_of_false (by rintro ⟨_, ⟨⟩⟩) ?_
          rintro ⟨_, ⟨⟩, none⟩
          rw [missing] at none
          cases none

namespace Reader

/-! ## Going on -/

/-- A text that completes what a reader has built. -/
def completion (reader : Reader) : List Char :=
  (match reader.awaited with
    | .operand => [' ', '0']
    | .operator => []) ++ List.replicate reader.outer.length ')'

theorem isDigit_head_completion (reader : Reader) :
    ∀ c ∈ reader.completion.head?, c.isDigit = false := by
  obtain ⟨parts, outer, awaited⟩ := reader
  intro c head
  cases awaited with
  | operand =>
      cases head
      rfl
  | operator =>
      cases outer <;> cases head
      rfl

/-- Closing all open parentheses completes a sum that awaits an operator. -/
theorem read_closings (parts : List ParseTree) (outer : List OpenSum) (place : Position) :
    ∃ next, Reader.read ⟨parts, outer, .operator⟩ (List.replicate outer.length ')') place =
      .ok next ∧ next.missing = [] := by
  induction outer generalizing parts place with
  | nil => exact ⟨_, read_nil _ place, rfl⟩
  | cons group outer ih =>
      obtain ⟨next, read, complete⟩ := ih
        (.rule "primitive" [.leaf group.parenthesis, .rule "sum" parts.reverse,
          .leaf ⟨.rightParen, ")", place⟩] :: group.parts) (place.after ')')
      refine ⟨next, ?_, complete⟩
      rw [List.length_cons, List.replicate_succ, ← read]
      exact read_symbol rfl _ (.closing rfl)

theorem read_completion (reader : Reader) (place : Position) :
    ∃ next, reader.read reader.completion place = .ok next ∧ next.missing = [] := by
  obtain ⟨parts, outer, awaited⟩ := reader
  cases awaited with
  | operator => exact read_closings parts outer place
  | operand =>
      -- the number ends before the first parenthesis, or with the text
      have stop : ∀ c ∈ (List.replicate outer.length ')').head?, c.isDigit = false :=
        isDigit_head_completion ⟨parts, outer, .operator⟩
      have blank : ∀ c ∈ [' '], Token.isSkipped c = true := by simp [Token.isSkipped]
      have digit : ∀ c ∈ ['0'], c.isDigit = true := by simp
      obtain ⟨next, read, complete⟩ := read_closings
        (.rule "primitive" [.leaf ⟨.number, "0", place.after ' '⟩] :: parts) outer
        ((place.after ' ').after '0')
      refine ⟨next, ?_, complete⟩
      rw [← read]
      calc
        Reader.read ⟨parts, outer, .operand⟩
            ([' '] ++ (['0'] ++ List.replicate outer.length ')')) place
        _ = Reader.read ⟨parts, outer, .operand⟩ (['0'] ++ List.replicate outer.length ')')
              (place.after ' ') := read_blanks blank _ _ _
        _ = _ := read_digits (List.cons_ne_nil _ _) digit stop parts outer _

/-! ## Stopping -/

/-- A reader refuses a kind of token, whatever its text and its place. -/
def Refuses (reader : Reader) (kind : Terminal) : Prop :=
  ∀ token : Token, token.terminal = kind → ∃ rejection, reader.step token = .error rejection

/-- A token is refused as misplaced, and for its kind alone. -/
theorem refuses_of_step {reader : Reader} {token : Token} {rejection : Rejection}
    (stopped : reader.step token = .error rejection) :
    reader.Refuses token.terminal ∧ ∃ expected,
      rejection = .located token.place
        (.faultySyntax (.misplaced token.terminal token.text expected)) := by
  constructor
  · intro other same
    cases stepped : reader.step other with
    | error failure => exact ⟨failure, rfl⟩
    | ok next =>
        -- the reader would have taken `token` as well
        have taken : ∃ next, Takes reader token next := by
          cases step_eq_ok_iff.1 stepped with
          | number kind => exact ⟨_, .number (same.symm.trans kind)⟩
          | opening kind => exact ⟨_, .opening (same.symm.trans kind)⟩
          | plus kind => exact ⟨_, .plus (same.symm.trans kind)⟩
          | closing kind => exact ⟨_, .closing (same.symm.trans kind)⟩
        obtain ⟨next, takes⟩ := taken
        rw [step_eq_ok_iff.2 takes] at stopped
        cases stopped
  · obtain ⟨parts, outer, awaited⟩ := reader
    cases awaited <;> cases kind : token.terminal <;> simp only [step, kind, misplaced] at stopped
    case operand.number | operand.leftParen | operator.plus => cases stopped
    case operator.rightParen =>
        cases outer <;> cases stopped
        exact ⟨_, rfl⟩
    all_goals
      cases stopped
      exact ⟨_, rfl⟩

/-- `Stops reader place rest rejection`: a reader in front of `rest` stops at once. -/
inductive Stops (reader : Reader) (place : Position) : List Char → Rejection → Prop
  | stray {c : Char} {rest : List Char} :
      Token.IsStray c →
        Stops reader place (c :: rest) (.located place (.faultySyntax (.strayCharacter c)))
  | token {kind : Terminal} {text rest : List Char} {rejection : Rejection} :
      (Piece.token kind text).Munched rest →
        reader.step ⟨kind, String.ofList text, place⟩ = .error rejection →
          Stops reader place (text ++ rest) rejection

/-- `StopsWithin reader place cs rejection`: a reader in front of `cs` gets through a front of it and
stops there. -/
def StopsWithin (reader : Reader) (place : Position) (cs : List Char) (rejection : Rejection) :
    Prop :=
  ∃ before after middle, cs = before ++ after ∧ Apart before after ∧
    reader.read before place = .ok middle ∧ Stops middle (place.afterAll before) after rejection

theorem Stops.within {reader : Reader} {place : Position} {cs : List Char} {rejection : Rejection}
    (stops : Stops reader place cs rejection) : StopsWithin reader place cs rejection :=
  ⟨[], cs, reader, rfl, by simp [Apart], read_nil reader place, stops⟩

/-- Once a piece is read, a reader stops in what follows it. -/
theorem StopsWithin.behind {reader next : Reader} {place : Position} {piece : Piece}
    {rest : List Char} {rejection : Rejection} (munched : piece.Munched rest)
    (through : reader.read piece.text place = .ok next)
    (stops : StopsWithin next (place.afterAll piece.text) rest rejection) :
    StopsWithin reader place (piece.text ++ rest) rejection := by
  obtain ⟨before, after, middle, rfl, apart, read, stops⟩ := stops
  have seam : Apart piece.text before := by
    intro c last d head
    refine munched.apart [] c last d ?_
    rw [List.head?_append, Option.mem_def.1 head]
    rfl
  rw [← Position.afterAll_append] at stops
  refine ⟨piece.text ++ before, after, middle, (List.append_assoc ..).symm, ?_, ?_, stops⟩
  · refine apart.append_left ?_
    rintro rfl
    exact munched.apart []
  · rw [read_append seam, through]
    exact read

/-- A reader that does not get through a text stops somewhere within it. -/
theorem stopsWithin_of_read {reader : Reader} {place : Position} {cs : List Char}
    {rejection : Rejection} (refused : reader.read cs place = .error rejection) :
    StopsWithin reader place cs rejection := by
  induction cs using Piece.text_induction generalizing reader place with
  | nil =>
      rw [read_nil] at refused
      cases refused
  | stray c rest stray =>
      rw [read_stray stray] at refused
      cases refused
      exact (Stops.stray stray).within
  | piece piece rest munched ih =>
      cases piece with
      | blanks text =>
          have inside := munched.isSkipped
          have through : reader.read text place = .ok reader := by
            rw [← List.append_nil text, read_blanks inside, read_nil]
          rw [Piece.text_blanks, read_blanks inside] at refused
          exact (ih refused).behind munched through
      | token kind text =>
          rw [Piece.text_token, read_munched munched] at refused
          cases stepped : reader.step ⟨kind, String.ofList text, place⟩ with
          | error failure =>
              rw [stepped] at refused
              cases refused
              exact (Stops.token munched stepped).within
          | ok next =>
              rw [stepped] at refused
              have through : reader.read text place = .ok next := by
                rw [← List.append_nil text,
                  read_token munched.alone (step_eq_ok_iff.1 stepped), read_nil]
              exact (ih refused).behind munched through

/-- Where a reader stops, it stops in front of every text that begins with the same character. -/
theorem Stops.read_ne_ok {reader : Reader} {place : Position} {c : Char} {after : List Char}
    {rejection : Rejection} (stops : Stops reader place (c :: after) rejection)
    (rest : List Char) (beginning : Position) (next : Reader) :
    reader.read (c :: rest) beginning ≠ .ok next := by
  generalize same : c :: after = cs at stops
  cases stops with
  | stray stray =>
      cases same
      rw [read_stray stray]
      nofun
  | @token kind text tail _ munched stopped =>
      obtain ⟨refuses, -⟩ := refuses_of_step stopped
      obtain ⟨d, more, head⟩ := List.exists_cons_of_ne_nil munched.1.text_ne_nil
      rw [Piece.text_token] at head
      subst head
      cases same
      have begins : Token.kind? c = some kind := munched.1.kind?_head rfl
      obtain ⟨text, tail, split, munched⟩ := Piece.exists_munched begins rest
      obtain ⟨failure, refused⟩ := refuses ⟨kind, String.ofList text, beginning⟩ rfl
      rw [split, read_munched munched, refused]
      nofun

end Reader

/-! ## Viable texts -/

/-- A reader that got through a text can be completed. -/
theorem viable_of_read {cs : List Char} {reader : Reader}
    (read : Reader.initial.read cs .start = .ok reader) : Viable cs := by
  obtain ⟨next, completes, complete⟩ := reader.read_completion (Position.start.afterAll cs)
  refine ⟨reader.completion, accepted_iff.2 ⟨next, ?_, complete⟩⟩
  rw [Reader.read_append (apart_of_head reader.isDigit_head_completion), read]
  exact completes

/-- Beyond the place where a reader stops, nothing is viable. -/
theorem not_viable_of_stops {before after : List Char} {c : Char} {reader : Reader}
    {place : Position} {rejection : Rejection} (read : Reader.initial.read before .start = .ok reader)
    (apart : Apart before (c :: after))
    (stops : reader.Stops place (c :: after) rejection) :
    ¬ Viable (before ++ [c]) := by
  rintro ⟨rest, accepted⟩
  obtain ⟨next, through, -⟩ := accepted_iff.1 accepted
  have seam : Apart before (c :: rest) := apart
  rw [List.append_assoc, List.singleton_append, Reader.read_append seam, read] at through
  exact stops.read_ne_ok rest _ next through

/-! ## Refused sources -/

/-- `Refusal source rejection`: how the reading of a source comes to be refused. -/
inductive Refusal (source : String) : Rejection → Prop
  /-- The reader gets through a front of the source and stops there, -/
  | stopped {before after : List Char} {reader : Reader} {rejection : Rejection} :
      source.toList = before ++ after → Apart before after →
        Reader.initial.read before .start = .ok reader →
          reader.Stops (.following before) after rejection → Refusal source rejection
  /-- or it gets through the whole source, but may not end. -/
  | early {reader : Reader} {tokens : List Token} :
      Lexes source tokens → Reader.initial.read source.toList .start = .ok reader →
        reader.missing ≠ [] →
          Refusal source
            (.located (ParseTree.lastPlace tokens) (.faultySyntax (.earlyEnd reader.missing)))

/-- A source that a reader gets through consists of tokens. -/
theorem lexes_of_read {source : String} {reader : Reader}
    (read : Reader.initial.read source.toList .start = .ok reader) :
    Lexes source (Token.scan source).tokens := by
  refine (scan_eq_iff_lexes source _).1 ?_
  unfold Reader.read at read
  unfold Token.scan
  cases ran : (Token.scanFrom [] source.toList .start).tokens.foldlM Reader.step .initial with
  | error rejection =>
      rw [ran] at read
      cases read
  | ok next =>
      rw [ran] at read
      cases stray : (Token.scanFrom [] source.toList .start).stray with
      | none => rw [← stray]
      | some found =>
          simp only [stray, bind, Except.bind] at read
          cases read

/-- A source that has no tree is refused in one of these ways. -/
theorem refusal_of_ofSource {source : String} {rejection : Rejection}
    (refused : ParseTree.ofSource source = .error rejection) : Refusal source rejection := by
  rw [ofSource_eq_read] at refused
  cases read : Reader.initial.read source.toList .start with
  | error failure =>
      rw [read] at refused
      cases refused
      obtain ⟨before, after, reader, split, apart, through, stops⟩ :=
        Reader.stopsWithin_of_read read
      rw [Position.start_afterAll] at stops
      exact .stopped split apart through stops
  | ok reader =>
      rw [read] at refused
      change reader.finish _ = _ at refused
      cases missing : reader.missing with
      | nil => simp [Reader.finish, missing] at refused
      | cons continuation others =>
          have some : reader.missing ≠ [] := by simp [missing]
          simp only [Reader.finish, missing] at refused
          cases refused
          rw [← missing]
          exact .early (lexes_of_read read) read some

/-- The text at the front of a rest that a reader does not take: one character that begins no token,
or a whole token, which is the longest that stands there. -/
inductive Finding (before : List Char) : List Char → String → Prop
  | stray {c : Char} {rest : List Char} :
      Token.IsStray c → Finding before (c :: rest) (String.ofList [c])
  | token {kind : Terminal} {text rest : List Char} :
      (Piece.token kind text).Munched rest → Apart before text →
        Finding before (text ++ rest) (String.ofList text)

/-- Where a reader stops, it reports what it finds. -/
theorem Reader.Stops.finding {before after : List Char} {reader : Reader} {place : Position}
    {rejection : Rejection} (stops : reader.Stops place after rejection)
    (apart : Apart before after) :
    ∃ c rest fault found, after = c :: rest ∧ fault.found = some found ∧
      rejection = .located place (.faultySyntax fault) ∧ Finding before after found := by
  cases stops with
  | stray stray => exact ⟨_, _, _, _, rfl, rfl, rfl, .stray stray⟩
  | token munched stopped =>
      obtain ⟨-, expected, rfl⟩ := refuses_of_step stopped
      obtain ⟨c, tail, head⟩ := List.exists_cons_of_ne_nil munched.1.text_ne_nil
      rw [Piece.text_token] at head
      subst head
      exact ⟨_, _, _, _, rfl, rfl, rfl, .token munched apart⟩

/-- The place where the last of the tokens of a source stands, or the first place if there is
none. -/
inductive LastStart (source : String) : List Token → Position → Prop
  | none : LastStart source [] ⟨1, 1⟩
  | last {front : List Token} {last : Token} {before after : List Char} :
      source.toList = before ++ last.text.toList ++ after → last.place = .following before →
        LastStart source (front ++ [last]) last.place

theorem lastStart_of_lexes {source : String} {tokens : List Token} (lexes : Lexes source tokens) :
    LastStart source tokens (ParseTree.lastPlace tokens) := by
  rcases List.eq_nil_or_concat' tokens with rfl | ⟨front, last, rfl⟩
  · exact .none
  · have inside : last ∈ front ++ [last] := by simp
    obtain ⟨before, after, split, place⟩ := occurs_of_lexes lexes inside
    have ends : ParseTree.lastPlace (front ++ [last]) = last.place := by
      simp [ParseTree.lastPlace]
    rw [ends]
    exact .last split place

/-- A source that has no tree is refused at a place. If something is found there, what stands before
it is viable, nothing that goes on with its first character is, and the finding is that character or
the whole token. If nothing is found, the whole source is viable, but not accepted, and the place is
that of its last token. -/
theorem ofSource_refused (source : String) (rejection : Rejection)
    (refused : ParseTree.ofSource source = .error rejection) :
    ∃ (place : Position) (fault : SyntaxFault), rejection.cause = .faultySyntax fault ∧
      rejection.line = some place.line ∧ rejection.column = some place.column ∧
      (∀ found, fault.found = some found → ∃ before c after,
        source.toList = before ++ c :: after ∧ place = .following before ∧
        Viable before ∧ ¬ Viable (before ++ [c]) ∧ Finding before (c :: after) found) ∧
      (fault.found = none →
        Viable source.toList ∧ ¬ Accepted source.toList ∧
        ∃ tokens, Lexes source tokens ∧ LastStart source tokens place) := by
  cases refusal_of_ofSource refused with
  | @stopped before after reader _ split apart read stops =>
      obtain ⟨c, rest, fault, found, rfl, finds, rfl, finding⟩ := stops.finding apart
      refine ⟨_, fault, rfl, rfl, rfl, ?_, ?_⟩
      · intro other same
        rw [finds, Option.some.injEq] at same
        subst same
        exact ⟨before, c, rest, split, rfl, viable_of_read read,
          not_viable_of_stops read apart stops, finding⟩
      · intro none
        rw [finds] at none
        cases none
  | early lexes read _ =>
      refine ⟨_, _, rfl, rfl, rfl, nofun, fun _ => ⟨viable_of_read read, ?_, ?_⟩⟩
      · rintro ⟨tree, accepted⟩
        rw [String.ofList_toList, refused] at accepted
        cases accepted
      · exact ⟨_, lexes, lastStart_of_lexes lexes⟩

/-- Over two lines: a second number stands behind an operand, and a source ends behind an operator,
which is its last token though a line break follows. -/
theorem ofSource_refused_two_lines :
    (∃ before c after, "(1 +\n 2 34".toList = before ++ c :: after ∧
      (⟨2, 4⟩ : Position) = .following before ∧ Viable before ∧ ¬ Viable (before ++ [c]) ∧
      Finding before (c :: after) "34") ∧
    Viable "(1 +\n ".toList ∧ ¬ Accepted "(1 +\n ".toList ∧
    ∃ tokens, Lexes "(1 +\n " tokens ∧ LastStart "(1 +\n " tokens ⟨1, 4⟩ := by
  have misplaced : ParseTree.ofSource "(1 +\n 2 34" =
      .error (.located ⟨2, 4⟩ (.faultySyntax (.misplaced .number "34" Reader.afterOperand))) := by
    with_unfolding_all rfl
  have early : ParseTree.ofSource "(1 +\n " =
      .error (.located ⟨1, 4⟩ (.faultySyntax (.earlyEnd Reader.operandStarts))) := by
    with_unfolding_all rfl
  constructor
  · obtain ⟨⟨line, column⟩, fault, cause, sameLine, sameColumn, finds, -⟩ :=
      ofSource_refused _ _ misplaced
    cases cause
    cases sameLine
    cases sameColumn
    exact finds "34" rfl
  · obtain ⟨⟨line, column⟩, fault, cause, sameLine, sameColumn, -, ends⟩ :=
      ofSource_refused _ _ early
    cases cause
    cases sameLine
    cases sameColumn
    exact ends rfl

end SumCalc

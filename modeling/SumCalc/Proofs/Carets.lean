import SumCalc.Proofs.Records

/-!
# Carets

The diagnostic of a refused source is one line, its headline. If the source is one line too, and
something in it is to blame, two more lines show the source and a caret below the first character of
the culprit: the text that was found where something else was expected, the last token of a source
that ends too early, or the first number beyond the width. An overflow of a sum has no place in the
source and no caret.

Results:
1. `exists_culprit`: the place of a refusal is that of its culprit.
2. `Text.oneLine_quote`, `Rejection.oneLine_headline`: a headline is one line.
3. `Diagnostic.human_located`, `Diagnostic.human_of_newline`, `Diagnostic.human_nowhere`: which
   lines follow the headline.
4. `human_points`: the diagnostic of every refused source.
-/

namespace SumCalc

/-! ## Refusals -/

/-- A refused source has no tree, or a literal in it is beyond the width, or a sum is. -/
theorem refused_cases {config : Config} {source : String} {rejection : Rejection}
    (refused : Source.evaluate config source = .error (.rejected rejection)) :
    ParseTree.ofSource source = .error rejection ∨
    (∃ tokens token, Lexes source tokens ∧ firstOverflow? config.width tokens = some token ∧
      rejection = .located token.place (.literalOverflow token.text config.width.bits)) ∨
    ∃ left right bits, rejection = .nowhere (.sumOverflow left right bits) := by
  cases read : ParseTree.ofSource source with
  | error failure =>
      rw [evaluate_of_ofSource config read] at refused
      cases refused
      exact .inl rfl
  | ok tree =>
      have inside := (inLanguage_iff source).2 ⟨tree, read⟩
      have found := outcome config source
      rw [refused] at found
      cases found with
      | outside outside => exact absurd inside outside
      | literal lexes _ first => exact .inr (.inl ⟨_, _, lexes, first, rfl⟩)
      | sum => exact .inr (.inr ⟨_, _, _, rfl⟩)

/-! ## The culprit -/

/-- A text stands at an offset of a source. -/
def StandsAt (source : String) (offset : Nat) (text : String) : Prop :=
  (source.toList.drop offset).take text.length = text.toList

/-- A token stands at an offset of a source, which is its place. -/
structure Token.StandsAt (source : String) (offset : Nat) (token : Token) : Prop where
  text : SumCalc.StandsAt source offset token.text
  place : token.place = .following (source.toList.take offset)

/-- `Culprit config source cause offset`: what is to blame for a refusal stands at the offset. -/
inductive Culprit (config : Config) (source : String) : Cause → Nat → Prop
  /-- What was found where something else was expected, -/
  | found {fault : SyntaxFault} {found : String} {offset : Nat} :
      fault.found = some found → StandsAt source offset found →
        Culprit config source (.faultySyntax fault) offset
  /-- the last token of a source that ends too early, -/
  | last {expected : List Continuation} {front : List Token} {last : Token} {offset : Nat} :
      Lexes source (front ++ [last]) → last.StandsAt source offset →
        Culprit config source (.faultySyntax (.earlyEnd expected)) offset
  /-- the very beginning of a source without tokens, -/
  | nothing {expected : List Continuation} :
      Lexes source [] → Culprit config source (.faultySyntax (.earlyEnd expected)) 0
  /-- or the first number beyond the width. -/
  | literal {tokens : List Token} {token : Token} {offset : Nat} :
      Lexes source tokens → firstOverflow? config.width tokens = some token →
        token.StandsAt source offset →
          Culprit config source (.literalOverflow token.text config.width.bits) offset

section

variable {source : String} {before after : List Char}

theorem standsAt_of_append {text : String}
    (split : source.toList = before ++ (text.toList ++ after)) :
    StandsAt source before.length text := by
  rw [StandsAt, split, List.drop_left, ← String.length_toList, List.take_left]

theorem Token.standsAt_of_append {token : Token}
    (split : source.toList = before ++ token.text.toList ++ after)
    (place : token.place = .following before) : token.StandsAt source before.length := by
  rw [List.append_assoc] at split
  exact ⟨SumCalc.standsAt_of_append split, by rw [split, List.take_left, place]⟩

theorem Finding.standsAt {found : String} (finding : Finding before after found)
    (split : source.toList = before ++ after) : StandsAt source before.length found := by
  cases finding with
  | @stray c rest _ =>
      have whole : source.toList = before ++ ((String.ofList [c]).toList ++ rest) := by
        simpa using split
      exact standsAt_of_append whole
  | @token _ text rest _ _ =>
      have whole : source.toList = before ++ ((String.ofList text).toList ++ rest) := by
        simpa using split
      exact standsAt_of_append whole

/-- The place of a refusal is that of its culprit, unless a sum is to blame. -/
theorem exists_culprit {config : Config} {rejection : Rejection}
    (refused : Source.evaluate config source = .error (.rejected rejection)) :
    (∃ left right bits, rejection = .nowhere (.sumOverflow left right bits)) ∨
    ∃ before after cause, source.toList = before ++ after ∧
      rejection = .located (.following before) cause ∧
      Culprit config source cause before.length := by
  rcases refused_cases refused with refused | ⟨tokens, token, lexes, first, rfl⟩ | sum
  · right
    cases refusal_of_ofSource refused with
    | @stopped before after _ _ split apart _ stops =>
        obtain ⟨_, _, fault, found, -, finds, rfl, finding⟩ := stops.finding apart
        exact ⟨before, after, _, split, rfl, .found finds (finding.standsAt split)⟩
    | @early _ tokens lexes _ _ =>
        have starts := lastStart_of_lexes lexes
        generalize ParseTree.lastPlace tokens = place at starts
        cases starts with
        | none => exact ⟨[], source.toList, _, rfl, rfl, .nothing lexes⟩
        | @last front last before after split place =>
            have stands := Token.standsAt_of_append split place
            rw [List.append_assoc] at split
            exact ⟨before, _, _, split, by rw [place], .last lexes stands⟩
  · have member := (mem_numbers.1 (List.mem_of_find?_eq_some first)).1
    obtain ⟨before, after, split, place⟩ := occurs_of_lexes lexes member
    have stands := Token.standsAt_of_append split place
    rw [List.append_assoc] at split
    exact .inr ⟨before, _, _, split, by rw [place], .literal lexes first stands⟩
  · exact .inl sum

end

/-! ## Headlines -/

/-- A text without a line break. -/
def OneLine (text : String) : Prop := '\n' ∉ text.toList

instance (text : String) : Decidable (OneLine text) := inferInstanceAs (Decidable (¬ _))

theorem OneLine.append {front back : String} (first : OneLine front) (second : OneLine back) :
    OneLine (front ++ back) := by
  unfold OneLine
  rw [String.toList_append, List.mem_append]
  exact not_or.2 ⟨first, second⟩

theorem oneLine_toString (n : Int) : OneLine (toString n) :=
  not_mem_toString (by decide) (by decide) n

namespace Text

theorem newline_not_mem_quoteChar {mark : Char} (c : Char) (other : mark ≠ '\n') :
    '\n' ∉ quoteChar mark c := by
  unfold quoteChar
  split
  · next special =>
      have cases : c = mark ∨ c = '\\' := by simpa using special
      rcases cases with rfl | rfl
      · simp [other.symm]
      · decide
  split
  · decide
  split
  · decide
  · next feed =>
      split
      · decide
      split
      · simpa using Ne.symm feed
      · -- an escape is printable ASCII
        have plain : Printable (codeEscape c) := by
          unfold codeEscape
          split
          · exact .cons (by decide) (.cons (by decide) (printable_hex 2 _))
          split
          · exact .cons (by decide) (.cons (by decide) (printable_hex 4 _))
          · exact .cons (by decide) (.cons (by decide) (printable_hex 8 _))
        exact plain.line

/-- A quoted text is one line, whatever it quotes. -/
theorem oneLine_quote (text : String) : OneLine (quote text) := by
  have other : quoteMark text.toList ≠ '\n' := by
    unfold quoteMark
    split <;> decide
  have inside : '\n' ∉ text.toList.flatMap (quoteChar (quoteMark text.toList)) := by
    intro member
    obtain ⟨c, -, member⟩ := List.mem_flatMap.1 member
    exact newline_not_mem_quoteChar c other member
  unfold OneLine
  simp only [quote, String.toList_ofList, List.mem_append, List.mem_cons, List.not_mem_nil]
  simp [inside, other.symm]

end Text

theorem SyntaxFault.oneLine_expectation (expected : List Continuation) :
    OneLine (expectation expected) := by
  have names : ∀ name ∈ (expected.map Continuation.name).map String.toList, Printable name := by
    simp only [List.mem_map]
    rintro _ ⟨_, ⟨continuation, -, rfl⟩, rfl⟩
    cases continuation with
    | endOfSource => decide
    | terminal kind => cases kind <;> decide
  have listed : Printable (", ".intercalate (expected.map Continuation.name)).toList := by
    rw [String.toList_intercalate]
    exact Printable.intercalate (by decide) names
  exact .append (by decide) listed.line

/-- The message about a syntax fault is one line, unless another finder worded it. -/
theorem SyntaxFault.oneLine_message {fault : SyntaxFault}
    (own : ∀ message found, fault ≠ .stated message found) : OneLine fault.message := by
  cases fault with
  | strayCharacter c => exact .append (by decide) (Text.oneLine_quote _)
  | misplaced kind text expected =>
      have named : OneLine kind.name := by cases kind <;> decide
      exact .append (.append (.append (.append (by decide) named) (by decide))
        (Text.oneLine_quote text)) (oneLine_expectation expected)
  | earlyEnd expected => exact .append (by decide) (oneLine_expectation expected)
  | stated message found => exact absurd rfl (own message found)

/-- The message about a refused source is one line. -/
theorem oneLine_message {config : Config} {source : String} {rejection : Rejection}
    (refused : Source.evaluate config source = .error (.rejected rejection)) :
    OneLine rejection.message := by
  rcases refused_cases refused with refused | ⟨tokens, token, lexes, first, rfl⟩ |
    ⟨left, right, bits, rfl⟩
  · cases refusal_of_ofSource refused with
    | stopped _ _ _ stops =>
        cases stops with
        | stray => exact SyntaxFault.oneLine_message nofun
        | token _ stopped =>
            obtain ⟨-, expected, rfl⟩ := Reader.refuses_of_step stopped
            exact SyntaxFault.oneLine_message nofun
    | early => exact SyntaxFault.oneLine_message nofun
  · obtain ⟨member, number⟩ := mem_numbers.1 (List.mem_of_find?_eq_some first)
    have digits : OneLine token.text := fun feed =>
      absurd ((digits_of_lexes lexes member number).2 '\n' feed) (by decide)
    exact .append (.append (.append (.append (by decide) digits) (by decide)) (oneLine_toString _))
      (by decide)
  · exact .append (.append (.append (.append (.append (oneLine_toString _) (by decide))
      (oneLine_toString _)) (by decide)) (oneLine_toString _)) (by decide)

theorem oneLine_whereabouts (span : Span) : OneLine (Diagnostic.whereabouts span) := by
  unfold Diagnostic.whereabouts
  split
  · exact .append (.append (.append (oneLine_toString _) (by decide)) (oneLine_toString _))
      (by decide)
  · decide

/-- The line with severity, place, message and code of a rejection. -/
def Rejection.headline (rejection : Rejection) : String :=
  "error: " ++ Diagnostic.whereabouts { line := rejection.line, column := rejection.column } ++
    rejection.message ++ (" [" ++ rejection.code ++ "]")

theorem Rejection.oneLine_headline {rejection : Rejection} (message : OneLine rejection.message) :
    OneLine rejection.headline := by
  have code : OneLine rejection.code := by
    unfold Rejection.code Cause.code
    split <;> decide
  exact .append (.append (.append (by decide) (oneLine_whereabouts _)) message)
    (.append (.append (by decide) code) (by decide))

/-! ## Lines below the headline -/

/-- The lines that show a source and a caret below one of its characters. -/
def pointer (source : String) (offset : Nat) : String :=
  "\n  " ++ source ++ "\n  " ++ String.ofList (List.replicate offset ' ') ++ "^"

theorem following_of_oneLine {front : List Char} (flat : '\n' ∉ front) :
    Position.following front = ⟨1, 1 + front.length⟩ := by
  have all : front.reverse.takeWhile (· ≠ '\n') = front.reverse := by
    rw [List.takeWhile_eq_self_iff]
    intro c member
    have feed : c ≠ '\n' := by
      rintro rfl
      exact flat (List.mem_reverse.1 member)
    simpa using feed
  rw [Position.following, all, List.count_eq_zero.2 flat]
  simp

namespace Diagnostic

variable {rejection : Rejection} {source : String}

/-- A diagnostic is the headline of its rejection, and the caret below it if there is one. -/
theorem human_ofRejection (rejection : Rejection) (source : Option String) :
    (ofRejection rejection source).human =
      match (ofRejection rejection source).caret with
      | none => rejection.headline
      | some caret => rejection.headline ++ "\n" ++ caret := by
  have named : rejection.code.isEmpty = false := by
    unfold Rejection.code Cause.code
    split <;> rfl
  have code : bracketed (some rejection.code) = " [" ++ rejection.code ++ "]" := by
    rw [bracketed, named]
    rfl
  unfold human
  show (match (ofRejection rejection source).caret with
    | none => _ ++ bracketed (some rejection.code)
    | some caret => _ ++ bracketed (some rejection.code) ++ "\n" ++ caret) = _
  rw [code]
  rfl

/-- A rejection that has a place in a source of one line: the caret stands below that place. -/
theorem human_located {before after : List Char} (split : source.toList = before ++ after)
    (flat : '\n' ∉ source.toList) (cause : Cause) :
    (ofRejection (.located (.following before) cause) (some source)).human =
      (Rejection.located (.following before) cause).headline ++ pointer source before.length := by
  have begins : '\n' ∉ before := fun member => flat (split ▸ List.mem_append_left after member)
  have shown : (ofRejection (.located (.following before) cause) (some source)).caret = some
      ("  " ++ source ++ "\n  " ++ String.ofList (List.replicate before.length ' ') ++ "^") := by
    rw [following_of_oneLine begins]
    simp [caret, ofRejection, Rejection.located, flat]
  have feed : "\n  " = "\n" ++ "  " := rfl
  rw [human_ofRejection, shown, pointer, feed]
  simp only [String.append_assoc]

/-- Over several lines there is no caret. -/
theorem human_of_newline (feed : '\n' ∈ source.toList) (rejection : Rejection) :
    (ofRejection rejection (some source)).human = rejection.headline := by
  have several : source.toList.contains '\n' = true := by simpa using feed
  have hidden : (ofRejection rejection (some source)).caret = none := by
    unfold caret
    split
    · next same _ _ =>
        cases same
        rw [if_pos several]
    · rfl
  rw [human_ofRejection, hidden]

/-- A rejection that has no place has no caret. -/
theorem human_nowhere (cause : Cause) (source : Option String) :
    (ofRejection (.nowhere cause) source).human = (Rejection.nowhere cause).headline := by
  have hidden : (ofRejection (.nowhere cause) source).caret = none := by
    cases source <;> rfl
  rw [human_ofRejection, hidden]

end Diagnostic

/-! ## Refused sources -/

/-- The diagnostic of a refused source begins with a headline, which is one line. Nothing follows if
the source has more lines than one or a sum is beyond the width. Otherwise the source follows, with
a caret below its character in the reported column, and there the culprit begins. -/
theorem human_points (config : Config) (source : String) (rejection : Rejection)
    (refused : Source.evaluate config source = .error (.rejected rejection)) :
    OneLine rejection.headline ∧
    ('\n' ∈ source.toList ∨ (∃ left right bits, rejection.cause = .sumOverflow left right bits) →
      (Diagnostic.ofRejection rejection (some source)).human = rejection.headline) ∧
    ('\n' ∉ source.toList → (∀ left right bits, rejection.cause ≠ .sumOverflow left right bits) →
      ∃ offset : Nat, rejection.column = some (1 + (offset : Int)) ∧
        (Diagnostic.ofRejection rejection (some source)).human =
          rejection.headline ++ pointer source offset ∧
        Culprit config source rejection.cause offset) := by
  refine ⟨Rejection.oneLine_headline (oneLine_message refused), ?_, ?_⟩
  · rintro (feed | ⟨left, right, bits, sum⟩)
    · exact Diagnostic.human_of_newline feed rejection
    · rcases exists_culprit refused with ⟨_, _, _, rfl⟩ | ⟨_, _, cause, _, rfl, culprit⟩
      · exact Diagnostic.human_nowhere _ _
      · -- a sum is no culprit
        cases sum
        cases culprit
  · intro flat other
    rcases exists_culprit refused with ⟨left, right, bits, rfl⟩ |
      ⟨before, after, cause, split, rfl, culprit⟩
    · exact absurd rfl (other left right bits)
    · have begins : '\n' ∉ before := fun member => flat (split ▸ List.mem_append_left after member)
      have column : (Position.following before).column = 1 + before.length := by
        rw [following_of_oneLine begins]
      exact ⟨before.length, congrArg some column, Diagnostic.human_located split flat cause,
        culprit⟩

/-- The first of two literals beyond eight bits, behind a tab, and a source that ends behind an
operator and blanks. -/
theorem human_points_tab :
    ((Diagnostic.ofRejection (.located ⟨1, 4⟩ (.literalOverflow "300" 8))
        (some "1+\t300+400")).human =
          (Rejection.located ⟨1, 4⟩ (.literalOverflow "300" 8)).headline ++
            pointer "1+\t300+400" 3 ∧
      Culprit ⟨.bits8, .fail, .recursive⟩ "1+\t300+400" (.literalOverflow "300" 8) 3) ∧
    Culprit ⟨.bits64, .wrap, .stack⟩ "(1 +  " (.faultySyntax (.earlyEnd Reader.operandStarts)) 3 := by
  have literal : Source.evaluate ⟨.bits8, .fail, .recursive⟩ "1+\t300+400" =
      .error (.rejected (.located ⟨1, 4⟩ (.literalOverflow "300" 8))) := by
    have read : ParseTree.ofSource "1+\t300+400" = .ok (.rule "root" [.rule "sum" [
        .rule "primitive" [.token "NUMBER" "1" ⟨1, 1⟩], .token "PLUS" "+" ⟨1, 2⟩,
        .rule "primitive" [.token "NUMBER" "300" ⟨1, 4⟩], .token "PLUS" "+" ⟨1, 7⟩,
        .rule "primitive" [.token "NUMBER" "400" ⟨1, 8⟩]]]) := by
      with_unfolding_all rfl
    rw [Source.evaluate, Source.parse, read]
    with_unfolding_all rfl
  have early : Source.evaluate ⟨.bits64, .wrap, .stack⟩ "(1 +  " =
      .error (.rejected (.located ⟨1, 4⟩ (.faultySyntax (.earlyEnd Reader.operandStarts)))) := by
    with_unfolding_all rfl
  have third : ∀ {offset : Nat}, some (4 : Int) = some (1 + (offset : Int)) → offset = 3 := by
    intro offset same
    have columns := Option.some.inj same
    omega
  constructor
  · obtain ⟨-, -, shown⟩ := human_points _ _ _ literal
    obtain ⟨offset, column, human, culprit⟩ := shown (by decide) (by simp [Rejection.located])
    obtain rfl := third column
    exact ⟨human, culprit⟩
  · obtain ⟨-, -, shown⟩ := human_points _ _ _ early
    obtain ⟨offset, column, -, culprit⟩ := shown (by decide) (by simp [Rejection.located])
    obtain rfl := third column
    exact culprit

end SumCalc

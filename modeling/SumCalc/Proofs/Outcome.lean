import SumCalc.Proofs.Leaves
import SumCalc.Proofs.Values
import SumCalc.Proofs.Viability

/-!
# The outcome of a source

`Outcome` says what comes of a source without parsing or evaluating it: it depends on the tokens of
the source, on the values of its numbers, and on their sum. The first of these that is at fault
decides. How the numbers are grouped plays no part.

Results:
1. `evaluate_of_not_inLanguage`: a source outside the language is refused for its syntax.
2. `evaluate_literalOverflow`, `evaluate_sumOverflow`, `evaluate_exact`, `evaluate_wrapped`: what
   comes of a source in the language.
3. `outcome`: every source has its outcome.
4. `evaluate_outcome`: each outcome arises exactly if its condition holds, and there is no other.
-/

namespace SumCalc

/-! ## Kinds of failures -/

namespace Failure

/-- A text is no sum. -/
def IsSyntax (failure : Failure) : Prop :=
  ∃ place fault, failure = .rejected (.located place (.faultySyntax fault))

/-- A literal is beyond the width. -/
def IsLiteralOverflow (failure : Failure) : Prop :=
  ∃ place text bits, failure = .rejected (.located place (.literalOverflow text bits))

/-- A sum is beyond the width. -/
def IsSumOverflow (failure : Failure) : Prop :=
  ∃ left right bits, failure = .rejected (.nowhere (.sumOverflow left right bits))

end Failure

/-! ## Sources outside the language -/

/-- A rejection that names a place and a fault of syntax. -/
def Rejection.IsSyntax (rejection : Rejection) : Prop :=
  ∃ place fault, rejection = .located place (.faultySyntax fault)

/-- A source that has no tree is refused for its syntax. -/
theorem isSyntax_of_ofSource {source : String} {rejection : Rejection}
    (refused : ParseTree.ofSource source = .error rejection) : rejection.IsSyntax := by
  cases refusal_of_ofSource refused with
  | stopped _ apart _ stops =>
      obtain ⟨_, _, fault, _, _, _, rfl, _⟩ := stops.finding apart
      exact ⟨_, fault, rfl⟩
  | early => exact ⟨_, _, rfl⟩

theorem evaluate_of_ofSource (config : Config) {source : String} {rejection : Rejection}
    (refused : ParseTree.ofSource source = .error rejection) :
    Source.evaluate config source = .error (.rejected rejection) := by
  rw [Source.evaluate, Source.parse, refused]
  rfl

theorem evaluate_of_not_inLanguage (config : Config) {source : String}
    (outside : ¬ InLanguage source) :
    ∃ place fault,
      Source.evaluate config source = .error (.rejected (.located place (.faultySyntax fault))) := by
  cases read : ParseTree.ofSource source with
  | ok tree => exact absurd ((inLanguage_iff source).2 ⟨tree, read⟩) outside
  | error rejection =>
      obtain ⟨place, fault, rfl⟩ := isSyntax_of_ofSource read
      exact ⟨place, fault, evaluate_of_ofSource config read⟩

/-! ## Sources in the language -/

/-- The exact sum of the number tokens among some tokens. -/
def total (tokens : List Token) : Nat := ((numbers tokens).map Token.amount).sum

/-- The first number token that is beyond a width. -/
def firstOverflow? (width : Width) (tokens : List Token) : Option Token :=
  (numbers tokens).find? fun token => width.maxInt < token.amount

section

variable {config : Config} {source : String} {tokens : List Token}

/-- The first literal beyond the width is reported at its place. -/
theorem parse_literalOverflow {token : Token} (lexes : Lexes source tokens)
    (derivable : Derivable (tokens.map Token.terminal))
    (first : firstOverflow? config.width tokens = some token) :
    Source.parse config source =
      .error (.rejected (.located token.place (.literalOverflow token.text config.width.bits))) := by
  have leaves := leaves_parse config lexes derivable
  rw [mapM_number?_overflow first] at leaves
  cases parsed : Source.parse config source with
  | ok e =>
      rw [parsed] at leaves
      cases leaves
  | error failure =>
      rw [parsed] at leaves
      cases leaves
      rfl

theorem evaluate_literalOverflow {token : Token} (lexes : Lexes source tokens)
    (derivable : Derivable (tokens.map Token.terminal))
    (first : firstOverflow? config.width tokens = some token) :
    Source.evaluate config source =
      .error (.rejected (.located token.place (.literalOverflow token.text config.width.bits))) := by
  rw [Source.evaluate, parse_literalOverflow lexes derivable first]
  rfl

/-- If all literals fit, there is an expression, and its numbers are in range. -/
theorem parse_of_fits (lexes : Lexes source tokens)
    (derivable : Derivable (tokens.map Token.terminal))
    (none : firstOverflow? config.width tokens = none) :
    ∃ e, Source.parse config source = .ok e ∧ Term.InRange config.width e ∧
      e.exactSum = total tokens := by
  have leaves := leaves_parse config lexes derivable
  rw [mapM_number?_fits none] at leaves
  cases parsed : Source.parse config source with
  | error failure =>
      rw [parsed] at leaves
      cases leaves
  | ok e =>
      rw [parsed] at leaves
      have same : e.leaves =
          (numbers tokens).map fun token => ((token.amount : Int), some token.place) :=
        Except.ok.inj leaves
      refine ⟨e, rfl, ?_, ?_⟩
      · intro leaf member
        rw [same] at member
        obtain ⟨token, inside, rfl⟩ := List.mem_map.1 member
        have fits := List.find?_eq_none.1 none token inside
        exact ⟨Int.natCast_nonneg _, by simpa using fits⟩
      · rw [Term.exactSum_eq_sum_leaves, same, List.map_map, total]
        induction numbers tokens with
        | nil => rfl
        | cons token rest ih => simpa using ih

/-- The value of the expression of a source is the value of the source. -/
theorem evaluate_of_parse {e : Expr} (parsed : Source.parse config source = .ok e) :
    Source.evaluate config source =
      ((e.value config).mapError .rejected).map fun value => ⟨source, e, value⟩ := by
  rw [Source.evaluate, parsed]
  show ((e.value config).mapError Failure.rejected >>= fun value => _) = _
  cases e.value config <;> rfl

theorem evaluate_sumOverflow (lexes : Lexes source tokens)
    (derivable : Derivable (tokens.map Token.terminal))
    (none : firstOverflow? config.width tokens = none) (fails : config.overflow = .fail)
    (beyond : config.width.maxInt < total tokens) :
    ∃ left right, Source.evaluate config source =
      .error (.rejected (.nowhere (.sumOverflow left right config.width.bits))) := by
  obtain ⟨e, parsed, range, sum⟩ := parse_of_fits lexes derivable none
  obtain ⟨left, right, stopped⟩ := Term.value_fail_overflow fails range (by rw [sum]; exact beyond)
  refine ⟨left, right, ?_⟩
  rw [evaluate_of_parse parsed, stopped]
  rfl

theorem evaluate_exact (lexes : Lexes source tokens)
    (derivable : Derivable (tokens.map Token.terminal))
    (none : firstOverflow? config.width tokens = none)
    (fits : total tokens ≤ config.width.maxInt) :
    ∃ e, Source.evaluate config source = .ok ⟨source, e, total tokens⟩ := by
  obtain ⟨e, parsed, range, sum⟩ := parse_of_fits lexes derivable none
  have value := Term.value_fail range (by rw [sum]; exact fits)
  refine ⟨e, ?_⟩
  rw [evaluate_of_parse parsed, value, sum]
  rfl

theorem evaluate_wrapped (lexes : Lexes source tokens)
    (derivable : Derivable (tokens.map Token.terminal))
    (none : firstOverflow? config.width tokens = none) (wraps : config.overflow = .wrap) :
    ∃ e, Source.evaluate config source = .ok ⟨source, e, config.width.wrap (total tokens)⟩ := by
  obtain ⟨e, parsed, range, sum⟩ := parse_of_fits lexes derivable none
  have value := Term.value_wrap wraps range.fit
  refine ⟨e, ?_⟩
  rw [evaluate_of_parse parsed, value, sum]
  rfl

end

/-! ## All sources -/

/-- What comes of a source under a configuration. -/
inductive Outcome (config : Config) (source : String) : Except Failure Evaluated → Prop
  | outside {place : Position} {fault : SyntaxFault} :
      ¬ InLanguage source →
        Outcome config source (.error (.rejected (.located place (.faultySyntax fault))))
  | literal {tokens : List Token} {token : Token} :
      Lexes source tokens → InLanguage source →
        firstOverflow? config.width tokens = some token →
          Outcome config source
            (.error (.rejected (.located token.place
              (.literalOverflow token.text config.width.bits))))
  | sum {tokens : List Token} {left right : Int} :
      Lexes source tokens → InLanguage source → firstOverflow? config.width tokens = none →
        config.overflow = .fail → config.width.maxInt < total tokens →
          Outcome config source
            (.error (.rejected (.nowhere (.sumOverflow left right config.width.bits))))
  | exact {tokens : List Token} {e : Expr} :
      Lexes source tokens → InLanguage source → firstOverflow? config.width tokens = none →
        config.overflow = .fail → total tokens ≤ config.width.maxInt →
          Outcome config source (.ok ⟨source, e, total tokens⟩)
  | wrapped {tokens : List Token} {e : Expr} :
      Lexes source tokens → InLanguage source → firstOverflow? config.width tokens = none →
        config.overflow = .wrap →
          Outcome config source (.ok ⟨source, e, config.width.wrap (total tokens)⟩)

theorem outcome (config : Config) (source : String) :
    Outcome config source (Source.evaluate config source) := by
  by_cases inside : InLanguage source
  case neg =>
      obtain ⟨place, fault, refused⟩ := evaluate_of_not_inLanguage config inside
      rw [refused]
      exact .outside inside
  case pos =>
      obtain ⟨tokens, lexes, derivable⟩ := inside
      have inside : InLanguage source := ⟨tokens, lexes, derivable⟩
      cases first : firstOverflow? config.width tokens with
      | some token =>
          rw [evaluate_literalOverflow lexes derivable first]
          exact .literal lexes inside first
      | none =>
          cases policy : config.overflow with
          | wrap =>
              obtain ⟨e, valued⟩ := evaluate_wrapped lexes derivable first policy
              rw [valued]
              exact .wrapped lexes inside first policy
          | fail =>
              by_cases fits : total tokens ≤ config.width.maxInt
              · obtain ⟨e, valued⟩ := evaluate_exact lexes derivable first fits
                rw [valued]
                exact .exact lexes inside first policy fits
              · have beyond := Int.not_le.1 fits
                obtain ⟨left, right, stopped⟩ :=
                  evaluate_sumOverflow lexes derivable first policy beyond
                rw [stopped]
                exact .sum lexes inside first policy beyond

theorem firstOverflow?_eq_none_iff {width : Width} {tokens : List Token} :
    firstOverflow? width tokens = none ↔
      ∀ token ∈ numbers tokens, (token.amount : Int) ≤ width.maxInt := by
  simp [firstOverflow?]

/-- A failure of some kind comes of a source. -/
def FailsAs (kind : Failure → Prop) (result : Except Failure Evaluated) : Prop :=
  ∃ failure, result = .error failure ∧ kind failure

namespace Outcome

variable {config : Config} {source : String} {tokens : List Token}
  {result : Except Failure Evaluated}

theorem isSyntax_iff (outcome : Outcome config source result) :
    FailsAs Failure.IsSyntax result ↔ ¬ InLanguage source := by
  cases outcome with
  | outside outside => exact iff_of_true ⟨_, rfl, _, _, rfl⟩ outside
  | literal _ inside | sum _ inside | exact _ inside | wrapped _ inside =>
      refine iff_of_false ?_ (not_not_intro inside)
      rintro ⟨_, same, _, _, rfl⟩
      cases same

theorem isLiteralOverflow_iff (outcome : Outcome config source result)
    (inside : InLanguage source) (lexes : Lexes source tokens) :
    FailsAs Failure.IsLiteralOverflow result ↔
      ∃ token ∈ numbers tokens, config.width.maxInt < token.amount := by
  cases outcome with
  | outside outside => exact absurd inside outside
  | literal others _ first =>
      obtain rfl := lexes.unique others
      have beyond := List.find?_some first
      exact iff_of_true ⟨_, rfl, _, _, _, rfl⟩
        ⟨_, List.mem_of_find?_eq_some first, by simpa using beyond⟩
  | sum others _ none | exact others _ none | wrapped others _ none =>
      obtain rfl := lexes.unique others
      refine iff_of_false ?_ ?_
      · rintro ⟨_, same, _, _, _, rfl⟩
        cases same
      · rintro ⟨token, member, beyond⟩
        exact Int.not_le.2 beyond (firstOverflow?_eq_none_iff.1 none token member)

theorem isSumOverflow_iff (outcome : Outcome config source result)
    (inside : InLanguage source) (lexes : Lexes source tokens)
    (fit : ∀ token ∈ numbers tokens, (token.amount : Int) ≤ config.width.maxInt)
    (fails : config.overflow = .fail) :
    FailsAs Failure.IsSumOverflow result ↔ config.width.maxInt < total tokens := by
  cases outcome with
  | outside outside => exact absurd inside outside
  | literal others _ first =>
      obtain rfl := lexes.unique others
      rw [firstOverflow?_eq_none_iff.2 fit] at first
      cases first
  | sum others _ _ _ beyond =>
      obtain rfl := lexes.unique others
      exact iff_of_true ⟨_, rfl, _, _, _, rfl⟩ beyond
  | exact others _ _ _ fits =>
      obtain rfl := lexes.unique others
      refine iff_of_false ?_ (Int.not_lt.2 fits)
      rintro ⟨_, same, _⟩
      cases same
  | wrapped _ _ _ wraps =>
      rw [fails] at wraps
      cases wraps

theorem kinds (outcome : Outcome config source result) {failure : Failure}
    (failed : result = .error failure) :
    failure.IsSyntax ∨ failure.IsLiteralOverflow ∨ failure.IsSumOverflow := by
  cases outcome <;> cases failed
  case outside => exact .inl ⟨_, _, rfl⟩
  case literal => exact .inr (.inl ⟨_, _, _, rfl⟩)
  case sum => exact .inr (.inr ⟨_, _, _, rfl⟩)

end Outcome

/-- A source outside the language is refused for its syntax, and no other is. Otherwise the first
literal beyond the width is reported, if there is one. Otherwise the exact sum of the literals
decides: without wrapping it is the value, unless it is beyond the width; with wrapping the value is
the one integer of the width that is congruent to it. Nothing else comes of a source. -/
theorem evaluate_outcome (config : Config) (source : String) :
    (FailsAs Failure.IsSyntax (Source.evaluate config source) ↔ ¬ InLanguage source) ∧
    (∀ tokens, InLanguage source → Lexes source tokens →
      (FailsAs Failure.IsLiteralOverflow (Source.evaluate config source) ↔
        ∃ token ∈ numbers tokens, config.width.maxInt < token.amount) ∧
      (∀ token, firstOverflow? config.width tokens = some token →
        Source.evaluate config source =
          .error (.rejected (.located token.place
            (.literalOverflow token.text config.width.bits)))) ∧
      ((∀ token ∈ numbers tokens, (token.amount : Int) ≤ config.width.maxInt) →
        (config.overflow = .fail →
          (FailsAs Failure.IsSumOverflow (Source.evaluate config source) ↔
            config.width.maxInt < total tokens) ∧
          (total tokens ≤ config.width.maxInt →
            ∃ e, Source.evaluate config source = .ok ⟨source, e, total tokens⟩)) ∧
        (config.overflow = .wrap →
          ∃ e value, Source.evaluate config source = .ok ⟨source, e, value⟩ ∧
            ∀ n, n = value ↔
              config.width.Fits n ∧ (2 ^ config.width.bits : Int) ∣ n - total tokens))) ∧
    ∀ failure, Source.evaluate config source = .error failure →
      failure.IsSyntax ∨ failure.IsLiteralOverflow ∨ failure.IsSumOverflow := by
  have found := outcome config source
  refine ⟨found.isSyntax_iff, ?_, fun failure failed => found.kinds failed⟩
  intro tokens inside lexes
  have derivable : Derivable (tokens.map Token.terminal) := by
    obtain ⟨others, otherLexes, derivable⟩ := inside
    exact lexes.unique otherLexes ▸ derivable
  refine ⟨found.isLiteralOverflow_iff inside lexes, ?_, fun fit => ⟨?_, ?_⟩⟩
  · exact fun token first => evaluate_literalOverflow lexes derivable first
  · intro fails
    have none := firstOverflow?_eq_none_iff.2 fit
    exact ⟨found.isSumOverflow_iff inside lexes fit fails, evaluate_exact lexes derivable none⟩
  · intro wraps
    have none := firstOverflow?_eq_none_iff.2 fit
    obtain ⟨e, valued⟩ := evaluate_wrapped lexes derivable none wraps
    refine ⟨e, _, valued, fun n => ?_⟩
    rw [eq_comm]
    exact config.width.wrap_eq_iff (total tokens) n

/-- At eight bits, a literal with a leading zero is too great behind one that fits. Where all literals
fit, their sum is too great, or it is wrapped. -/
theorem evaluate_outcome_bits8 :
    Source.evaluate ⟨.bits8, .wrap, .stack⟩ "(100 +\n0200) + 300" =
      .error (.rejected (.located ⟨2, 1⟩ (.literalOverflow "0200" 8))) ∧
    FailsAs Failure.IsSumOverflow (Source.evaluate ⟨.bits8, .fail, .recursive⟩ "100 + (27 + 01)") ∧
    ∃ e value, Source.evaluate ⟨.bits8, .wrap, .stack⟩ "100 + (27 + 01)" =
        .ok ⟨"100 + (27 + 01)", e, value⟩ ∧ (256 : Int) ∣ value - 128 := by
  have long : Token.scan "(100 +\n0200) + 300" =
      ⟨[⟨.leftParen, "(", ⟨1, 1⟩⟩, ⟨.number, "100", ⟨1, 2⟩⟩, ⟨.plus, "+", ⟨1, 6⟩⟩,
        ⟨.number, "0200", ⟨2, 1⟩⟩, ⟨.rightParen, ")", ⟨2, 5⟩⟩, ⟨.plus, "+", ⟨2, 7⟩⟩,
        ⟨.number, "300", ⟨2, 9⟩⟩], none⟩ := by with_unfolding_all rfl
  have short : Token.scan "100 + (27 + 01)" =
      ⟨[⟨.number, "100", ⟨1, 1⟩⟩, ⟨.plus, "+", ⟨1, 5⟩⟩, ⟨.leftParen, "(", ⟨1, 7⟩⟩,
        ⟨.number, "27", ⟨1, 8⟩⟩, ⟨.plus, "+", ⟨1, 11⟩⟩, ⟨.number, "01", ⟨1, 13⟩⟩,
        ⟨.rightParen, ")", ⟨1, 15⟩⟩], none⟩ := by with_unfolding_all rfl
  have longInside : InLanguage "(100 +\n0200) + 300" := by decide +kernel
  have shortInside : InLanguage "100 + (27 + 01)" := by decide +kernel
  have longLexes := (scan_eq_iff_lexes _ _).1 long
  have shortLexes := (scan_eq_iff_lexes _ _).1 short
  refine ⟨?_, ?_, ?_⟩
  · have first := ((evaluate_outcome ⟨.bits8, .wrap, .stack⟩ _).2.1 _ longInside longLexes).2.1
    exact first ⟨.number, "0200", ⟨2, 1⟩⟩ (by with_unfolding_all rfl)
  · have fit := ((evaluate_outcome ⟨.bits8, .fail, .recursive⟩ _).2.1 _ shortInside shortLexes).2.2
    exact ((fit (by decide +kernel)).1 rfl).1.2 (by decide +kernel)
  · have fit := ((evaluate_outcome ⟨.bits8, .wrap, .stack⟩ _).2.1 _ shortInside shortLexes).2.2
    obtain ⟨e, value, valued, only⟩ := (fit (by decide +kernel)).2 rfl
    exact ⟨e, value, valued, ((only value).1 rfl).2⟩

end SumCalc

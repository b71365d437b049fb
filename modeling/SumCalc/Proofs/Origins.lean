import Mathlib
import SumCalc.Proofs.Anchors
import SumCalc.Proofs.Leaves

/-!
# Where an expression comes from

The numbers of the expression of a source are the runs of digits in the source, and its sums are the
plus signs. Both are told from the source alone: `DigitRun` says where a run of digits stands, and
tokens do not enter it. Nothing else of the source is left in the expression, and nothing of the
configuration: whichever width and builder accept a source, the expression is the same, places
included.

Results:
1. `digitRun_iff`: the number tokens of a source are its runs of digits.
2. `length_operators`: the plus tokens of a source are its plus signs.
3. `length_numbers`: what the grammar derives has one number more than operators.
4. `anchored_toExpr`: the expression of a shaped tree is anchored.
5. `toExpr_agree`: two widths give a shaped tree the same expression, if they give it any.
6. `parse_faithful`: the expression of a source is faithful to the source.
-/

namespace SumCalc

open ParseTree

/-! ## Runs of digits -/

/-- At a place of a source stands a run of digits that goes on to neither side. -/
inductive DigitRun (source : String) : Position → List Char → Prop
  | run {before digits after : List Char} :
      source.toList = before ++ digits ++ after → digits ≠ [] →
        (∀ c ∈ digits, c.isDigit = true) → (∀ c ∈ before.getLast?, c.isDigit = false) →
        (∀ c ∈ after.head?, c.isDigit = false) → DigitRun source (.following before) digits

/-- A piece at the front of a text that has a run of digits behind `skipped` is within `skipped`, or
it is the run. -/
theorem Piece.Munched.skipped_or_run {piece : Piece} {rest skipped digits after : List Char}
    (munched : piece.Munched rest) (same : piece.text ++ rest = skipped ++ (digits ++ after))
    (nonempty : digits ≠ []) (inside : ∀ c ∈ digits, c.isDigit = true)
    (begins : ∀ c ∈ skipped.getLast?, c.isDigit = false)
    (ends : ∀ c ∈ after.head?, c.isDigit = false) :
    (∃ more, skipped = piece.text ++ more ∧ rest = more ++ (digits ++ after)) ∨
      skipped = [] ∧ piece = .token .number digits := by
  rcases List.append_eq_append_iff.1 same with ⟨more, front, back⟩ | ⟨more, front, back⟩
  · exact .inl ⟨more, front, back⟩
  · cases more with
    | nil => exact .inl ⟨[], by simpa using front.symm, by simpa using back.symm⟩
    | cons c more =>
        -- the piece reaches into the run, so it is a number and begins where the run begins
        right
        obtain ⟨d, others, rfl⟩ := List.exists_cons_of_ne_nil nonempty
        rw [List.cons_append, List.cons_append, List.cons.injEq] at back
        obtain ⟨rfl, -⟩ := back
        have digit := inside d List.mem_cons_self
        obtain ⟨number, all⟩ := munched.1.number_of_mem (by simp [front]) digit
        have none : skipped = [] := by
          by_contra some
          obtain ⟨last, isLast⟩ := Option.ne_none_iff_exists'.1 (mt List.getLast?_eq_none_iff.1 some)
          have outside := begins last isLast
          have within := all last (by simp [front, List.mem_of_getLast? isLast])
          rw [outside] at within
          cases within
        refine ⟨none, ?_⟩
        -- both are what is taken off the text as long as there are digits
        rw [none, List.nil_append] at same
        rw [number] at munched
        have taken := (span_digits all munched.stop).1
        rw [same, (span_digits inside ends).1] at taken
        rw [number, ← taken]

/-- A run of digits in a text is a token among the pieces of the text. -/
theorem mem_tokensBehind_of_run {cs : List Char} {pieces : List Piece} (split : Split cs pieces)
    (front : List Char) {skipped digits after : List Char} (same : cs = skipped ++ (digits ++ after))
    (nonempty : digits ≠ []) (inside : ∀ c ∈ digits, c.isDigit = true)
    (begins : ∀ c ∈ skipped.getLast?, c.isDigit = false)
    (ends : ∀ c ∈ after.head?, c.isDigit = false) :
    ⟨.number, String.ofList digits, .following (front ++ skipped)⟩ ∈ tokensBehind front pieces := by
  induction split generalizing front skipped with
  | nil => simp [nonempty] at same
  | @piece piece rest pieces munched _ ih =>
      rw [tokensBehind, List.mem_append]
      rcases munched.skipped_or_run same nonempty inside begins ends with
        ⟨more, rfl, later⟩ | ⟨rfl, rfl⟩
      · right
        rw [← List.append_assoc]
        refine ih (front ++ piece.text) later fun c last => ?_
        cases more with
        | nil => cases last
        | cons d more =>
            rw [List.getLast?_append_of_ne_nil _ (List.cons_ne_nil d more)] at begins
            exact begins c last
      · left
        rw [List.append_nil]
        exact List.mem_singleton_self _

/-- The number tokens of a source are its runs of digits. -/
theorem digitRun_iff {source : String} {tokens : List Token} (lexes : Lexes source tokens)
    {place : Position} {digits : List Char} :
    DigitRun source place digits ↔
      ∃ token ∈ numbers tokens, token.place = place ∧ token.text.toList = digits := by
  constructor
  · rintro ⟨same, nonempty, inside, begins, ends⟩
    obtain ⟨pieces, split, rfl⟩ := lexes
    rw [List.append_assoc] at same
    have member := mem_tokensBehind_of_run split [] same nonempty inside begins ends
    exact ⟨_, mem_numbers.2 ⟨member, rfl⟩, rfl, String.toList_ofList⟩
  · rintro ⟨token, member, rfl, rfl⟩
    obtain ⟨inTokens, number⟩ := mem_numbers.1 member
    obtain ⟨nonempty, inside⟩ := digits_of_lexes lexes inTokens number
    obtain ⟨before, after, same, place, apart, munched⟩ := munched_of_lexes lexes inTokens
    rw [number] at munched
    rw [place]
    refine .run same nonempty inside (fun c last => ?_) munched.stop
    -- a digit in front of the token would belong to the same run
    obtain ⟨d, others, head⟩ := List.exists_cons_of_ne_nil nonempty
    have digit := inside d (by simp [head])
    by_contra longer
    have outside := apart c last d (by simp [head]) (by simpa using longer)
    rw [digit] at outside
    cases outside

/-! ## Plus signs -/

/-- The plus tokens among some tokens. -/
def operators (tokens : List Token) : List Token :=
  tokens.filter fun token => token.terminal = .plus

/-- The plus tokens of a source are its plus signs. -/
theorem length_operators {source : String} {tokens : List Token} (lexes : Lexes source tokens) :
    (operators tokens).length = source.toList.count '+' := by
  rw [operators, ← List.countP_eq_length_filter]
  exact countP_of_lexes rfl lexes

/-! ## Numbers against operators -/

/-- How many numbers more than operators a reader has taken. -/
def Awaited.surplus : Awaited → Nat
  | .operand => 0
  | .operator => 1

/-- One step of a reader keeps the balance of numbers and operators. -/
theorem Reader.Takes.balance {reader next : Reader} {token : Token}
    (takes : Reader.Takes reader token next) :
    next.awaited.surplus + (operators [token]).length =
      reader.awaited.surplus + (numbers [token]).length := by
  cases takes with
  | number kind | opening kind | plus kind | closing kind =>
      simp [operators, numbers, Awaited.surplus, kind]

/-- A run of a reader keeps the balance of numbers and operators. -/
theorem Reader.run_balance {reader last : Reader} {tokens : List Token}
    (ran : tokens.foldlM Reader.step reader = .ok last) :
    last.awaited.surplus + (operators tokens).length =
      reader.awaited.surplus + (numbers tokens).length := by
  induction tokens generalizing reader with
  | nil =>
      cases ran
      rfl
  | cons token tokens ih =>
      obtain ⟨next, takes, later⟩ := exists_takes_of_run ran
      have first := takes.balance
      have others := ih later
      have split : ∀ p : Token → Bool, ((token :: tokens).filter p).length =
          ([token].filter p).length + (tokens.filter p).length := by
        intro p
        rw [← List.length_append, ← List.filter_append, List.singleton_append]
      rw [operators, numbers] at first others ⊢
      rw [split, split]
      omega

/-- What the grammar derives has one number more than operators. -/
theorem length_numbers {tokens : List Token} (derivable : Derivable (tokens.map Token.terminal)) :
    (numbers tokens).length = (operators tokens).length + 1 := by
  obtain ⟨tree, derives⟩ := (derivable_iff tokens).1 derivable
  have read := (ofScan_eq_ok_iff tokens tree).2 derives
  obtain ⟨parts, ran, -⟩ := (ofScan_eq_ok_iff_run tokens tree).1 read
  have balance := Reader.run_balance ran
  simp only [Awaited.surplus, Reader.initial] at balance
  omega

/-! ## Anchors -/

/-- The expression of a shaped tree is anchored. -/
theorem anchored_toExpr (width : Width) {tree : ParseTree} (shaped : Shaped tree) :
    ∀ e, tree.toExpr width = .ok e → e.Anchored := by
  refine shaped.toExpr_induction (motive := fun build => ∀ e, build width = .ok e → e.Anchored) ?_ ?_
  · intro lexeme place e read
    obtain ⟨n, -, rfl⟩ := Literal.eq_number_of_read read
    trivial
  · intro trees _ each e built
    dsimp only at built
    cases parts : trees.mapM (toExpr width) with
    | error failure =>
        rw [parts] at built
        cases built
    | ok es =>
        rw [parts] at built
        have anchored : ∀ e ∈ es, e.Anchored := by
          intro e member
          obtain ⟨tree, inside, gives⟩ := exists_of_mapM_ok parts member
          exact each tree inside e gives
        cases es with
        | nil => cases built
        | cons first rest =>
            cases built
            exact (anchored first List.mem_cons_self).chain fun e member =>
              anchored e (List.mem_cons_of_mem _ member)

/-! ## Independence of the width -/

/-- Where two computations both give a result, they give the same. -/
def Agree {α : Type} (first second : Except Failure α) : Prop :=
  ∀ x y, first = .ok x → second = .ok y → y = x

theorem Agree.refl {α : Type} (result : Except Failure α) : Agree result result :=
  fun _ _ first second => Except.ok.inj (second.symm.trans first)

theorem Agree.bind {α β : Type} {first second : Except Failure α}
    {firstNext secondNext : α → Except Failure β} (agree : Agree first second)
    (next : ∀ x, Agree (firstNext x) (secondNext x)) :
    Agree (first >>= firstNext) (second >>= secondNext) := by
  intro x y
  cases first with
  | error failure => nofun
  | ok a =>
      cases second with
      | error failure => nofun
      | ok b =>
          obtain rfl := agree a b rfl rfl
          exact next b x y

theorem Agree.mapM {α β : Type} {f g : α → Except Failure β} {sources : List α}
    (each : ∀ source ∈ sources, Agree (f source) (g source)) :
    Agree (sources.mapM f) (sources.mapM g) := by
  induction sources with
  | nil => exact .refl _
  | cons source rest ih =>
      rw [List.mapM_cons, List.mapM_cons]
      have here := each source List.mem_cons_self
      have others := ih fun source member => each source (List.mem_cons_of_mem _ member)
      exact here.bind fun result => others.bind fun results => .refl _

theorem Literal.read_agree (width other : Width) (text : String) (place : Position) :
    Agree (Literal.read width text place) (Literal.read other text place) := by
  intro e e' read readOther
  obtain ⟨n, numeral, rfl⟩ := Literal.eq_number_of_read read
  obtain ⟨m, sameNumeral, rfl⟩ := Literal.eq_number_of_read readOther
  rw [numeral, Option.some.injEq] at sameNumeral
  rw [sameNumeral]

/-- Two widths give a shaped tree the same expression, if they give it any. -/
theorem toExpr_agree (width other : Width) {tree : ParseTree} (shaped : Shaped tree) :
    Agree (tree.toExpr width) (tree.toExpr other) := by
  refine shaped.toExpr_induction (motive := fun build => Agree (build width) (build other)) ?_ ?_
  · exact Literal.read_agree width other
  · exact fun trees _ each => (Agree.mapM each).bind fun es => .refl _

/-! ## The expression of a source -/

/-- The expression of a source is faithful to the source. Its numbers are the runs of digits of the
source, from left to right: each has the decimal value of its run, which is in range, and the place
where the run begins. Each sum has the place of its leftmost number, so nothing is without a place,
and there are as many sums as plus signs. Whichever configuration accepts the source, the expression
is the same. -/
theorem parse_faithful (config : Config) (source : String) (e : Expr)
    (parsed : Source.parse config source = .ok e) :
    (∃ tokens, Lexes source tokens ∧
      e.leaves = (numbers tokens).map (fun token =>
        ((decimal token.text.toList : Int), some token.place)) ∧
      ∀ place digits, DigitRun source place digits ↔
        ∃ token ∈ numbers tokens, token.place = place ∧ token.text.toList = digits) ∧
    (∀ leaf ∈ e.leaves, 0 ≤ leaf.1 ∧ leaf.1 ≤ config.width.maxInt) ∧
    e.Anchored ∧ (∀ place ∈ e.places, place.isSome = true) ∧
    e.plusCount = source.toList.count '+' ∧
    ∀ other e', Source.parse other source = .ok e' → e' = e := by
  obtain ⟨tree, read, built⟩ := exists_tree_of_parse parsed
  obtain ⟨tokens, lexes, derives⟩ := (ofSource_eq_ok_iff source tree).1 read
  have shaped := derives.1.shaped
  have derivable := (derivable_iff tokens).2 ⟨tree, derives⟩
  obtain ⟨fit, leaves⟩ := leaves_of_parse lexes derivable parsed
  have anchored := anchored_toExpr config.width shaped e built
  refine ⟨⟨tokens, lexes, leaves, fun place digits => digitRun_iff lexes⟩, ?_, anchored, ?_, ?_, ?_⟩
  · intro leaf member
    rw [leaves] at member
    obtain ⟨token, inside, rfl⟩ := List.mem_map.1 member
    exact ⟨Int.natCast_nonneg _, fit token inside⟩
  · have known : ∀ leaf ∈ e.leaves, leaf.2.isSome = true := by
      intro leaf member
      rw [leaves] at member
      obtain ⟨token, -, rfl⟩ := List.mem_map.1 member
      rfl
    exact anchored.isSome_of_mem_placesOnto known nofun
  · have count := e.length_leaves
    rw [leaves, List.length_map, length_numbers derivable, length_operators lexes] at count
    omega
  · intro other e' parsedOther
    have builtOther : tree.toExpr other.width = .ok e' :=
      (parse_of_ofSource other read).symm.trans parsedOther
    exact toExpr_agree config.width other.width shaped e e' built builtOther

/-- Over two lines, a group with a leading zero begins the sum: neither sum is at the parenthesis, and
the other configuration comes to the same expression. -/
theorem parse_faithful_two_lines :
    ∃ e, Source.parse ⟨.bits8, .fail, .stack⟩ "(07 +\n 12) + 3" = .ok e ∧ e.Anchored ∧
      e.places = [some ⟨1, 2⟩, some ⟨1, 2⟩, some ⟨1, 2⟩, some ⟨2, 2⟩, some ⟨2, 8⟩] ∧
      (∀ leaf ∈ e.leaves, 0 ≤ leaf.1 ∧ leaf.1 ≤ 127) ∧
      e.plusCount = "(07 +\n 12) + 3".toList.count '+' ∧
      Source.parse ⟨.bits32, .wrap, .recursive⟩ "(07 +\n 12) + 3" = .ok e := by
  have stack : Source.parse ⟨.bits8, .fail, .stack⟩ "(07 +\n 12) + 3" =
      .ok (.plus (.plus (.number 7 (some ⟨1, 2⟩)) (.number 12 (some ⟨2, 2⟩)) (some ⟨1, 2⟩))
        (.number 3 (some ⟨2, 8⟩)) (some ⟨1, 2⟩)) := by cbv
  obtain ⟨e, recursive⟩ : ∃ e,
      Source.parse ⟨.bits32, .wrap, .recursive⟩ "(07 +\n 12) + 3" = .ok e := ⟨_, by cbv⟩
  obtain ⟨-, range, anchored, -, count, same⟩ := parse_faithful _ _ _ stack
  refine ⟨_, stack, anchored, rfl, range, count, ?_⟩
  rw [← same _ e recursive, recursive]

end SumCalc

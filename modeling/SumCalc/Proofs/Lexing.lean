import Mathlib.Data.List.Infix
import Mathlib.Data.List.TakeWhile
import SumCalc.Token

/-!
# Splitting a source into tokens

`Split` says how a source falls into pieces by maximal munch: each piece is the longest front of what
is left that is digits, a symbol or blanks. `Lexes` adds to each token the place at which its text
begins, counted by `Position.following`. Neither mentions the scanner.

Results:
1. `start_afterAll`: the scanner's places are counted places.
2. `text_cases`: a text is empty, begins with a piece, or begins with a stray character.
3. `Piece.Munched.apart`, `Piece.Munched.append`: pieces and the seams of a text.
4. `scan_eq_iff_lexes`: the scanner finds exactly the tokens of the source and no stray character.
5. `join_texts_of_lexes`, `munched_of_lexes`: the texts of the tokens are the source without its
   blanks, and each of them stands at its place, where it is the longest.
6. `countP_of_lexes`: a source has as many tokens of the kind of a symbol as the symbol occurs in it.
-/

namespace SumCalc

/-! ## Places -/

namespace Position

/-- The place after a text at the front of a source: lines are told by the line feeds in the text,
columns by the characters after the last of them. -/
def following (front : List Char) : Position :=
  ⟨1 + front.count '\n', 1 + (front.reverse.takeWhile (· ≠ '\n')).length⟩

theorem following_concat (front : List Char) (c : Char) :
    following (front ++ [c]) = (following front).after c := by
  by_cases feed : c = '\n'
  · subst feed
    simp [following, after]
    omega
  · simp [following, after, feed, Int.add_comm]

theorem following_append (front back : List Char) :
    following (front ++ back) = (following front).afterAll back := by
  induction back generalizing front with
  | nil => simp
  | cons c back ih =>
      rw [afterAll_cons, ← following_concat, ← ih (front ++ [c])]
      simp

/-- Walking over a text from the first place leads to the place after the text. -/
theorem start_afterAll (front : List Char) : start.afterAll front = following front := by
  have walked := following_append [] front
  exact walked.symm

end Position

/-! ## Character classes -/

namespace Token

theorem isSkipped_eq_false_of_isDigit {c : Char} (digit : c.isDigit = true) :
    isSkipped c = false := by
  cases skipped : isSkipped c with
  | false => rfl
  | true =>
      simp only [isSkipped, Bool.or_eq_true, decide_eq_true_eq] at skipped
      rcases skipped with (((rfl | rfl) | rfl) | rfl) | rfl <;> exact absurd digit (by decide)

theorem eq_of_symbol? {c : Char} {kind : Terminal} (symbol : symbol? c = some kind) :
    c = '+' ∨ c = '(' ∨ c = ')' := by
  unfold symbol? at symbol
  split at symbol <;> simp_all

theorem isSkipped_eq_false_of_symbol? {c : Char} {kind : Terminal}
    (symbol : symbol? c = some kind) : isSkipped c = false := by
  rcases eq_of_symbol? symbol with rfl | rfl | rfl <;> rfl

theorem isDigit_eq_false_of_symbol? {c : Char} {kind : Terminal}
    (symbol : symbol? c = some kind) : c.isDigit = false := by
  rcases eq_of_symbol? symbol with rfl | rfl | rfl <;> rfl

/-- The kind of the token that begins with a character. -/
def kind? (c : Char) : Option Terminal := if c.isDigit then some .number else symbol? c

theorem kind?_of_isSkipped {c : Char} (skipped : isSkipped c = true) : kind? c = none := by
  simp only [isSkipped, Bool.or_eq_true, decide_eq_true_eq] at skipped
  rcases skipped with (((rfl | rfl) | rfl) | rfl) | rfl <;> rfl

/-- A character that begins no piece of a source. -/
def IsStray (c : Char) : Prop :=
  isSkipped c = false ∧ c.isDigit = false ∧ symbol? c = none

end Token

/-! ## Pieces -/

/-- Digits in front of a text that does not begin with a digit are what is taken off it. -/
theorem span_digits {run rest : List Char} (inside : ∀ c ∈ run, c.isDigit = true)
    (stop : ∀ c ∈ rest.head?, c.isDigit = false) :
    (run ++ rest).takeWhile Char.isDigit = run ∧ (run ++ rest).dropWhile Char.isDigit = rest := by
  rw [List.takeWhile_append_of_pos inside, List.dropWhile_append_of_pos inside]
  cases rest with
  | nil => simp
  | cons c rest => simp [stop c rfl]

/-- A piece of a source: the text of a token, or blanks. -/
inductive Piece
  | token (kind : Terminal) (text : List Char)
  | blanks (text : List Char)

namespace Piece

def text : Piece → List Char
  | token _ text => text
  | blanks text => text

@[simp]
theorem text_token (kind : Terminal) (cs : List Char) : (token kind cs).text = cs := rfl

@[simp]
theorem text_blanks (cs : List Char) : (blanks cs).text = cs := rfl

/-- The pieces that a source may have: numbers, the three symbols, and blanks. -/
inductive Valid : Piece → Prop
  | number {digits : List Char} :
      digits ≠ [] → (∀ c ∈ digits, c.isDigit = true) → Valid (token .number digits)
  | plus : Valid (token .plus ['+'])
  | leftParen : Valid (token .leftParen ['('])
  | rightParen : Valid (token .rightParen [')'])
  | blanks {text : List Char} :
      text ≠ [] → (∀ c ∈ text, Token.isSkipped c = true) → Valid (blanks text)

/-- A piece is munched in front of `rest` if no longer front of the text is a piece. -/
def Munched (piece : Piece) (rest : List Char) : Prop :=
  piece.Valid ∧
    ∀ other : Piece, other.Valid → other.text <+: piece.text ++ rest →
      other.text.length ≤ piece.text.length

theorem Valid.text_ne_nil {piece : Piece} (valid : piece.Valid) : piece.text ≠ [] := by
  cases valid with
  | number nonempty _ => exact nonempty
  | blanks nonempty _ => exact nonempty
  | plus | leftParen | rightParen => exact List.cons_ne_nil _ _

/-- A piece with a digit in it is a number. -/
theorem Valid.number_of_mem {piece : Piece} {c : Char} (valid : piece.Valid)
    (member : c ∈ piece.text) (digit : c.isDigit = true) :
    piece = token .number piece.text ∧ ∀ c ∈ piece.text, c.isDigit = true := by
  cases valid with
  | number _ inside => exact ⟨rfl, inside⟩
  | blanks _ inside =>
      exact absurd (inside c member) (by simp [Token.isSkipped_eq_false_of_isDigit digit])
  | plus | leftParen | rightParen =>
      rw [text_token, List.mem_singleton] at member
      subst member
      exact absurd digit (by decide)

/-- A piece that begins with a digit consists of digits. -/
theorem Valid.isDigit_of_head {piece : Piece} {c : Char} {tail : List Char} (valid : piece.Valid)
    (head : piece.text = c :: tail) (digit : c.isDigit = true) :
    ∀ c ∈ piece.text, c.isDigit = true :=
  (valid.number_of_mem (by simp [head]) digit).2

/-- A piece that begins with a blank consists of blanks. -/
theorem Valid.isSkipped_of_head {piece : Piece} {c : Char} {tail : List Char}
    (valid : piece.Valid) (head : piece.text = c :: tail) (skipped : Token.isSkipped c = true) :
    ∀ c ∈ piece.text, Token.isSkipped c = true := by
  cases valid with
  | number _ inside =>
      have digit : c.isDigit = true := inside c (by simp_all [text])
      exact absurd (Token.isSkipped_eq_false_of_isDigit digit) (by simp [skipped])
  | blanks _ inside => exact inside
  | plus | leftParen | rightParen =>
      simp only [text, List.cons.injEq] at head
      obtain ⟨rfl, -⟩ := head
      exact absurd skipped (by decide)

/-- A piece that begins with a symbol is that symbol. -/
theorem Valid.tail_eq_nil_of_symbol {piece : Piece} {c : Char} {tail : List Char}
    {kind : Terminal} (valid : piece.Valid) (head : piece.text = c :: tail)
    (symbol : Token.symbol? c = some kind) : tail = [] := by
  cases valid with
  | number _ inside =>
      have digit : c.isDigit = true := inside c (by simp_all [text])
      exact absurd (Token.isDigit_eq_false_of_symbol? symbol) (by simp [digit])
  | blanks _ inside =>
      have skipped : Token.isSkipped c = true := inside c (by simp_all [text])
      exact absurd (Token.isSkipped_eq_false_of_symbol? symbol) (by simp [skipped])
  | plus | leftParen | rightParen =>
      simp only [text, List.cons.injEq] at head
      exact head.2.symm

/-- A piece of one class of characters, in front of which a run of that class stands, is no longer
than the run. -/
theorem Valid.length_le_run {p : Char → Bool} {run rest : List Char} {other : Piece}
    (valid : other.Valid)
    (closed : ∀ {c tail}, other.text = c :: tail → p c = true → ∀ c ∈ other.text, p c = true)
    (nonempty : run ≠ []) (inside : ∀ c ∈ run, p c = true) (stop : ∀ c ∈ rest.head?, p c = false)
    (front : other.text <+: run ++ rest) : other.text.length ≤ run.length := by
  have otherInside : ∀ c ∈ other.text, p c = true := by
    obtain ⟨c, tail, head⟩ := List.exists_cons_of_ne_nil valid.text_ne_nil
    obtain ⟨d, more, rfl⟩ := List.exists_cons_of_ne_nil nonempty
    rw [head] at front
    have same : c = d := (List.cons_prefix_cons.1 front).1
    exact closed head (same ▸ inside d List.mem_cons_self)
  -- a longer piece would go on with a character that is outside the class of the run
  by_contra longer
  have runFront : run <+: other.text :=
    List.prefix_of_prefix_length_le (List.prefix_append run rest) front (by omega)
  obtain ⟨more, same⟩ := runFront
  rw [← same] at front longer otherInside
  cases more with
  | nil => simp at longer
  | cons c more =>
      obtain ⟨tail, rfl⟩ := (List.prefix_append_right_inj run).1 front
      have outside : p c = false := stop c (by rfl)
      exact absurd (otherInside c (by simp)) (by simp [outside])

theorem munched_number {digits rest : List Char} (nonempty : digits ≠ [])
    (inside : ∀ c ∈ digits, c.isDigit = true) (stop : ∀ c ∈ rest.head?, c.isDigit = false) :
    Munched (token .number digits) rest := by
  refine ⟨.number nonempty inside, fun other valid front => ?_⟩
  exact valid.length_le_run valid.isDigit_of_head nonempty inside stop front

theorem munched_blanks {text rest : List Char} (nonempty : text ≠ [])
    (inside : ∀ c ∈ text, Token.isSkipped c = true)
    (stop : ∀ c ∈ rest.head?, Token.isSkipped c = false) : Munched (blanks text) rest := by
  refine ⟨.blanks nonempty inside, fun other valid front => ?_⟩
  exact valid.length_le_run valid.isSkipped_of_head nonempty inside stop front

theorem munched_symbol {c : Char} {kind : Terminal} {rest : List Char}
    (symbol : Token.symbol? c = some kind) : Munched (token kind [c]) rest := by
  have valid : Valid (token kind [c]) := by
    rcases Token.eq_of_symbol? symbol with rfl | rfl | rfl <;>
      simp only [Token.symbol?, Option.some.injEq] at symbol <;> subst symbol
    · exact .plus
    · exact .leftParen
    · exact .rightParen
  refine ⟨valid, fun other otherValid front => ?_⟩
  obtain ⟨d, tail, head⟩ := List.exists_cons_of_ne_nil otherValid.text_ne_nil
  rw [head] at front
  have same : d = c := (List.cons_prefix_cons.1 front).1
  have single := otherValid.tail_eq_nil_of_symbol head (same ▸ symbol)
  simp [head, single]

theorem Munched.isSkipped {text rest : List Char} (munched : Munched (blanks text) rest) :
    ∀ c ∈ text, Token.isSkipped c = true := by
  cases munched.1 with
  | blanks _ inside => exact inside

/-- What follows a munched number does not begin with a digit. -/
theorem Munched.stop {digits rest : List Char} (munched : Munched (token .number digits) rest) :
    ∀ c ∈ rest.head?, c.isDigit = false := by
  obtain ⟨valid, longest⟩ := munched
  cases valid with
  | number nonempty inside =>
      intro c head
      -- one digit more would make a longer number
      by_contra digit
      rw [Bool.not_eq_false] at digit
      obtain ⟨tail, rfl⟩ := List.head?_eq_some_iff.1 head
      have more : Valid (token .number (digits ++ [c])) :=
        .number (by simp) (by simpa [or_imp, forall_and] using ⟨inside, digit⟩)
      have longer := longest _ more ⟨tail, by simp⟩
      simp only [text_token, List.length_append, List.length_singleton] at longer
      omega

/-- The kind of the token that a piece is, if it is no blanks. -/
def kind? : Piece → Option Terminal
  | token kind _ => some kind
  | blanks _ => none

/-- The first character of a piece tells its kind. -/
theorem Valid.kind?_head {piece : Piece} {c : Char} {tail : List Char} (valid : piece.Valid)
    (head : piece.text = c :: tail) : Token.kind? c = piece.kind? := by
  cases valid with
  | number _ inside =>
      have digit : c.isDigit = true := inside c (by simp_all [text])
      simp [Token.kind?, kind?, digit]
  | blanks _ inside =>
      have skipped : Token.isSkipped c = true := inside c (by simp_all [text])
      exact Token.kind?_of_isSkipped skipped
  | plus | leftParen | rightParen =>
      simp only [text, List.cons.injEq] at head
      obtain ⟨rfl, -⟩ := head
      rfl

/-- A text is empty, begins with a piece, or begins with a stray character. -/
theorem text_cases (cs : List Char) :
    cs = [] ∨ (∃ piece rest, Munched piece rest ∧ cs = piece.text ++ rest) ∨
      ∃ c rest, Token.IsStray c ∧ cs = c :: rest := by
  -- a run of a class goes up to the first character outside it
  have stop : ∀ (p : Char → Bool) (cs : List Char), ∀ c ∈ (cs.dropWhile p).head?, p c = false := by
    intro p cs c head
    have outside := List.head?_dropWhile_not p cs
    rw [head] at outside
    simpa using outside
  have inside : ∀ (p : Char → Bool) (cs : List Char), ∀ c ∈ cs.takeWhile p, p c = true :=
    fun p cs c member => List.mem_takeWhile_imp member
  cases cs with
  | nil => exact .inl rfl
  | cons c tail =>
      have split : ∀ p : Char → Bool, p c = true →
          (c :: tail).takeWhile p ≠ [] ∧
            c :: tail = (c :: tail).takeWhile p ++ (c :: tail).dropWhile p :=
        fun p holds => ⟨by simp [holds], List.takeWhile_append_dropWhile.symm⟩
      right
      by_cases skipped : Token.isSkipped c = true
      · obtain ⟨nonempty, same⟩ := split _ skipped
        exact .inl ⟨blanks _, _, munched_blanks nonempty (inside _ _) (stop _ _), same⟩
      · by_cases digit : c.isDigit = true
        · obtain ⟨nonempty, same⟩ := split _ digit
          exact .inl ⟨token .number _, _, munched_number nonempty (inside _ _) (stop _ _), same⟩
        · cases symbol : Token.symbol? c with
          | some kind => exact .inl ⟨token kind [c], tail, munched_symbol symbol, rfl⟩
          | none => exact .inr ⟨c, tail, ⟨by simpa using skipped, by simpa using digit, symbol⟩, rfl⟩

/-- A text that begins with a character of some kind begins with a token of this kind. -/
theorem exists_munched {c : Char} {kind : Terminal} (begins : Token.kind? c = some kind)
    (rest : List Char) :
    ∃ text tail, c :: rest = text ++ tail ∧ (token kind text).Munched tail := by
  rcases text_cases (c :: rest) with none | ⟨piece, tail, munched, same⟩ | ⟨d, tail, stray, same⟩
  · cases none
  · obtain ⟨d, more, head⟩ := List.exists_cons_of_ne_nil munched.1.text_ne_nil
    rw [head, List.cons_append, List.cons.injEq] at same
    obtain ⟨rfl, rfl⟩ := same
    have known := munched.1.kind?_head head
    rw [begins] at known
    cases piece with
    | token other text =>
        cases known
        exact ⟨text, tail, by rw [← List.cons_append, ← head, text_token], munched⟩
    | blanks text => cases known
  · cases same
    obtain ⟨-, undigit, unsymbol⟩ := stray
    simp [Token.kind?, undigit, unsymbol] at begins

/-- Induction over a text, piece by piece. -/
theorem text_induction {motive : List Char → Prop} (nil : motive [])
    (piece : ∀ piece rest, Munched piece rest → motive rest → motive (piece.text ++ rest))
    (stray : ∀ c rest, Token.IsStray c → motive (c :: rest)) (cs : List Char) : motive cs := by
  rcases text_cases cs with rfl | ⟨front, rest, munched, rfl⟩ | ⟨c, rest, alone, rfl⟩
  · exact nil
  · have nonempty := List.length_pos_of_ne_nil munched.1.text_ne_nil
    have shorter : rest.length < (front.text ++ rest).length := by
      rw [List.length_append]
      omega
    exact piece front rest munched (text_induction nil piece stray rest)
  · exact stray c rest alone
termination_by cs.length

/-- The token that a piece at a place makes, if it is no blanks. -/
def tokens (place : Position) : Piece → List Token
  | token kind text => [⟨kind, String.ofList text, place⟩]
  | blanks _ => []

end Piece

/-! ## Seams -/

/-- No run of digits goes over the seam between two texts. -/
def Apart (front back : List Char) : Prop :=
  ∀ c ∈ front.getLast?, ∀ d ∈ back.head?, c.isDigit = true → d.isDigit = false

theorem apart_of_head {front back : List Char} (stop : ∀ c ∈ back.head?, c.isDigit = false) :
    Apart front back :=
  fun _ _ d head _ => stop d head

/-- Blanks keep what stands before them apart from what stands behind them. -/
theorem apart_blanks (front back : List Char) {blanks : List Char} (nonempty : blanks ≠ [])
    (inside : ∀ c ∈ blanks, Token.isSkipped c = true) : Apart front (blanks ++ back) := by
  obtain ⟨c, blanks, rfl⟩ := List.exists_cons_of_ne_nil nonempty
  refine apart_of_head fun d head => ?_
  cases head
  have blank := inside c List.mem_cons_self
  by_contra digit
  rw [Token.isSkipped_eq_false_of_isDigit (by simpa using digit)] at blank
  cases blank

theorem Apart.of_append {front middle back : List Char} (apart : Apart (front ++ middle) back) :
    Apart middle back := by
  intro c last
  refine apart c ?_
  rw [List.getLast?_append, Option.mem_def.1 last]
  rfl

/-- A seam behind the second of two texts lies behind both, unless the second is empty. -/
theorem Apart.append_left {front middle back : List Char} (apart : Apart middle back)
    (empty : middle = [] → Apart front back) : Apart (front ++ middle) back := by
  cases middle with
  | nil => simpa using empty rfl
  | cons c tail =>
      intro d last
      rw [List.getLast?_append_of_ne_nil _ (List.cons_ne_nil c tail)] at last
      exact apart d last

namespace Piece

/-- What follows a piece is apart from it. -/
theorem Munched.apart {piece : Piece} {rest : List Char} (munched : piece.Munched rest)
    (front : List Char) : Apart (front ++ piece.text) rest := by
  intro c last d head digit
  have inside : c ∈ piece.text := by
    rw [List.getLast?_append_of_ne_nil _ munched.1.text_ne_nil] at last
    exact List.mem_of_getLast? last
  have number := (munched.1.number_of_mem inside digit).1
  rw [number] at munched
  exact munched.stop d head

/-- What is munched in front of a text is munched at its end as well. -/
theorem Munched.alone {piece : Piece} {rest : List Char} (munched : piece.Munched rest) :
    piece.Munched [] := by
  refine ⟨munched.1, fun other valid front => munched.2 other valid ?_⟩
  rw [List.append_nil] at front
  exact front.trans (List.prefix_append _ _)

/-- A token is munched in front of a longer text too, unless a number goes over the seam. -/
theorem Munched.append {kind : Terminal} {text rest back : List Char}
    (munched : (token kind text).Munched rest) (apart : Apart (text ++ rest) back) :
    (token kind text).Munched (rest ++ back) := by
  cases munched.1 with
  | number nonempty inside =>
      refine munched_number nonempty inside fun c head => ?_
      cases rest with
      | nil =>
          -- the number goes up to the seam
          obtain ⟨d, last⟩ := Option.ne_none_iff_exists'.1 (mt List.getLast?_eq_none_iff.1 nonempty)
          rw [List.append_nil] at apart
          exact apart d last c head (inside d (List.mem_of_getLast? last))
      | cons d rest => exact munched.stop c head
  | plus | leftParen | rightParen => exact munched_symbol rfl

end Piece

/-! ## Splitting -/

/-- A text falls into pieces, each of them munched in front of what is left. -/
inductive Split : List Char → List Piece → Prop
  | nil : Split [] []
  | piece {piece : Piece} {rest : List Char} {pieces : List Piece} :
      piece.Munched rest → Split rest pieces → Split (piece.text ++ rest) (piece :: pieces)

/-- The tokens among pieces that stand behind `front`. -/
def tokensBehind : List Char → List Piece → List Token
  | _, [] => []
  | front, piece :: pieces =>
      piece.tokens (.following front) ++ tokensBehind (front ++ piece.text) pieces

/-- The tokens of a source: it splits into pieces, and these are the tokens among them. -/
def Lexes (source : String) (tokens : List Token) : Prop :=
  ∃ pieces, Split source.toList pieces ∧ tokens = tokensBehind [] pieces

/-! ## The scanner -/

namespace Token

theorem scanFrom_nil (done : List Token) (place : Position) :
    scanFrom done [] place = ⟨done.reverse, none⟩ := by
  rw [scanFrom]
  simp [next]

theorem scanFrom_stray {c : Char} (stray : IsStray c) (done : List Token) (rest : List Char)
    (place : Position) : scanFrom done (c :: rest) place = ⟨done.reverse, some (c, place)⟩ := by
  obtain ⟨unskipped, undigit, unsymbol⟩ := stray
  have front : next (c :: rest) place = .stray c place := by
    simp [next, unskipped, undigit, unsymbol]
  rw [scanFrom]
  split <;> simp_all

/-- Scanning a text whose first token is known goes on behind that token. -/
theorem scanFrom_of_next {cs rest : List Char} {place beyond : Position} {token : Token}
    (read : next cs place = .token token rest beyond) (done : List Token) :
    scanFrom done cs place = scanFrom (token :: done) rest beyond := by
  rw [scanFrom]
  split <;> simp_all

/-- Blanks in front of a text only move its place. -/
theorem scanFrom_blanks {text : List Char} (inside : ∀ c ∈ text, isSkipped c = true)
    (done : List Token) (rest : List Char) (place : Position) :
    scanFrom done (text ++ rest) place = scanFrom done rest (place.afterAll text) := by
  have skip : next (text ++ rest) place = next rest (place.afterAll text) := by
    induction text generalizing place with
    | nil => rfl
    | cons c text ih =>
        have skipped : isSkipped c = true := inside c List.mem_cons_self
        rw [List.cons_append, next, if_pos skipped, Position.afterAll_cons]
        exact ih (fun d member => inside d (List.mem_cons_of_mem c member)) (place.after c)
  rw [scanFrom, skip, scanFrom.eq_def _ rest]

/-- Scanning takes the pieces off a text one by one. -/
theorem scanFrom_piece {piece : Piece} {rest : List Char} (munched : piece.Munched rest)
    (done : List Token) (place : Position) :
    scanFrom done (piece.text ++ rest) place =
      scanFrom ((piece.tokens place).reverse ++ done) rest (place.afterAll piece.text) := by
  cases munched.1 with
  | blanks _ inside => exact scanFrom_blanks inside done rest place
  | @number digits nonempty inside =>
      obtain ⟨c, tail, rfl⟩ := List.exists_cons_of_ne_nil nonempty
      have digit : c.isDigit = true := inside c List.mem_cons_self
      -- the run that the scanner takes ends where `rest` begins
      have run := span_digits (fun d member => inside d (List.mem_cons_of_mem c member))
        munched.stop
      apply scanFrom_of_next
      simp [next, isSkipped_eq_false_of_isDigit digit, digit, run]
  | plus | leftParen | rightParen => exact scanFrom_of_next rfl done

end Token

/-- The scanner finds the tokens among the pieces of a text. -/
theorem scanFrom_of_split {cs : List Char} {pieces : List Piece} (split : Split cs pieces)
    (done : List Token) (front : List Char) :
    Token.scanFrom done cs (.following front) =
      ⟨done.reverse ++ tokensBehind front pieces, none⟩ := by
  induction split generalizing done front with
  | nil => simp [Token.scanFrom_nil, tokensBehind]
  | piece munched _ ih =>
      rw [Token.scanFrom_piece munched, ← Position.following_append, ih]
      simp [tokensBehind]

/-- A text in which the scanner finds no stray character splits into pieces. -/
theorem exists_split {cs : List Char} {done : List Token} {place : Position}
    (clean : (Token.scanFrom done cs place).stray = none) : ∃ pieces, Split cs pieces := by
  induction cs using Piece.text_induction generalizing done place with
  | nil => exact ⟨[], .nil⟩
  | piece piece rest munched ih =>
      rw [Token.scanFrom_piece munched] at clean
      obtain ⟨pieces, split⟩ := ih clean
      exact ⟨piece :: pieces, .piece munched split⟩
  | stray c rest stray =>
      rw [Token.scanFrom_stray stray] at clean
      cases clean

/-- The scanner reads to the end of a source exactly if the source splits into pieces, and then it
finds the tokens among them. -/
theorem scan_eq_iff_lexes (source : String) (tokens : List Token) :
    Token.scan source = ⟨tokens, none⟩ ↔ Lexes source tokens := by
  have scanned : ∀ {pieces}, Split source.toList pieces →
      Token.scan source = ⟨tokensBehind [] pieces, none⟩ :=
    fun split => scanFrom_of_split split [] []
  constructor
  · intro same
    have clean : (Token.scanFrom [] source.toList .start).stray = none :=
      congrArg Token.Scan.stray same
    obtain ⟨pieces, split⟩ := exists_split clean
    refine ⟨pieces, split, ?_⟩
    rw [scanned split] at same
    exact (congrArg Token.Scan.tokens same).symm
  · rintro ⟨pieces, split, rfl⟩
    exact scanned split

/-- A source has one sequence of tokens. -/
theorem Lexes.unique {source : String} {tokens others : List Token} (lexes : Lexes source tokens)
    (otherLexes : Lexes source others) : others = tokens := by
  rw [← scan_eq_iff_lexes] at lexes otherLexes
  exact congrArg Token.Scan.tokens (otherLexes.symm.trans lexes)

/-! ## Texts of tokens -/

theorem flatMap_tokensBehind {cs : List Char} {pieces : List Piece} (split : Split cs pieces)
    (front : List Char) :
    (tokensBehind front pieces).flatMap (fun token => token.text.toList) =
      cs.filter fun c => !Token.isSkipped c := by
  induction split generalizing front with
  | nil => rfl
  | @piece piece rest pieces munched _ ih =>
      -- blanks vanish on both sides, and nothing in the text of a token is a blank
      have kept : (piece.tokens (.following front)).flatMap (fun token => token.text.toList) =
          piece.text.filter fun c => !Token.isSkipped c := by
        cases munched.1 with
        | @number digits _ inside =>
            have all : ∀ c ∈ digits, (!Token.isSkipped c) = true := fun c member => by
              simp [Token.isSkipped_eq_false_of_isDigit (inside c member)]
            simp [Piece.tokens, List.filter_eq_self.2 all]
        | @blanks text _ inside =>
            have none : ∀ c ∈ text, ¬ (!Token.isSkipped c) = true := fun c member => by
              simp [inside c member]
            simp [Piece.tokens, List.filter_eq_nil_iff.2 none]
        | plus | leftParen | rightParen => simp [Piece.tokens, Token.isSkipped]
      rw [tokensBehind, List.flatMap_append, ih, kept, List.filter_append]

/-- The texts of the tokens of a source make up the source without its blanks. -/
theorem join_texts_of_lexes {source : String} {tokens : List Token}
    (lexes : Lexes source tokens) :
    String.join (tokens.map Token.text) =
      String.ofList (source.toList.filter fun c => !Token.isSkipped c) := by
  obtain ⟨pieces, split, rfl⟩ := lexes
  rw [← flatMap_tokensBehind split []]
  apply String.toList_injective
  simp [String.toList_join, List.flatMap_map]

/-- A symbol occurs in a piece as often as the piece is a token of its kind. -/
theorem countP_tokens {c : Char} {kind : Terminal} (symbol : Token.symbol? c = some kind)
    {piece : Piece} (valid : piece.Valid) (place : Position) :
    (piece.tokens place).countP (fun token => token.terminal = kind) = piece.text.count c := by
  have undigit := Token.isDigit_eq_false_of_symbol? symbol
  have unskipped := Token.isSkipped_eq_false_of_symbol? symbol
  have proper : kind ≠ .number := by
    rintro rfl
    rcases Token.eq_of_symbol? symbol with rfl | rfl | rfl <;> cases symbol
  cases valid with
  | number _ inside =>
      have none := List.count_eq_zero.2 fun member => absurd (inside c member) (by simp [undigit])
      simp [Piece.tokens, none, proper.symm]
  | blanks _ inside =>
      have none := List.count_eq_zero.2 fun member => absurd (inside c member) (by simp [unskipped])
      simp [Piece.tokens, none]
  | plus | leftParen | rightParen =>
      rcases Token.eq_of_symbol? symbol with rfl | rfl | rfl <;> cases symbol <;> rfl

/-- A symbol occurs in a text as often as tokens of its kind are among the pieces of the text. -/
theorem countP_tokensBehind {c : Char} {kind : Terminal} (symbol : Token.symbol? c = some kind)
    {cs : List Char} {pieces : List Piece} (split : Split cs pieces) (front : List Char) :
    (tokensBehind front pieces).countP (fun token => token.terminal = kind) = cs.count c := by
  induction split generalizing front with
  | nil => rfl
  | piece munched _ ih =>
      rw [tokensBehind, List.countP_append, countP_tokens symbol munched.1, ih, List.count_append]

/-- A symbol occurs in a source as often as the source has tokens of its kind. -/
theorem countP_of_lexes {c : Char} {kind : Terminal} (symbol : Token.symbol? c = some kind)
    {source : String} {tokens : List Token} (lexes : Lexes source tokens) :
    tokens.countP (fun token => token.terminal = kind) = source.toList.count c := by
  obtain ⟨pieces, split, rfl⟩ := lexes
  exact countP_tokensBehind symbol split []

/-- Each token among pieces is the longest that stands at its place, and no number runs into it. -/
theorem munched_of_mem_tokensBehind {cs : List Char} {pieces : List Piece}
    (split : Split cs pieces) {front : List Char} (apart : Apart front cs) {token : Token}
    (member : token ∈ tokensBehind front pieces) :
    ∃ before after, front ++ cs = before ++ token.text.toList ++ after ∧
      token.place = .following before ∧ Apart before token.text.toList ∧
      (Piece.token token.terminal token.text.toList).Munched after := by
  induction split generalizing front with
  | nil => cases member
  | @piece piece rest pieces munched _ ih =>
      rw [tokensBehind, List.mem_append] at member
      rcases member with here | later
      · cases piece with
        | token kind text =>
            rw [Piece.tokens, List.mem_singleton] at here
            subst here
            obtain ⟨c, tail, head⟩ := List.exists_cons_of_ne_nil munched.1.text_ne_nil
            rw [Piece.text_token] at head
            subst head
            rw [String.toList_ofList]
            exact ⟨front, rest, by simp, rfl, apart, munched⟩
        | blanks text => cases here
      · obtain ⟨before, after, same, place⟩ := ih (munched.apart front) later
        exact ⟨before, after, by rw [← same, List.append_assoc], place⟩

/-- Each token of a source is the longest that stands at its place, and no number runs into it. -/
theorem munched_of_lexes {source : String} {tokens : List Token} (lexes : Lexes source tokens)
    {token : Token} (member : token ∈ tokens) :
    ∃ before after, source.toList = before ++ token.text.toList ++ after ∧
      token.place = .following before ∧ Apart before token.text.toList ∧
      (Piece.token token.terminal token.text.toList).Munched after := by
  obtain ⟨pieces, split, rfl⟩ := lexes
  have apart : Apart [] source.toList := nofun
  exact munched_of_mem_tokensBehind split apart member

/-- The text of each token of a source stands at the place of the token. -/
theorem occurs_of_lexes {source : String} {tokens : List Token} (lexes : Lexes source tokens)
    {token : Token} (member : token ∈ tokens) :
    ∃ before after, source.toList = before ++ token.text.toList ++ after ∧
      token.place = .following before := by
  obtain ⟨before, after, split, place, -, -⟩ := munched_of_lexes lexes member
  exact ⟨before, after, split, place⟩

/-- The text of a number token is decimal digits. -/
theorem digits_of_lexes {source : String} {tokens : List Token} (lexes : Lexes source tokens)
    {token : Token} (member : token ∈ tokens) (number : token.terminal = .number) :
    token.text.toList ≠ [] ∧ ∀ c ∈ token.text.toList, c.isDigit = true := by
  obtain ⟨before, after, -, -, -, munched⟩ := munched_of_lexes lexes member
  rw [number] at munched
  cases munched.1 with
  | number nonempty inside => exact ⟨nonempty, inside⟩

end SumCalc

import Mathlib.Data.List.Forall2
import Mathlib.Data.List.TakeWhile
import SumCalc.Json
import SumCalc.Proofs.Printing

/-!
# Reading JSON

A reader of JSON after RFC 8259 that takes a text character by character. `Mode` is where it stands
among characters: between tokens, within a word, or within quotes. `Stage` is where it stands among
values: which lists and records are open and what may come next. The reader knows all of the format,
also what `Json.render` never writes; it refuses a surrogate without its other half, since no
character has it.

Results:
1. `read?_escape`: a character is read back from the way it is written inside quotes.
2. `number?_toString`: so is an integer.
3. `Writes`: a text is one way to write a value, wherever it stands; `writes_list` and
   `writes_record` put such texts together.
4. `decode?_render`: what is rendered is read back.
-/

namespace SumCalc

/-- A value of the format. A number with a fraction or an exponent is an integer times a power of
ten. -/
inductive Datum
  | null
  | truth (b : Bool)
  | integer (n : Int)
  | decimal (mantissa exponent : Int)
  | text (s : String)
  | list (items : List Datum)
  | record (fields : List (String × Datum))

namespace Datum

/-! ## Words -/

/-- The digits of a fraction, and what stands behind them. -/
def fraction? : List Char → Option (List Char × List Char)
  | '.' :: rest =>
      if (rest.takeWhile Char.isDigit).isEmpty then none
      else some (rest.takeWhile Char.isDigit, rest.dropWhile Char.isDigit)
  | rest => some ([], rest)

/-- A number of decimal digits only, of which there is at least one. -/
def digits? (cs : List Char) : Option Nat :=
  if !cs.isEmpty && cs.all Char.isDigit then some (SumCalc.decimal cs) else none

/-- The exponent of a number. -/
def exponent? : List Char → Option Int
  | [] => some 0
  | c :: rest =>
      if c = 'e' || c = 'E' then
        match rest with
        | '-' :: digits => (digits? digits).map fun n => -(n : Int)
        | '+' :: digits => (digits? digits).map Int.ofNat
        | digits => (digits? digits).map Int.ofNat
      else none

/-- A number without its sign: `sign` is one or minus one. -/
def unsigned? (sign : Int) (cs : List Char) : Option Datum :=
  let whole := cs.takeWhile Char.isDigit
  let rest := cs.dropWhile Char.isDigit
  if whole.isEmpty || (whole.head? = some '0' && whole.length ≠ 1) then none
  else if rest.isEmpty then some (.integer (sign * SumCalc.decimal whole))
  else do
    let (fraction, rest) ← fraction? rest
    let exponent ← exponent? rest
    return .decimal (sign * SumCalc.decimal (whole ++ fraction)) (exponent - fraction.length)

/-- A number. -/
def number? : List Char → Option Datum
  | '-' :: rest => unsigned? (-1) rest
  | cs => unsigned? 1 cs

/-- A value that is one word. -/
def word? (cs : List Char) : Option Datum :=
  if cs = "null".toList then some .null
  else if cs = "true".toList then some (.truth true)
  else if cs = "false".toList then some (.truth false)
  else number? cs

/-- The characters that words are made of. -/
def isWord (c : Char) : Bool := c.isAlphanum || c = '-' || c = '+' || c = '.'

/-! ## Texts -/

/-- What stands within quotes: a character or a UTF-16 unit. -/
inductive Glyph
  | plain (c : Char)
  | unit (n : Nat)

def isHighSurrogate (unit : Nat) : Bool := 0xd800 ≤ unit && unit < 0xdc00

def isLowSurrogate (unit : Nat) : Bool := 0xdc00 ≤ unit && unit < 0xe000

/-- The character of two surrogates. -/
def paired (high low : Nat) : Char :=
  Char.ofNat (0x10000 + (high - 0xd800) * 0x400 + (low - 0xdc00))

/-- The characters that glyphs stand for. -/
def Glyph.chars? : List Glyph → Option (List Char)
  | [] => some []
  | .plain c :: rest => (chars? rest).map (c :: ·)
  | .unit high :: rest =>
      if isHighSurrogate high then
        match rest with
        | .unit low :: rest =>
            if isLowSurrogate low then (chars? rest).map (paired high low :: ·) else none
        | _ => none
      else if isLowSurrogate high then none
      else (chars? rest).map (Char.ofNat high :: ·)

/-- The value of a hexadecimal digit. -/
def hexValue? (c : Char) : Option Nat :=
  if '0' ≤ c && c ≤ '9' then some (c.toNat - '0'.toNat)
  else if 'a' ≤ c && c ≤ 'f' then some (c.toNat - 'a'.toNat + 10)
  else if 'A' ≤ c && c ≤ 'F' then some (c.toNat - 'A'.toNat + 10)
  else none

/-- The character that a backslash and a letter stand for. -/
def mnemonic? : Char → Option Char
  | '"' => some '"'
  | '\\' => some '\\'
  | '/' => some '/'
  | 'b' => some '\x08'
  | 'f' => some '\x0c'
  | 'n' => some '\n'
  | 'r' => some '\r'
  | 't' => some '\t'
  | _ => none

/-! ## The reader -/

/-- The tokens besides the white space. -/
inductive Mark
  | beginList
  | endList
  | beginRecord
  | endRecord
  | colon
  | comma
  | text (s : String)
  | word (value : Datum)

def punctuation? : Char → Option Mark
  | '[' => some .beginList
  | ']' => some .endList
  | '\x7b' => some .beginRecord
  | '\x7d' => some .endRecord
  | ':' => some .colon
  | ',' => some .comma
  | _ => none

def isSpace (c : Char) : Bool := c = ' ' || c = '\t' || c = '\n' || c = '\r'

/-- A list or a record that is still open, with what it has so far. -/
inductive Open
  | list (items : List Datum)
  /-- A record whose next value belongs to a name. -/
  | record (fields : List (String × Datum)) (name : String)

/-- Where a reader stands among values, with the lists and records around, the innermost first. -/
inductive Stage
  /-- A value comes next. -/
  | value (around : List Open)
  /-- A list has begun: a value comes next, or its end. -/
  | items (around : List Open)
  /-- A record has begun: a name comes next, or its end. -/
  | fields (around : List Open)
  /-- A name comes next. -/
  | name (fields : List (String × Datum)) (around : List Open)
  /-- A name has been read, a colon comes next. -/
  | named (fields : List (String × Datum)) (name : String) (around : List Open)
  /-- A value is complete. -/
  | complete (value : Datum) (around : List Open)

/-- The stage after the first token of a value. -/
def Stage.begin (around : List Open) : Mark → Option Stage
  | .beginList => some (.items around)
  | .beginRecord => some (.fields around)
  | .text s => some (.complete (.text s) around)
  | .word found => some (.complete found around)
  | _ => none

/-- The stage after one more token. -/
def Stage.after : Stage → Mark → Option Stage
  | .value around, mark => begin around mark
  | .items around, .endList => some (.complete (.list []) around)
  | .items around, mark => begin (.list [] :: around) mark
  | .fields around, .endRecord => some (.complete (.record []) around)
  | .fields around, .text label => some (.named [] label around)
  | .name done around, .text label => some (.named done label around)
  | .named done label around, .colon => some (.value (.record done label :: around))
  | .complete last (.list done :: around), .comma =>
      some (.value (.list (done ++ [last]) :: around))
  | .complete last (.list done :: around), .endList =>
      some (.complete (.list (done ++ [last])) around)
  | .complete last (.record done label :: around), .comma =>
      some (.name (done ++ [(label, last)]) around)
  | .complete last (.record done label :: around), .endRecord =>
      some (.complete (.record (done ++ [(label, last)])) around)
  | _, _ => none

/-- Where a reader stands among characters. -/
inductive Mode
  | between
  | word (letters : List Char)
  | quoted (glyphs : List Glyph)
  /-- Behind a backslash within quotes. -/
  | escape (glyphs : List Glyph)
  /-- Within a unit of which some digits are missing besides the next one. -/
  | unit (glyphs : List Glyph) (missing value : Nat)

structure Reader where
  mode : Mode
  stage : Stage

namespace Reader

/-- The reader after one more token, behind which it stands between tokens. -/
def takeMark (stage : Stage) (mark : Mark) : Option Reader := (stage.after mark).map (⟨.between, ·⟩)

/-- The reader after a character that stands between tokens or begins one. -/
def takeFirst (stage : Stage) (c : Char) : Option Reader :=
  if isSpace c then some ⟨.between, stage⟩
  else if c = '"' then some ⟨.quoted [], stage⟩
  else
    match punctuation? c with
    | some mark => takeMark stage mark
    | none => some ⟨.word [c], stage⟩

/-- The stage after a word. -/
def endWord (stage : Stage) (letters : List Char) : Option Stage := do
  let value ← word? letters
  stage.after (.word value)

/-- The reader after one more character. -/
def take : Reader → Char → Option Reader
  | ⟨.between, stage⟩, c => takeFirst stage c
  | ⟨.word letters, stage⟩, c =>
      if isWord c then some ⟨.word (letters ++ [c]), stage⟩
      else do takeFirst (← endWord stage letters) c
  | ⟨.quoted glyphs, stage⟩, c =>
      if c = '"' then do takeMark stage (.text (String.ofList (← Glyph.chars? glyphs)))
      else if c = '\\' then some ⟨.escape glyphs, stage⟩
      else if c.toNat < 0x20 then none
      else some ⟨.quoted (glyphs ++ [.plain c]), stage⟩
  | ⟨.escape glyphs, stage⟩, c =>
      if c = 'u' then some ⟨.unit glyphs 3 0, stage⟩
      else (mnemonic? c).map fun c => ⟨.quoted (glyphs ++ [.plain c]), stage⟩
  | ⟨.unit glyphs missing value, stage⟩, c => do
      let digit ← hexValue? c
      match missing with
      | 0 => return ⟨.quoted (glyphs ++ [.unit (value * 16 + digit)]), stage⟩
      | missing + 1 => return ⟨.unit glyphs missing (value * 16 + digit), stage⟩

/-- The value when the text ends. -/
def finish? : Reader → Option Datum
  | ⟨.between, .complete done []⟩ => some done
  | ⟨.word letters, stage⟩ =>
      match endWord stage letters with
      | some (.complete done []) => some done
      | _ => none
  | _ => none

/-- The value of the rest of a text. -/
def read? (reader : Reader) : List Char → Option Datum
  | [] => reader.finish?
  | c :: rest => do read? (← reader.take c) rest

end Reader

/-- The value that a text denotes. -/
def decode? (cs : List Char) : Option Datum := Reader.read? ⟨.between, .value []⟩ cs

example : decode? " [true , \"\\ud83d\\ude00\\/\", [ ]]".toList =
    some (.list [.truth true, .text "😀/", .list []]) := by cbv

example : decode? "[true,]".toList = none ∧ decode? "\"\\ud83d\"".toList = none := by cbv

/-! ## Numbers -/

/-- A number other than zero is written without a leading zero. -/
theorem head?_toDigits {n : Nat} (positive : 0 < n) : (Nat.toDigits 10 n).head? ≠ some '0' := by
  induction n using Nat.strongRecOn with
  | ind n ih =>
      by_cases small : n < 10
      · have single : ∀ m < 10, 0 < m → (Nat.toDigits 10 m).head? ≠ some '0' := by decide
        exact single n small positive
      · rw [Nat.toDigits_of_base_le (by decide) (Nat.not_lt.1 small), List.head?_append]
        have earlier := ih (n / 10) (by omega) (by omega)
        cases front : (Nat.toDigits 10 (n / 10)).head? with
        | none => exact absurd (List.head?_eq_none_iff.1 front) Nat.toDigits_ne_nil
        | some c => exact fun same => earlier (front.trans same)

theorem unsigned?_toDigits (sign : Int) (n : Nat) :
    unsigned? sign (Nat.toDigits 10 n) = some (.integer (sign * n)) := by
  have digits : ∀ c ∈ Nat.toDigits 10 n, c.isDigit = true :=
    fun c member => Nat.isDigit_of_mem_toDigits (by decide) (by decide) member
  have whole : (Nat.toDigits 10 n).takeWhile Char.isDigit = Nat.toDigits 10 n :=
    List.takeWhile_eq_self_iff.2 digits
  have rest : (Nat.toDigits 10 n).dropWhile Char.isDigit = [] := List.dropWhile_eq_nil_iff.2 digits
  have lead : ((Nat.toDigits 10 n).isEmpty || ((Nat.toDigits 10 n).head? = some '0' &&
      (Nat.toDigits 10 n).length ≠ 1)) = false := by
    cases n with
    | zero => rfl
    | succ m => simp [head?_toDigits (Nat.succ_pos m)]
  rw [unsigned?]
  simp only [whole, rest, lead, SumCalc.decimal, Nat.ofDigitChars_ten_toDigits]
  rfl

/-- An integer is read back. -/
theorem number?_toString (n : Int) : number? (toString n).toList = some (.integer n) := by
  by_cases negative : n < 0
  · rw [toList_toString_of_neg negative, number?, unsigned?_toDigits]
    congr 2
    omega
  · obtain ⟨m, rfl⟩ := Int.eq_ofNat_of_zero_le (Int.not_lt.1 negative)
    rw [toList_toString_natCast, number?, unsigned?_toDigits, Int.one_mul]
    intro rest same
    have digit : '-'.isDigit = true :=
      Nat.isDigit_of_mem_toDigits (by decide) (by decide) (same ▸ List.mem_cons_self)
    exact absurd digit (by decide)

/-! ## Characters within quotes -/

namespace Reader

theorem read?_cons {reader next : Reader} {c : Char} (taken : reader.take c = some next)
    (rest : List Char) : reader.read? (c :: rest) = next.read? rest := by
  rw [read?, taken]
  rfl

theorem hexValue?_hexDigit : ∀ digit < 16, hexValue? (Text.hexDigit digit) = some digit := by decide

theorem take_unit_digit (glyphs : List Glyph) (stage : Stage) (missing value n : Nat) :
    take ⟨.unit glyphs (missing + 1) value, stage⟩ (Text.hexDigit (n % 16)) =
      some ⟨.unit glyphs missing (value * 16 + n % 16), stage⟩ := by
  rw [take, hexValue?_hexDigit _ (Nat.mod_lt _ (by decide))]
  rfl

theorem take_unit_last (glyphs : List Glyph) (stage : Stage) (value n : Nat) :
    take ⟨.unit glyphs 0 value, stage⟩ (Text.hexDigit (n % 16)) =
      some ⟨.quoted (glyphs ++ [.unit (value * 16 + n % 16)]), stage⟩ := by
  rw [take, hexValue?_hexDigit _ (Nat.mod_lt _ (by decide))]
  rfl

/-- A UTF-16 unit is read back. -/
theorem read?_unitEscape {n : Nat} (small : n < 0x10000) (glyphs : List Glyph) (stage : Stage)
    (rest : List Char) :
    read? ⟨.quoted glyphs, stage⟩ (Json.unitEscape n ++ rest) =
      read? ⟨.quoted (glyphs ++ [.unit n]), stage⟩ rest := by
  have value : (((0 * 16 + n / 16 / 16 / 16 % 16) * 16 + n / 16 / 16 % 16) * 16 +
      n / 16 % 16) * 16 + n % 16 = n := by omega
  have backslash : take ⟨.quoted glyphs, stage⟩ '\\' = some ⟨.escape glyphs, stage⟩ := rfl
  have letter : take ⟨.escape glyphs, stage⟩ 'u' = some ⟨.unit glyphs 3 0, stage⟩ := rfl
  rw [Json.unitEscape]
  simp only [Text.hex, List.cons_append, List.nil_append]
  rw [read?_cons backslash, read?_cons letter, read?_cons (take_unit_digit ..),
    read?_cons (take_unit_digit ..), read?_cons (take_unit_digit ..),
    read?_cons (take_unit_last ..), value]

theorem take_quoted_plain {c : Char} (mark : c ≠ '"') (backslash : c ≠ '\\')
    (visible : 0x20 ≤ c.toNat) (glyphs : List Glyph) (stage : Stage) :
    take ⟨.quoted glyphs, stage⟩ c = some ⟨.quoted (glyphs ++ [.plain c]), stage⟩ := by
  rw [take, if_neg mark, if_neg backslash, if_neg (Nat.not_lt.2 visible)]

theorem read?_mnemonic {letter c : Char} (unmarked : letter ≠ 'u')
    (stands : mnemonic? letter = some c) (glyphs : List Glyph) (stage : Stage)
    (rest : List Char) :
    read? ⟨.quoted glyphs, stage⟩ ('\\' :: letter :: rest) =
      read? ⟨.quoted (glyphs ++ [.plain c]), stage⟩ rest := by
  have backslash : take ⟨.quoted glyphs, stage⟩ '\\' = some ⟨.escape glyphs, stage⟩ := rfl
  rw [read?_cons backslash, read?_cons]
  rw [take, if_neg unmarked, stands]
  rfl

end Reader

/-- The glyphs of a character, read where some stand already, are these and no others. -/
def Glyph.Means (glyphs : List Glyph) (c : Char) : Prop :=
  ∀ more, chars? (glyphs ++ more) = (chars? more).map (c :: ·)

theorem Glyph.means_plain (c : Char) : Means [.plain c] c := fun _ => rfl

theorem Glyph.means_unit {c : Char} (basic : c.toNat < 0x10000) : Means [.unit c.toNat] c := by
  intro more
  -- no character is a surrogate
  have valid : c.toNat < 0xd800 ∨ 0xdfff < c.toNat ∧ c.toNat < 0x110000 := c.valid
  have notHigh : isHighSurrogate c.toNat = false := by simp [isHighSurrogate]; omega
  have notLow : isLowSurrogate c.toNat = false := by simp [isLowSurrogate]; omega
  rw [List.singleton_append, chars?.eq_def]
  simp [notHigh, notLow]

theorem Glyph.means_units {c : Char} (astral : 0x10000 ≤ c.toNat) :
    Means [.unit (0xd800 + (c.toNat - 0x10000) / 0x400),
      .unit (0xdc00 + (c.toNat - 0x10000) % 0x400)] c := by
  intro more
  have valid : c.toNat < 0xd800 ∨ 0xdfff < c.toNat ∧ c.toNat < 0x110000 := c.valid
  have high : isHighSurrogate (0xd800 + (c.toNat - 0x10000) / 0x400) = true := by
    simp [isHighSurrogate]
    omega
  have low : isLowSurrogate (0xdc00 + (c.toNat - 0x10000) % 0x400) = true := by
    simp [isLowSurrogate]
    omega
  have both : paired (0xd800 + (c.toNat - 0x10000) / 0x400)
      (0xdc00 + (c.toNat - 0x10000) % 0x400) = c := by
    rw [paired]
    have number : 0x10000 + (0xd800 + (c.toNat - 0x10000) / 0x400 - 0xd800) * 0x400 +
        (0xdc00 + (c.toNat - 0x10000) % 0x400 - 0xdc00) = c.toNat := by omega
    rw [number, Char.ofNat_toNat]
  simp [chars?, high, low, both]

/-- A character is read back from the way it is written inside quotes. -/
theorem read?_escape (c : Char) : ∃ glyphs, Glyph.Means glyphs c ∧ ∀ before stage rest,
    Reader.read? ⟨.quoted before, stage⟩ (Json.escape c ++ rest) =
      Reader.read? ⟨.quoted (before ++ glyphs), stage⟩ rest := by
  unfold Json.escape
  split
  · next special =>
      refine ⟨[.plain c], Glyph.means_plain c, fun before stage rest => ?_⟩
      have cases : c = '"' ∨ c = '\\' := by simpa using special
      rcases cases with rfl | rfl <;> exact Reader.read?_mnemonic (by decide) rfl ..
  split
  · next special visible =>
      refine ⟨[.plain c], Glyph.means_plain c, fun before stage rest => ?_⟩
      simp only [Bool.or_eq_true, decide_eq_true_eq, not_or, Bool.and_eq_true] at special visible
      exact Reader.read?_cons (Reader.take_quoted_plain special.1 special.2 visible.1 ..) rest
  iterate 5
    split
    · next same =>
        subst same
        exact ⟨_, Glyph.means_plain _, fun before stage rest =>
          Reader.read?_mnemonic (by decide) rfl ..⟩
  split
  · next basic =>
      exact ⟨[.unit c.toNat], Glyph.means_unit basic, Reader.read?_unitEscape basic⟩
  · next astral =>
      have valid : c.toNat < 0xd800 ∨ 0xdfff < c.toNat ∧ c.toNat < 0x110000 := c.valid
      refine ⟨_, Glyph.means_units (Nat.not_lt.1 astral), fun before stage rest => ?_⟩
      rw [List.append_assoc, Reader.read?_unitEscape (by omega), Reader.read?_unitEscape (by omega),
        List.append_assoc]
      rfl

/-- Characters are read back from the way they are written inside quotes. -/
theorem read?_escapes (cs : List Char) : ∃ glyphs, Glyph.chars? glyphs = some cs ∧
    ∀ before stage rest,
      Reader.read? ⟨.quoted before, stage⟩ (cs.flatMap Json.escape ++ rest) =
        Reader.read? ⟨.quoted (before ++ glyphs), stage⟩ rest := by
  induction cs with
  | nil => exact ⟨[], rfl, fun before stage rest => by simp⟩
  | cons c cs ih =>
      obtain ⟨first, means, readFirst⟩ := read?_escape c
      obtain ⟨others, stands, readOthers⟩ := ih
      refine ⟨first ++ others, ?_, fun before stage rest => ?_⟩
      · rw [means, stands]
        rfl
      · rw [List.flatMap_cons, List.append_assoc, readFirst, readOthers, List.append_assoc]

/-! ## Tokens -/

namespace Reader

/-- The value of a text behind a token, at the stage after that. -/
def read?_after (next : Option Stage) (rest : List Char) : Option Datum :=
  next.bind fun stage => read? ⟨.between, stage⟩ rest

theorem read?_after_some (stage : Stage) (rest : List Char) :
    read?_after (some stage) rest = read? ⟨.between, stage⟩ rest := rfl

/-- Punctuation is no white space, and no text begins with it. -/
theorem punctuation_apart {c : Char} {mark : Mark} (stands : punctuation? c = some mark) :
    isSpace c = false ∧ c ≠ '"' := by
  unfold punctuation? at stands
  split at stands <;> first | decide | cases stands

theorem read?_punctuation {c : Char} {mark : Mark} (stands : punctuation? c = some mark)
    (stage : Stage) (rest : List Char) :
    read? ⟨.between, stage⟩ (c :: rest) = read?_after (stage.after mark) rest := by
  obtain ⟨unspaced, unquoted⟩ := punctuation_apart stands
  rw [read?, take, takeFirst, unspaced, if_neg (by decide), if_neg unquoted, stands]
  show (takeMark stage mark).bind _ = _
  rw [takeMark, read?_after]
  cases stage.after mark <;> rfl

theorem read?_space (stage : Stage) (rest : List Char) :
    read? ⟨.between, stage⟩ (' ' :: rest) = read? ⟨.between, stage⟩ rest :=
  read?_cons rfl rest

/-- A text in quotes is one token. -/
theorem read?_quoted (stage : Stage) (text : String) (rest : List Char) :
    read? ⟨.between, stage⟩ ((Json.quoted text).toList ++ rest) =
      read?_after (stage.after (.text text)) rest := by
  obtain ⟨glyphs, stands, inside⟩ := read?_escapes text.toList
  have opening : take ⟨.between, stage⟩ '"' = some ⟨.quoted [], stage⟩ := rfl
  have closing : take ⟨.quoted ([] ++ glyphs), stage⟩ '"' = takeMark stage (.text text) := by
    rw [take, if_pos rfl, List.nil_append, stands]
    show takeMark stage (.text (String.ofList text.toList)) = _
    rw [String.ofList_toList]
  rw [Json.quoted, String.toList_ofList]
  simp only [List.cons_append, List.append_assoc, List.nil_append]
  rw [read?_cons opening, inside, read?, closing, takeMark, read?_after]
  cases stage.after (.text text) <;> rfl

/-- A character of a word is no white space and no punctuation. -/
theorem takeFirst_letter {c : Char} (letter : isWord c = true) (stage : Stage) :
    takeFirst stage c = some ⟨.word [c], stage⟩ := by
  have unspaced : isSpace c = false := by
    refine Bool.eq_false_iff.2 fun spaced => ?_
    simp only [isSpace, Bool.or_eq_true, decide_eq_true_eq] at spaced
    rcases spaced with ((rfl | rfl) | rfl) | rfl <;> exact absurd letter (by decide)
  have unquoted : c ≠ '"' := by
    rintro rfl
    exact absurd letter (by decide)
  have silent : punctuation? c = none := by
    unfold punctuation?
    split <;> first | rfl | exact absurd letter (by decide)
  rw [takeFirst, unspaced, if_neg (by decide), if_neg unquoted, silent]

/-- Characters of a word are read as one, as far as they go. -/
theorem read?_letters {letters : List Char} (inside : ∀ c ∈ letters, isWord c = true)
    (before : List Char) (stage : Stage) (rest : List Char) :
    read? ⟨.word before, stage⟩ (letters ++ rest) =
      read? ⟨.word (before ++ letters), stage⟩ rest := by
  induction letters generalizing before with
  | nil => simp
  | cons c letters ih =>
      have taken : take ⟨.word before, stage⟩ c = some ⟨.word (before ++ [c]), stage⟩ :=
        if_pos (inside c List.mem_cons_self)
      rw [List.cons_append, read?_cons taken,
        ih fun c member => inside c (List.mem_cons_of_mem _ member)]
      simp

/-- A word ends where no other character of one follows. -/
theorem read?_word_end {rest : List Char} (stop : ∀ c ∈ rest.head?, isWord c = false)
    (letters : List Char) (stage : Stage) :
    read? ⟨.word letters, stage⟩ rest = read?_after (endWord stage letters) rest := by
  cases rest with
  | nil =>
      rw [read?, finish?, read?_after]
      cases endWord stage letters with
      | none => rfl
      | some next => rcases next with _ | _ | _ | _ | _ | ⟨_, _ | _⟩ <;> rfl
  | cons c rest =>
      have other : isWord c = false := stop c rfl
      rw [read?, take, if_neg (by simp [other]), read?_after]
      cases endWord stage letters with
      | none => rfl
      | some next => rfl

/-- A word is one token. -/
theorem read?_word {letters rest : List Char} (nonempty : letters ≠ [])
    (inside : ∀ c ∈ letters, isWord c = true) (stop : ∀ c ∈ rest.head?, isWord c = false)
    {value : Datum} (stands : word? letters = some value) (stage : Stage) :
    read? ⟨.between, stage⟩ (letters ++ rest) = read?_after (stage.after (.word value)) rest := by
  obtain ⟨c, letters, rfl⟩ := List.exists_cons_of_ne_nil nonempty
  have begun : take ⟨.between, stage⟩ c = some ⟨.word [c], stage⟩ :=
    takeFirst_letter (inside c List.mem_cons_self) stage
  rw [List.cons_append, read?_cons begun,
    read?_letters fun c member => inside c (List.mem_cons_of_mem _ member), read?_word_end stop,
    endWord, List.singleton_append, stands]
  rfl

end Reader

/-! ## Written values -/

open SumCalc.Datum.Reader

/-- At a stage, a value may come next that is part of what is open around it. -/
def Stage.Awaits (stage : Stage) (around : List Open) : Prop :=
  ∀ mark, mark ≠ .endList → stage.after mark = begin around mark

theorem Stage.awaits_value (around : List Open) : (Stage.value around).Awaits around :=
  fun _ _ => by rw [after]

theorem Stage.awaits_items (around : List Open) :
    (Stage.items around).Awaits (.list [] :: around) := by
  intro mark other
  cases mark <;> first | rfl | exact absurd rfl other

/-- A text is one way to write a value, whatever stands around it, unless a word goes on behind
it. -/
def Writes (cs : List Char) (value : Datum) : Prop :=
  ∀ stage around rest, Stage.Awaits stage around → (∀ c ∈ rest.head?, isWord c = false) →
    read? ⟨.between, stage⟩ (cs ++ rest) = read? ⟨.between, .complete value around⟩ rest

theorem decode?_of_writes {cs : List Char} {value : Datum} (writes : Writes cs value) :
    decode? cs = some value := by
  have read : read? ⟨.between, .value []⟩ (cs ++ []) = read? ⟨.between, .complete value []⟩ [] :=
    writes _ _ _ (Stage.awaits_value []) nofun
  rw [List.append_nil] at read
  exact read

theorem writes_word {letters : List Char} {value : Datum} (nonempty : letters ≠ [])
    (inside : ∀ c ∈ letters, isWord c = true) (stands : word? letters = some value) :
    Writes letters value := by
  intro stage around rest awaits stop
  rw [read?_word nonempty inside stop stands, awaits _ Mark.noConfusion]
  rfl

theorem writes_null : Writes "null".toList .null :=
  writes_word (by decide) (List.all_eq_true.1 rfl) rfl

theorem writes_text (text : String) : Writes (Json.quoted text).toList (.text text) := by
  intro stage around rest awaits _
  rw [read?_quoted, awaits _ Mark.noConfusion]
  rfl

theorem isWord_of_mem_toString {n : Int} {c : Char} (member : c ∈ (toString n).toList) :
    isWord c = true := by
  rcases sign_or_digit_of_mem_toString member with rfl | digit
  · rfl
  · simp [isWord, Char.isAlphanum, digit]

theorem writes_integer (n : Int) : Writes (toString n).toList (.integer n) := by
  have number := number?_toString n
  have notWord : ∀ word ∈ ["null", "true", "false"], (toString n).toList ≠ word.toList := by
    intro word member same
    have none : ∀ word ∈ ["null", "true", "false"], number? word.toList = none := by
      simp [number?, unsigned?]
    rw [same, none word member] at number
    cases number
  refine writes_word (toString_ne_nil n) (fun c member => isWord_of_mem_toString member) ?_
  rw [word?, if_neg (notWord "null" (by decide)), if_neg (notWord "true" (by decide)),
    if_neg (notWord "false" (by decide)), number]

/-! ## Lists and records -/

theorem intercalate_cons {α : Type} (between text : List α) (texts : List (List α)) :
    between.intercalate (text :: texts) = text ++ texts.flatMap (between ++ ·) := by
  induction texts generalizing text with
  | nil => simp
  | cons next texts ih =>
      simp only [List.intercalate_cons_cons, ih, List.flatMap_cons, List.append_assoc]

/-- What follows an item ends every word: a comma, or the end of the list or record. -/
theorem stop_items (texts : List (List Char)) {closing : Char} (notWord : isWord closing = false)
    (rest : List Char) :
    ∀ c ∈ (texts.flatMap ([',', ' '] ++ ·) ++ closing :: rest).head?, isWord c = false := by
  intro c head
  cases texts with
  | nil =>
      obtain rfl : closing = c := Option.some.inj head
      exact notWord
  | cons text texts =>
      obtain rfl : ',' = c := Option.some.inj head
      rfl

theorem read?_comma (stage : Stage) (rest : List Char) :
    read? ⟨.between, stage⟩ (',' :: ' ' :: rest) = read?_after (stage.after .comma) rest := by
  rw [read?_punctuation rfl, read?_after, read?_after]
  simp only [read?_space]

/-- The other items of a list, each behind a comma, and its end. -/
theorem read?_items {texts : List (List Char)} {values : List Datum}
    (each : List.Forall₂ Writes texts values) (done : List Datum) (last : Datum)
    (around : List Open) (rest : List Char) :
    read? ⟨.between, .complete last (.list done :: around)⟩
        (texts.flatMap ([',', ' '] ++ ·) ++ ']' :: rest) =
      read? ⟨.between, .complete (.list (done ++ last :: values)) around⟩ rest := by
  induction each generalizing done last with
  | nil =>
      rw [List.flatMap_nil, List.nil_append, read?_punctuation rfl]
      rfl
  | @cons text value texts values writes each ih =>
      have stop := stop_items texts (show isWord ']' = false from rfl) rest
      rw [List.flatMap_cons]
      simp only [List.cons_append, List.nil_append, List.append_assoc] at stop ih ⊢
      rw [read?_comma]
      exact (writes _ _ _ (Stage.awaits_value _) stop).trans (by rw [ih]; simp)

/-- A list is written as its items with commas between them. -/
theorem writes_list {texts : List (List Char)} {values : List Datum}
    (each : List.Forall₂ Writes texts values) :
    Writes ('[' :: ([',', ' '].intercalate texts ++ [']'])) (.list values) := by
  intro stage around rest awaits _
  rw [List.cons_append, List.append_assoc, List.singleton_append,
    read?_punctuation rfl, awaits _ Mark.noConfusion, Stage.begin,
    read?_after_some]
  cases each with
  | nil =>
      rw [List.intercalate_nil, List.nil_append, read?_punctuation rfl]
      rfl
  | @cons text value texts values writes each =>
      have stop := stop_items texts (show isWord ']' = false from rfl) rest
      rw [intercalate_cons, List.append_assoc]
      exact (writes _ _ _ (Stage.awaits_items around) stop).trans
        (read?_items each [] value around rest)

/-- A text is one way to write a field of a record. -/
def WritesField (cs : List Char) (field : String × Datum) : Prop :=
  ∃ value, cs = (Json.quoted field.1).toList ++ ':' :: ' ' :: value ∧ Writes value field.2

/-- A field is read where its name may come next. -/
theorem WritesField.read? {cs : List Char} {field : String × Datum} (writes : WritesField cs field)
    {stage : Stage} {done : List (String × Datum)} {around : List Open}
    (awaits : stage.after (.text field.1) = some (.named done field.1 around)) {rest : List Char}
    (stop : ∀ c ∈ rest.head?, isWord c = false) :
    Reader.read? ⟨.between, stage⟩ (cs ++ rest) =
      Reader.read? ⟨.between, .complete field.2 (.record done field.1 :: around)⟩ rest := by
  obtain ⟨value, rfl, writes⟩ := writes
  rw [List.append_assoc, read?_quoted, awaits]
  rw [read?_after_some, List.cons_append, List.cons_append, read?_punctuation rfl, Stage.after,
    read?_after_some, read?_space]
  exact writes _ _ _ (Stage.awaits_value _) stop

/-- The other fields of a record, each behind a comma, and its end. -/
theorem read?_fields {texts : List (List Char)} {fields : List (String × Datum)}
    (each : List.Forall₂ WritesField texts fields) (done : List (String × Datum)) (name : String)
    (last : Datum) (around : List Open) (rest : List Char) :
    Reader.read? ⟨.between, .complete last (.record done name :: around)⟩
        (texts.flatMap ([',', ' '] ++ ·) ++ '\x7d' :: rest) =
      Reader.read? ⟨.between, .complete (.record (done ++ (name, last) :: fields)) around⟩
        rest := by
  induction each generalizing done name last with
  | nil =>
      rw [List.flatMap_nil, List.nil_append, read?_punctuation rfl]
      rfl
  | @cons text field texts fields writes each ih =>
      have stop := stop_items texts (show isWord '\x7d' = false from rfl) rest
      rw [List.flatMap_cons]
      simp only [List.cons_append, List.nil_append, List.append_assoc] at stop ih ⊢
      rw [read?_comma]
      exact (writes.read? rfl stop).trans (by rw [ih]; simp)

/-- A record is written as its fields with commas between them. -/
theorem writes_record {texts : List (List Char)} {fields : List (String × Datum)}
    (each : List.Forall₂ WritesField texts fields) :
    Writes ('\x7b' :: ([',', ' '].intercalate texts ++ ['\x7d'])) (.record fields) := by
  intro stage around rest awaits _
  rw [List.cons_append, List.append_assoc, List.singleton_append,
    read?_punctuation rfl, awaits _ Mark.noConfusion, Stage.begin,
    read?_after_some]
  cases each with
  | nil =>
      rw [List.intercalate_nil, List.nil_append, read?_punctuation rfl]
      rfl
  | @cons text field texts fields writes each =>
      have stop := stop_items texts (show isWord '\x7d' = false from rfl) rest
      rw [intercalate_cons, List.append_assoc]
      exact (writes.read? rfl stop).trans (read?_fields each [] field.1 field.2 around rest)

end Datum

/-! ## Rendered values -/

namespace Json

mutual

/-- The value that is to be read back. -/
def datum : Json → Datum
  | .null => .null
  | .integer n => .integer n
  | .text s => .text s
  | .array items => .list (itemData items)
  | .object fields => .record (fieldData fields)

def itemData : List Json → List Datum
  | [] => []
  | item :: items => item.datum :: itemData items

def fieldData : List (String × Json) → List (String × Datum)
  | [] => []
  | (name, value) :: fields => (name, value.datum) :: fieldData fields

end

open Datum

mutual

theorem writes_render : (json : Json) → Writes json.render.toList json.datum
  | .null => writes_null
  | .integer n => writes_integer n
  | .text s => writes_text s
  | .array items => by
      have all := writes_list (writes_renderItems items)
      rw [render, datum]
      simpa using all
  | .object fields => by
      have all := writes_record (writes_renderFields fields)
      rw [render, datum]
      simpa using all

theorem writes_renderItems : (items : List Json) →
    List.Forall₂ Writes ((renderItems items).map String.toList) (itemData items)
  | [] => .nil
  | item :: items => .cons (writes_render item) (writes_renderItems items)

theorem writes_renderFields : (fields : List (String × Json)) →
    List.Forall₂ WritesField ((renderFields fields).map String.toList) (fieldData fields)
  | [] => .nil
  | (_, value) :: fields =>
      .cons ⟨value.render.toList, by simp, writes_render value⟩ (writes_renderFields fields)

end

/-- What is rendered is read back. -/
theorem decode?_render (json : Json) : decode? json.render.toList = some json.datum :=
  decode?_of_writes (writes_render json)

end Json

end SumCalc

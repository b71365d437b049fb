import Mathlib
import SumCalc.CommandLine.Invocation
import SumCalc.Proofs.Reports

/-!
# Flags, environment and defaults

A `Flag` is a switch together with the value that it gives to the configuration or to the layout.
`Spelled` says which arguments spell a flag: the name of the switch may be cut short as long as it
begins only one spelling, and its value may be attached or be the next argument. Wherever such
arguments stand, they set their value and do nothing else, so the last flag of a kind counts, and
sources among flags are found.

Results:
1. `Word.ofArgument_name`, `Word.ofArgument_attached`: a name that is cut short is recognised.
2. `Reads`: arguments that change what is asked for in one way, whatever surrounds them.
3. `Flag.setAll_eq_settled`: the last flag of a kind counts.
4. `Environment.settles_of_config`: what the environment settles.
5. `run_flags`: flags go before the environment, and the environment before the defaults.
-/

namespace SumCalc.CommandLine

/-! ## Flags and their spellings -/

/-- A switch that settles the configuration or the layout, with the value it gives. -/
inductive Flag
  | width (chosen : Width)
  | overflow (chosen : OverflowPolicy)
  | builder (chosen : BuilderKind)
  | style (chosen : Style)
  | records
deriving DecidableEq, Repr

namespace Flag

def switch : Flag → Switch
  | width _ => .width
  | overflow _ => .overflow
  | builder _ => .builder
  | style _ => .style
  | records => .records

/-- Whether a text is the value that a flag gives. -/
def Admits : Flag → String → Prop
  | width chosen, text => Text.Numeral.read? text = some (chosen.bits : Int)
  | overflow chosen, text => text = chosen.name
  | builder chosen, text => text = chosen.name
  | style chosen, text => text = chosen.name
  | records, _ => False

/-- The arguments once a flag is set. -/
def set (arguments : Arguments) : Flag → Arguments
  | width chosen => { arguments with width := .value chosen }
  | overflow chosen => { arguments with overflow := .value chosen }
  | builder chosen => { arguments with builder := .value chosen }
  | style chosen => { arguments with style := .value chosen }
  | records => { arguments with records := true }

/-- The arguments once some flags are set, one after the other. -/
def setAll (flags : List Flag) (arguments : Arguments) : Arguments := flags.foldl set arguments

def width? : Flag → Option Width
  | width chosen => some chosen
  | _ => none

def overflow? : Flag → Option OverflowPolicy
  | overflow chosen => some chosen
  | _ => none

def builder? : Flag → Option BuilderKind
  | builder chosen => some chosen
  | _ => none

def style? : Flag → Option Style
  | style chosen => some chosen
  | _ => none

/-- The value that the last flag of a kind gives. -/
def last? {α : Type} (kind : Flag → Option α) (flags : List Flag) : Option α :=
  (flags.filterMap kind).getLast?

end Flag

/-- A name is a long spelling of a switch or cut short so that it begins no other spelling. -/
def Abbreviates (name : String) (switch : Switch) : Prop :=
  ['-', '-'] <+: name.toList ∧
    (Switch.spellings.filter fun entry => name.toList.isPrefixOf entry.1.toList).map Prod.snd =
      [switch]

instance (name : String) (switch : Switch) : Decidable (Abbreviates name switch) :=
  inferInstanceAs (Decidable (_ ∧ _))

example :
    Abbreviates "--format" .style ∧ Abbreviates "--fo" .style ∧ ¬ Abbreviates "--f" .style := by
  decide

/-- The arguments that give a value to a switch. -/
inductive Valued (switch : Switch) (text : String) : List String → Prop
  | attached {name : String} : Abbreviates name switch → Valued switch text [name ++ "=" ++ text]
  | separate {name : String} : Abbreviates name switch → Valued switch text [name, text]

/-- The arguments that spell a flag. -/
inductive Spelled : Flag → List String → Prop
  | alone {name : String} : Abbreviates name .records → Spelled .records [name]
  | valued {flag : Flag} {text : String} {arguments : List String} :
      flag.Admits text → Valued flag.switch text arguments → Spelled flag arguments

/-- The arguments that spell some flags, one after the other. -/
inductive SpelledAll : List Flag → List String → Prop
  | nil : SpelledAll [] []
  | cons {flag : Flag} {flags : List Flag} {first rest : List String} :
      Spelled flag first → SpelledAll flags rest → SpelledAll (flag :: flags) (first ++ rest)

/-! ## Names that are cut short -/

theorem Switch.mem_spellings {spelling : String} {kind : Switch}
    (found : ofSpelling? spelling = some kind) : (spelling, kind) ∈ spellings := by
  obtain ⟨front, back, split, -⟩ := List.lookup_eq_some_iff.1 found
  rw [split]
  simp

theorem Switch.equals_not_mem_spellings : ∀ entry ∈ spellings, '=' ∉ entry.1.toList := by decide

namespace Abbreviates

variable {name : String} {switch : Switch}

theorem exists_filter (abbreviates : Abbreviates name switch) : ∃ spelling,
    (Switch.spellings.filter fun entry => name.toList.isPrefixOf entry.1.toList) =
      [(spelling, switch)] := by
  obtain ⟨⟨spelling, kind⟩, same, rfl⟩ := List.map_eq_singleton_iff.1 abbreviates.2
  exact ⟨spelling, same⟩

theorem equals_not_mem (abbreviates : Abbreviates name switch) : '=' ∉ name.toList := by
  obtain ⟨spelling, only⟩ := abbreviates.exists_filter
  have member : (spelling, switch) ∈ [(spelling, switch)] := List.mem_singleton_self _
  rw [← only, List.mem_filter, List.isPrefixOf_iff_prefix] at member
  exact fun inside => Switch.equals_not_mem_spellings _ member.1 (member.2.subset inside)

/-- A name that is spelled in full is a long spelling of the switch. -/
theorem of_ofSpelling? (abbreviates : Abbreviates name switch) {kind : Switch}
    (full : Switch.ofSpelling? name = some kind) : kind = switch ∧ Word.isShort name = false := by
  have long : ∀ entry ∈ Switch.spellings, ['-', '-'] <+: entry.1.toList →
      Word.isShort entry.1 = false := by decide
  obtain ⟨spelling, only⟩ := abbreviates.exists_filter
  have member := Switch.mem_spellings full
  have found : (name, kind) ∈ [(spelling, switch)] := by
    rw [← only, List.mem_filter, List.isPrefixOf_iff_prefix]
    exact ⟨member, List.prefix_rfl⟩
  cases List.mem_singleton.1 found
  exact ⟨rfl, long _ member abbreviates.1⟩

theorem ne_separator (abbreviates : Abbreviates name switch) : name ≠ "--" := by
  rintro rfl
  have several : ¬ Abbreviates "--" switch := by cases switch <;> decide
  exact several abbreviates

end Abbreviates

namespace Word

theorem splitAtEquals_of_not_mem {cs : List Char} (unused : '=' ∉ cs) :
    splitAtEquals cs = (cs, none) := by
  have all : ∀ c ∈ cs, (decide (c ≠ '=')) = true := fun c member =>
    decide_eq_true fun same => unused (same ▸ member)
  rw [splitAtEquals, List.dropWhile_eq_nil_iff.2 all]

theorem splitAtEquals_append {cs : List Char} (unused : '=' ∉ cs) (value : List Char) :
    splitAtEquals (cs ++ '=' :: value) = (cs, some (String.ofList value)) := by
  have all : ∀ c ∈ cs, (decide (c ≠ '=')) = true := fun c member =>
    decide_eq_true fun same => unused (same ▸ member)
  rw [splitAtEquals, List.dropWhile_append_of_pos all, List.takeWhile_append_of_pos all]
  simp

variable {name : String} {switch : Switch}

theorem abbreviated_eq (abbreviates : Abbreviates name switch) {rest : List Char}
    {value : Option String} (split : splitAtEquals (name.toList ++ rest) = (name.toList, value)) :
    ∃ spelling, abbreviated (name.toList ++ rest) = [(spelling, .switch switch false value)] := by
  obtain ⟨spelling, only⟩ := abbreviates.exists_filter
  obtain ⟨letters, dashed⟩ := abbreviates.1
  refine ⟨spelling, ?_⟩
  rw [← dashed] at split only ⊢
  simp only [List.cons_append, List.nil_append] at split only ⊢
  rw [abbreviated, split]
  simp only [only, List.map_cons, List.map_nil]

theorem head?_toList (abbreviates : Abbreviates name switch) (rest : List Char) :
    (name.toList ++ rest).head? = some '-' := by
  obtain ⟨letters, dashed⟩ := abbreviates.1
  rw [← dashed]
  rfl

theorem length_toList (abbreviates : Abbreviates name switch) (rest : List Char) :
    (name.toList ++ rest).length ≠ 1 := by
  obtain ⟨letters, dashed⟩ := abbreviates.1
  rw [← dashed]
  simp

/-- A name that is cut short is recognised. -/
theorem ofArgument_name (abbreviates : Abbreviates name switch) :
    ofArgument name = .ok (.switch switch false none) := by
  have split : splitAtEquals (name.toList ++ []) = (name.toList, none) := by
    rw [List.append_nil]
    exact splitAtEquals_of_not_mem abbreviates.equals_not_mem
  have dash := head?_toList abbreviates []
  have long := length_toList abbreviates []
  obtain ⟨spelling, only⟩ := abbreviated_eq abbreviates split
  rw [List.append_nil] at split dash long only
  rw [ofArgument, if_neg (not_not_intro dash)]
  cases full : Switch.ofSpelling? name with
  | some kind =>
      obtain ⟨rfl, short⟩ := abbreviates.of_ofSpelling? full
      simp only [short]
  | none => simp only [if_neg long, split, only]

/-- So is one with a text attached to it. -/
theorem ofArgument_attached (abbreviates : Abbreviates name switch) (text : String) :
    ofArgument (name ++ "=" ++ text) = .ok (.switch switch false (some text)) := by
  have whole : (name ++ "=" ++ text).toList = name.toList ++ '=' :: text.toList := by simp
  have split := splitAtEquals_append abbreviates.equals_not_mem text.toList
  rw [String.ofList_toList] at split
  have dash := head?_toList abbreviates ('=' :: text.toList)
  have long := length_toList abbreviates ('=' :: text.toList)
  obtain ⟨spelling, only⟩ := abbreviated_eq abbreviates split
  have unknown : Switch.ofSpelling? (name ++ "=" ++ text) = none := by
    cases found : Switch.ofSpelling? (name ++ "=" ++ text) with
    | none => rfl
    | some kind =>
        refine absurd ?_ (Switch.equals_not_mem_spellings _ (Switch.mem_spellings found))
        simp
  rw [ofArgument]
  simp only [whole, unknown, if_neg (not_not_intro dash), if_neg long, split, String.ofList_toList]
  cases full : Switch.ofSpelling? name with
  | some kind =>
      obtain ⟨rfl, short⟩ := abbreviates.of_ofSpelling? full
      simp only [short]
  | none => simp only [only]

end Word

/-! ## Arguments that do one thing -/

/-- A text that begins with no dash is no switch. -/
def Undashed (text : String) : Prop := text.toList.head? ≠ some '-'

instance (text : String) : Decidable (Undashed text) := inferInstanceAs (Decidable (_ ≠ _))

theorem Undashed.ne_separator {text : String} (undashed : Undashed text) : text ≠ "--" := by
  rintro rfl
  exact undashed rfl

theorem Word.ofArguments_cons {text : String} {word : Word} {rest : List String} {later : List Word}
    (different : text ≠ "--") (first : ofArgument text = .ok word)
    (others : ofArguments rest = .ok later) : ofArguments (text :: rest) = .ok (word :: later) := by
  rw [ofArguments, if_neg different, first, others]
  rfl

theorem Word.ofArgument_undashed {text : String} (undashed : Undashed text) :
    ofArgument text = .ok (.positional text) := if_pos undashed

/-- Wherever some arguments stand, they are these words, and they change what is asked for in this
way and do nothing else. -/
structure Reads (texts : List String) (words : List Word) (change : Arguments → Arguments) :
    Prop where
  read : ∀ {rest later}, Word.ofArguments rest = .ok later →
    Word.ofArguments (texts ++ rest) = .ok (words ++ later)
  taken : ∀ before later, Arguments.consume before (words ++ later) = (change before).consume later
  /-- They do not go on with a run of plain words before them. -/
  starts : ∀ word ∈ words.head?, word.isPlain = false

namespace Reads

theorem nil : Reads [] [] id where
  read later := later
  taken _ _ := rfl
  starts := nofun

theorem append {front back : List String} {first last : List Word}
    {change other : Arguments → Arguments} (before : Reads front first change)
    (behind : Reads back last other) :
    Reads (front ++ back) (first ++ last) (other ∘ change) where
  read later := by
    rw [List.append_assoc, List.append_assoc]
    exact before.read (behind.read later)
  taken asked later := by
    rw [List.append_assoc, before.taken, behind.taken]
    rfl
  starts := by
    cases first with
    | nil => exact behind.starts
    | cons word words => exact before.starts

/-- A switch with the value that is given to it. -/
theorem valued {switch : Switch} {text : String} {texts : List String}
    {change : Arguments → Arguments} (takes : switch.takesValue = true) (undashed : Undashed text)
    (assigns : ∀ before, Arguments.assign before switch text = .ok (change before))
    (spelled : Valued switch text texts) : ∃ words, Reads texts words change := by
  cases spelled with
  | @attached name abbreviates =>
      have different : name ++ "=" ++ text ≠ "--" := by
        intro same
        have equals : '=' ∈ (name ++ "=" ++ text).toList := by simp
        rw [same] at equals
        exact absurd equals (by decide)
      refine ⟨[.switch switch false (some text)], ?_, ?_, ?_⟩
      · exact fun later =>
          Word.ofArguments_cons different (Word.ofArgument_attached abbreviates text) later
      · intro before later
        rw [List.singleton_append, Arguments.consume, if_pos takes, assigns]
        rfl
      · intro word head
        cases head
        rfl
  | @separate name abbreviates =>
      refine ⟨[.switch switch false none, .positional text], ?_, ?_, ?_⟩
      · intro rest later others
        have value := Word.ofArguments_cons undashed.ne_separator
          (Word.ofArgument_undashed undashed) others
        exact Word.ofArguments_cons abbreviates.ne_separator
          (Word.ofArgument_name abbreviates) value
      · intro before later
        rw [List.cons_append, List.singleton_append, Arguments.consume, if_pos takes, assigns]
        rfl
      · intro word head
        cases head
        rfl

end Reads

/-- A numeral that begins with a dash denotes no positive number. -/
theorem undashed_of_read? {text : String} {n : Int} (read : Text.Numeral.read? text = some n)
    (positive : 0 < n) : Undashed text := by
  intro dash
  obtain ⟨front, back, split, blank, others⟩ :=
    Text.exists_trimWhile Text.Numeral.isMargin text.toList
  rw [Text.Numeral.read?] at read
  generalize Text.trimWhile Text.Numeral.isMargin text.toList = trimmed at split read
  rw [split] at dash
  -- a dash is no blank, so it is still in front when the blanks are gone
  cases front with
  | cons c front =>
      obtain rfl : c = '-' := Option.some.inj dash
      exact absurd (blank '-' List.mem_cons_self) (by decide)
  | nil =>
      cases trimmed with
      | nil =>
          exact absurd (others '-' (List.mem_of_head? dash)) (by decide)
      | cons c digits =>
          obtain rfl : c = '-' := Option.some.inj dash
          obtain ⟨amount, found, rfl⟩ := Option.map_eq_some_iff.1 read
          obtain ⟨natural, -, same⟩ := Option.bind_eq_some_iff.1 found
          cases same
          have negated : 0 < -(natural : Int) := positive
          omega

namespace Arguments

theorem choose_of_eq_some {α : Type} {ofName? : String → Option α} {name : String} {a : α}
    (found : ofName? name = some a) (kind : Switch) (choices : String) :
    choose kind ofName? choices name = .ok (.value a) := by
  rw [choose, found]

theorem given_of_ne_separator {α : Type} {text : String} (different : text ≠ "--")
    (read : String → Except UsageFault (Given α)) : given text read = read text :=
  if_neg different

end Arguments

namespace Flag

/-- No value of a flag begins with a dash. -/
theorem Admits.undashed {flag : Flag} {text : String} (admits : flag.Admits text) :
    Undashed text := by
  cases flag with
  | width chosen => exact undashed_of_read? admits (by cases chosen <;> decide)
  | overflow chosen => subst admits; cases chosen <;> decide
  | builder chosen => subst admits; cases chosen <;> decide
  | style chosen => subst admits; cases chosen <;> decide
  | records => exact admits.elim

theorem Admits.takesValue {flag : Flag} {text : String} (admits : flag.Admits text) :
    flag.switch.takesValue = true := by
  cases flag <;> first | rfl | exact admits.elim

theorem Admits.assign {flag : Flag} {text : String} (admits : flag.Admits text)
    (before : Arguments) : before.assign flag.switch text = .ok (flag.set before) := by
  have different := admits.undashed.ne_separator
  cases flag with
  | width chosen =>
      have numeral : Text.Numeral.read? text = some (chosen.bits : Int) := admits
      rw [switch, Arguments.assign, Arguments.given_of_ne_separator different,
        Arguments.chooseWidth, numeral]
      simp only [Width.ofBits?_bits]
      rfl
  | overflow chosen | builder chosen | style chosen =>
      subst admits
      simp only [switch, Arguments.assign, Arguments.given_of_ne_separator different,
        Arguments.choose_of_eq_some chosen.ofName?_name]
      rfl
  | records => exact admits.elim

end Flag

/-- The arguments that spell a flag set it. -/
theorem Spelled.reads {flag : Flag} {texts : List String} (spelled : Spelled flag texts) :
    ∃ words, Reads texts words flag.set := by
  cases spelled with
  | alone abbreviates =>
      refine ⟨[.switch .records false none], ?_, ?_, ?_⟩
      · exact fun later => Word.ofArguments_cons abbreviates.ne_separator
          (Word.ofArgument_name abbreviates) later
      · intro before later
        exact Arguments.consume.eq_def before (.switch .records false none :: later)
      · intro word head
        cases head
        rfl
  | valued admits spelled =>
      exact Reads.valued admits.takesValue admits.undashed admits.assign spelled

/-- The arguments that spell some flags set them, one after the other. -/
theorem SpelledAll.reads {flags : List Flag} {texts : List String}
    (spelled : SpelledAll flags texts) : ∃ words, Reads texts words (Flag.setAll flags) := by
  induction spelled with
  | nil => exact ⟨[], .nil⟩
  | cons first rest ih =>
      obtain ⟨word, before⟩ := first.reads
      obtain ⟨words, behind⟩ := ih
      exact ⟨word ++ words, before.append behind⟩

/-! ## Command lines -/

namespace Arguments

/-- The arguments once some sources are taken, if there are any. -/
def withSources (arguments : Arguments) : List String → Arguments
  | [] => arguments
  | sources => { arguments with sources := some sources }

/-- The request of arguments with the sources that they have taken. -/
theorem request_withSources {arguments : Arguments} {defaults config : Config} {path : Option Path}
    (untaken : arguments.sources = none) (configured : arguments.config defaults = .ok config)
    (named : arguments.path? = .ok path) (block : List String) :
    (arguments.withSources block).request defaults =
      .ok ⟨config, arguments.layout, block, path⟩ := by
  have sameConfig : (arguments.withSources block).config defaults = .ok config := by
    cases block <;> exact configured
  have samePath : (arguments.withSources block).path? = .ok path := by
    cases block <;> exact named
  have sameLayout : (arguments.withSources block).layout = arguments.layout := by
    cases block <;> rfl
  have taken : (arguments.withSources block).sources.getD [] = block := by
    cases block with
    | nil => rw [withSources, untaken]; rfl
    | cons text block => rfl
  rw [request, sameConfig, samePath, sameLayout, taken]
  rfl

/-- Texts that begin with no dash are positional words. -/
theorem ofArguments_block {block : List String} (undashed : ∀ text ∈ block, Undashed text)
    {rest : List String} {later : List Word} (others : Word.ofArguments rest = .ok later) :
    Word.ofArguments (block ++ rest) = .ok (block.map .positional ++ later) := by
  induction block with
  | nil => exact others
  | cons text block ih =>
      have first := undashed text List.mem_cons_self
      exact Word.ofArguments_cons first.ne_separator (Word.ofArgument_undashed first)
        (ih fun text member => undashed text (List.mem_cons_of_mem _ member))

/-- A run of plain words is taken as a whole. -/
theorem consume_plain {run rest : List Word} (some : run ≠ [])
    (plain : ∀ word ∈ run, word.isPlain = true)
    (ends : ∀ word ∈ rest.head?, word.isPlain = false) (before : Arguments) :
    before.consume (run ++ rest) = (before.takePlain (run.map Word.text)).consume rest := by
  obtain ⟨word, others, rfl⟩ := List.exists_cons_of_ne_nil some
  have isPlain := plain word List.mem_cons_self
  have inside := fun word member => plain word (List.mem_cons_of_mem _ member)
  have stop : rest.takeWhile Word.isPlain = [] ∧ rest.dropWhile Word.isPlain = rest := by
    cases rest with
    | nil => exact ⟨rfl, rfl⟩
    | cons next rest =>
        have apart := ends next rfl
        exact ⟨List.takeWhile_cons_of_neg (by simp [apart]),
          List.dropWhile_cons_of_neg (by simp [apart])⟩
  rw [List.cons_append, consume]
  · rw [List.takeWhile_append_of_pos inside, List.dropWhile_append_of_pos inside, stop.1, stop.2,
      List.append_nil]
  · rintro kind short attached rfl
    cases isPlain
  · rintro text rfl
    cases isPlain

/-- The first run of positional words are the sources. -/
theorem consume_block {block : List String} (undashed : ∀ text ∈ block, Undashed text)
    {later : List Word} (starts : ∀ word ∈ later.head?, word.isPlain = false)
    {arguments : Arguments} (untaken : arguments.sources = none) :
    arguments.consume (block.map .positional ++ later) =
      (arguments.withSources block).consume later := by
  cases block with
  | nil => rfl
  | cons text block =>
      have plain : ∀ word ∈ (text :: block).map Word.positional, word.isPlain = true := by
        simp [Word.isPlain]
      have dashless : "--" ∉ text :: block := fun member => (undashed _ member).ne_separator rfl
      have texts : ((text :: block).map Word.positional).map Word.text = text :: block := by
        rw [List.map_map]
        exact List.map_id' _
      have some : (text :: block).map Word.positional ≠ [] := List.cons_ne_nil _ _
      rw [consume_plain some plain starts, texts, takePlain, untaken]
      simp only [List.erase_of_not_mem dashless, withSources]

/-- A command line with sources among other arguments, when it leaves nothing over. -/
theorem ofCommandLine_of_reads {front block back : List String} {first last : List Word}
    {change other : Arguments → Arguments} (before : Reads front first change)
    (behind : Reads back last other) (undashed : ∀ text ∈ block, Undashed text)
    (untaken : (change {}).sources = none)
    (complete : (other ((change {}).withSources block)).extras = []) :
    ofCommandLine (front ++ block ++ back) = .ok (other ((change {}).withSources block)) := by
  have lastWords : Word.ofArguments back = .ok last := by
    have read := behind.read (show Word.ofArguments [] = .ok [] from rfl)
    simpa using read
  have words := before.read (ofArguments_block undashed lastWords)
  have ended : (other ((change {}).withSources block)).consume [] =
      .ok (other ((change {}).withSources block)) := by rw [consume]
  have taken := behind.taken ((change {}).withSources block) []
  rw [List.append_nil, ended] at taken
  rw [← consume_block undashed behind.starts untaken, ← before.taken] at taken
  rw [List.append_assoc, ofCommandLine, words]
  show (consume {} _ >>= fun arguments => _) = _
  rw [taken]
  show (if (other _).extras.isEmpty = true then _ else _) = _
  rw [complete]
  rfl

end Arguments

namespace Flag

/-- What a switch was given, if it was. -/
def given {α : Type} : Option α → Given α
  | none => .nothing
  | some a => .value a

theorem orElse_given {α : Type} (chosen : Option α) (fallback : α) :
    (given chosen).orElse fallback = some (chosen.getD fallback) := by
  cases chosen <;> rfl

/-- The arguments that flags settle: the last of each kind counts. -/
def settled (flags : List Flag) : Arguments where
  width := given (last? width? flags)
  overflow := given (last? overflow? flags)
  builder := given (last? builder? flags)
  style := given (last? style? flags)
  records := flags.contains records

theorem setAll_eq_settled (flags : List Flag) : setAll flags {} = settled flags := by
  induction flags using List.reverseRecOn with
  | nil => rfl
  | append_singleton flags flag ih =>
      rw [setAll, List.foldl_concat, ← setAll, ih]
      cases flag <;>
        simp [set, settled, last?, width?, overflow?, builder?, style?, given,
          List.filterMap_append]

theorem setAll_append (front back : List Flag) (arguments : Arguments) :
    setAll (front ++ back) arguments = setAll back (setAll front arguments) :=
  List.foldl_append

/-- A change that no flag gets in the way of may be made after all of them. -/
theorem setAll_change (change : Arguments → Arguments)
    (swap : ∀ arguments flag, set (change arguments) flag = change (set arguments flag))
    (flags : List Flag) (arguments : Arguments) :
    setAll flags (change arguments) = change (setAll flags arguments) := by
  induction flags generalizing arguments with
  | nil => rfl
  | cons flag flags ih =>
      rw [setAll, List.foldl_cons, swap]
      exact ih _

/-- Flags and sources do not get in each other's way. -/
theorem setAll_withSources (flags : List Flag) (arguments : Arguments) (block : List String) :
    setAll flags (arguments.withSources block) = (setAll flags arguments).withSources block := by
  refine setAll_change (fun arguments => arguments.withSources block) (fun arguments flag => ?_)
    flags arguments
  cases block with
  | nil => rfl
  | cons text block => cases flag <;> rfl

/-- The configuration that flags and defaults make. -/
def config (flags : List Flag) (defaults : Config) : Config where
  width := (last? width? flags).getD defaults.width
  overflow := (last? overflow? flags).getD defaults.overflow
  builder := (last? builder? flags).getD defaults.builder

/-- The layout that flags ask for. -/
def layout (flags : List Flag) : Layout where
  style := (last? style? flags).getD .sum
  records := flags.contains records

theorem config_settled (flags : List Flag) (defaults : Config) :
    (settled flags).config defaults = .ok (config flags defaults) := by
  rw [Arguments.config]
  simp only [settled, orElse_given]
  rfl

theorem layout_settled (flags : List Flag) : (settled flags).layout = layout flags := by
  rw [Arguments.layout]
  simp only [settled, orElse_given]
  rfl

end Flag

/-! ## Settings -/

/-- How a setting is settled: by a flag if there is one, else by the text that the environment has
for it, else by its default. -/
def Settles {α : Type} (flag : Option α) (setting : Option String) (reads : String → Option α)
    (fallback a : α) : Prop :=
  match flag, setting with
  | some chosen, _ => a = chosen
  | none, some text => reads text = some a
  | none, none => a = fallback

theorem Settles.getD {α : Type} {setting : Option String} {reads : String → Option α}
    {fallback a : α} (settles : Settles none setting reads fallback a) (flag : Option α) :
    Settles flag setting reads fallback (flag.getD a) := by
  cases flag with
  | none => exact settles
  | some chosen => rfl

theorem Settles.of_getD {α : Type} {setting : Option String} {name : α → String}
    {reads : String → Option α} (reads_name : ∀ a, reads (name a) = some a) {fallback a : α}
    (found : reads (setting.getD (name fallback)) = some a) :
    Settles none setting reads fallback a := by
  cases setting with
  | none =>
      have same := found.symm.trans (reads_name fallback)
      exact Option.some.inj same
  | some text => exact found

/-- The width of a numeral. -/
def widthOf? (text : String) : Option Width := (Text.Numeral.read? text).bind Width.ofBits?

/-- What the environment settles. -/
theorem settles_of_config {environment : Environment} {defaults : Config}
    (supplied : environment.config = .ok defaults) :
    Settles none (environment.setting? Environment.widthVariable) widthOf? .bits32
        defaults.width ∧
      Settles none (environment.setting? Environment.overflowVariable) OverflowPolicy.ofName? .fail
        defaults.overflow ∧
      Settles none (environment.setting? Environment.builderVariable) BuilderKind.ofName?
        .recursive defaults.builder := by
  obtain ⟨bits, read, settings⟩ := exists_of_bind_ok supplied
  obtain ⟨width, overflow, builder⟩ := Config.ofSettings_eq_ok_iff.1 settings
  refine ⟨?_, .of_getD OverflowPolicy.ofName?_name overflow,
    .of_getD BuilderKind.ofName?_name builder⟩
  rw [Environment.bits] at read
  cases found : environment.setting? Environment.widthVariable with
  | none =>
      rw [found] at read
      cases read
      exact Option.some.inj (width.symm.trans (Width.ofBits?_bits .bits32))
  | some text =>
      simp only [found] at read
      cases numeral : Text.Numeral.read? text with
      | none =>
          rw [numeral] at read
          cases read
      | some n =>
          rw [numeral] at read
          cases read
          show widthOf? text = some defaults.width
          rw [widthOf?, numeral]
          exact width

/-! ## Runs -/

namespace Request

/-- What a request leaves behind with a report on a number of sources. -/
def outcome (request : Request) (count : Nat) (report : Report) : Outcome where
  code := report.code
  stdout := report.stdout
  stderr := (if request.layout.verbose then opening request.config count else "") ++ report.stderr

/-- A request is evaluated to the report on its sources. -/
theorem evaluate_eq_outcome {request : Request} {content : Option String} {report : Report}
    (made : Report.ofSources request.config request.layout (request.allSources content) =
      .ok report) :
    request.evaluate content = .ok (request.outcome (request.allSources content).length report) := by
  rw [evaluate]
  simp only [made]
  rfl

/-- The outcome of a request is the report on its sources, when no steps are logged. -/
theorem evaluate_of_report {request : Request} {content : Option String} {report : Report}
    (quiet : request.layout.verbose = false)
    (made : Report.ofSources request.config request.layout (request.allSources content) =
      .ok report) :
    request.evaluate content = .ok ⟨report.code, report.stdout, report.stderr⟩ := by
  rw [evaluate_eq_outcome made, outcome, quiet]
  simp

end Request

namespace Invocation

/-- A request that is made is pending. -/
theorem plan_of_request {environment : Environment} {defaults : Config} {arguments : List String}
    {asked : Arguments} {request : Request}
    (supplied : environment.config = .ok defaults)
    (read : Arguments.ofCommandLine arguments = .ok asked)
    (made : asked.request defaults = .ok request) :
    plan environment arguments = .ok (.pending request) := by
  rw [plan, supplied]
  simp only [read, made]
  rfl

theorem run_of_plan {environment : Environment} {arguments : List String} {request : Request}
    (planned : plan environment arguments = .ok (.pending request)) (files : FileTree) :
    run environment files arguments =
      request.finish (files.read (request.file.getD (Path.ofString ""))) := by
  rw [run, planned]
  rfl

/-- A command line that is not refused is run as the request that it makes. -/
theorem run_of_request {environment : Environment} {defaults : Config}
    {arguments : List String} {asked : Arguments} {request : Request}
    (supplied : environment.config = .ok defaults)
    (read : Arguments.ofCommandLine arguments = .ok asked)
    (makes : asked.request defaults = .ok request) (files : FileTree) :
    run environment files arguments =
      request.finish (files.read (request.file.getD (Path.ofString ""))) :=
  run_of_plan (plan_of_request supplied read makes) files

end Invocation

/-- Flags and sources are run as the report on the sources. -/
theorem Invocation.run_of_report {environment : Environment} {defaults : Config}
    {front back : List Flag} {frontTexts block backTexts : List String} {report : Report}
    (supplied : environment.config = .ok defaults) (frontSpelled : SpelledAll front frontTexts)
    (backSpelled : SpelledAll back backTexts) (undashed : ∀ text ∈ block, Undashed text)
    (made : Report.ofSources (Flag.config (front ++ back) defaults) (Flag.layout (front ++ back))
      (if block.isEmpty then [sample] else block) = .ok report) (files : FileTree) :
    run environment files (frontTexts ++ block ++ backTexts) =
      .ok ⟨report.code, report.stdout, report.stderr⟩ := by
  obtain ⟨first, before⟩ := frontSpelled.reads
  obtain ⟨last, behind⟩ := backSpelled.reads
  have final : Flag.setAll back ((Flag.setAll front {}).withSources block) =
      (Flag.settled (front ++ back)).withSources block := by
    rw [Flag.setAll_withSources, ← Flag.setAll_append, Flag.setAll_eq_settled]
  have untaken : (Flag.setAll front {}).sources = none := by
    rw [Flag.setAll_eq_settled]
    rfl
  have complete : ((Flag.settled (front ++ back)).withSources block).extras = [] := by
    cases block <;> rfl
  rw [← final] at complete
  have read := Arguments.ofCommandLine_of_reads before behind undashed untaken complete
  rw [final] at read
  have request := Arguments.request_withSources rfl
    (Flag.config_settled (front ++ back) defaults) rfl block
  rw [Flag.layout_settled] at request
  rw [run_of_request supplied read request files, Request.finish, Request.evaluate_of_report rfl]
  · rfl
  · rw [Request.allSources, Option.map_none, Option.getD_none, List.append_nil]
    exact made

/-- Flags, wherever they stand and however they are spelled, go before the environment, and the
environment before the defaults; the last flag of a kind counts. With a configuration settled in
this way, a command line does what the report on its sources says. A faulty environment ends all
command lines alike. -/
theorem run_flags (environment : Environment) (files : FileTree) :
    (∀ (defaults : Config) (front back : List Flag) (frontTexts block backTexts : List String),
      environment.config = .ok defaults → SpelledAll front frontTexts → SpelledAll back backTexts →
      (∀ text ∈ block, Undashed text) →
      ∃ (config : Config) (report : Report),
        Settles (Flag.last? Flag.width? (front ++ back))
          (environment.setting? Environment.widthVariable) widthOf? .bits32 config.width ∧
        Settles (Flag.last? Flag.overflow? (front ++ back))
          (environment.setting? Environment.overflowVariable) OverflowPolicy.ofName? .fail
          config.overflow ∧
        Settles (Flag.last? Flag.builder? (front ++ back))
          (environment.setting? Environment.builderVariable) BuilderKind.ofName? .recursive
          config.builder ∧
        Config.ofSettings config.width.bits config.overflow.name config.builder.name = .ok config ∧
        Report.ofSources config
            ⟨(Flag.last? Flag.style? (front ++ back)).getD .sum,
              (front ++ back).contains .records, false⟩
            (if block.isEmpty then [sample] else block) = .ok report ∧
        Invocation.run environment files (frontTexts ++ block ++ backTexts) =
          .ok ⟨report.code, report.stdout, report.stderr⟩) ∧
    ∀ fault, environment.config = .error fault → ∀ arguments, ∃ stderr,
      Invocation.run environment files arguments = .ok ⟨2, "", stderr⟩ := by
  constructor
  · intro defaults front back frontTexts block backTexts supplied frontSpelled backSpelled undashed
    obtain ⟨width, overflow, builder⟩ := settles_of_config supplied
    have accepted : Config.ofSettings _ _ _ = .ok (Flag.config (front ++ back) defaults) :=
      Config.ofSettings_eq_ok_iff.2 ⟨Width.ofBits?_bits _, OverflowPolicy.ofName?_name _,
        BuilderKind.ofName?_name _⟩
    obtain ⟨reports, -, made⟩ := Report.exists_reports (Flag.config (front ++ back) defaults)
      (Flag.layout (front ++ back)) (if block.isEmpty then [sample] else block)
    exact ⟨_, _, width.getD _, overflow.getD _, builder.getD _, accepted, made,
      Invocation.run_of_report supplied frontSpelled backSpelled undashed made files⟩
  · intro fault faulty arguments
    rw [Invocation.run, Invocation.plan, faulty]
    exact ⟨_, rfl⟩

/-- A flag behind the source goes before one of the same kind in front of it and before the
environment, which still settles the builder. -/
theorem run_flags_mixed :
    Invocation.run
        [("INTEXPR_INT_BITS", "64"), ("INTEXPR_OVERFLOW", ""), ("INTEXPR_BUILDER", "stack")] ⟨[]⟩
        ["--int-b", " 16", "--over=wrap", "100+100", "--fo", "tree", "--int-bits=8"] =
      .ok ⟨0, "100+100=Plus(Number(100), Number(100))=-56\n", ""⟩ := by
  have wide : Spelled (.width .bits16) ["--int-b", " 16"] :=
    .valued (by cbv) (.separate (by decide))
  have wrap : Spelled (.overflow .wrap) ["--over=wrap"] :=
    .valued rfl (.attached (show Abbreviates "--over" .overflow by decide))
  have tree : Spelled (.style .tree) ["--fo", "tree"] := .valued rfl (.separate (by decide))
  have eight : (Flag.width .bits8).Admits "8" := by cbv
  have narrow : Spelled (.width .bits8) ["--int-bits=8"] :=
    .valued eight (.attached (show Abbreviates "--int-bits" .width by decide))
  obtain ⟨⟨width, overflow, builder⟩, report, settled, wraps, stack, -, made, ran⟩ := (run_flags
    [("INTEXPR_INT_BITS", "64"), ("INTEXPR_OVERFLOW", ""), ("INTEXPR_BUILDER", "stack")] ⟨[]⟩).1
    _ _ _ _ ["100+100"] _ (by cbv) (.cons wide (.cons wrap .nil)) (.cons tree (.cons narrow .nil))
    (by decide)
  obtain rfl : width = .bits8 := settled
  obtain rfl : overflow = .wrap := wraps
  obtain rfl : .stack = builder := Option.some.inj stack
  have evaluated : Report.ofSources ⟨.bits8, .wrap, .stack⟩ ⟨.tree, false, false⟩ ["100+100"] =
      .ok ⟨"100+100=Plus(Number(100), Number(100))=-56\n", "", false⟩ := by cbv
  obtain rfl := Except.ok.inj (evaluated.symm.trans made)
  exact ran

end SumCalc.CommandLine

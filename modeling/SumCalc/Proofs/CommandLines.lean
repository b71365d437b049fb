import SumCalc.Proofs.SourceFiles

/-!
# The parts of a command line

A command line that is not refused consists of switches with the values that they take and of one run
of other words, the expressions; a double dash among these is left out once. `Supplies` says so of
the words alone, without reading them one after the other. What the reading finds is then told from
these parts: the expressions in their order, and of several values for a switch the last one.

Results:
1. `consume_induction`: induction over the words of a command line, by what they are.
2. `exists_supplies`: a command line that is read consists of such parts.
3. `Supplies.read`: what is found in them.
-/

namespace SumCalc

/-- A result that is kept while its errors are renamed. -/
theorem ok_of_mapError {ε ε' α : Type} {result : Except ε α} {rename : ε → ε'} {a : α}
    (kept : result.mapError rename = .ok a) : result = .ok a := by
  cases result with
  | error e => cases kept
  | ok b =>
      cases kept
      rfl

end SumCalc

namespace SumCalc.CommandLine

/-! ## Parts -/

/-- A switch among the words of a command line, with the value that it takes if it takes one. -/
inductive Setting : List Word → List (Switch × String) → Prop
  | alone {kind : Switch} {short : Bool} {attached : Option String} :
      kind.takesValue = false → Setting [.switch kind short attached] []
  | attached {kind : Switch} {short : Bool} {text : String} :
      kind.takesValue = true → Setting [.switch kind short (some text)] [(kind, text)]
  | separate {kind : Switch} {short : Bool} {text : String} :
      kind.takesValue = true →
        Setting [.switch kind short none, .positional text] [(kind, text)]

/-- Switches one after the other, with the values that they take. -/
inductive Settings : List Word → List (Switch × String) → Prop
  | nil : Settings [] []
  | cons {first rest : List Word} {values others : List (Switch × String)} :
      Setting first values → Settings rest others → Settings (first ++ rest) (values ++ others)

/-- A setting begins with a switch. -/
theorem Settings.head?_isPlain {words : List Word} {values : List (Switch × String)}
    (settings : Settings words values) : ∀ word ∈ words.head?, word.isPlain = false := by
  cases settings with
  | nil => nofun
  | cons setting settings =>
      intro word head
      cases setting <;> cases head <;> rfl

/-- A command line supplies expressions and values of switches. The expressions stand in one run, and
the first double dash of that run is none of them. -/
inductive Supplies (arguments : List String) : List String → List (Switch × String) → Prop
  | intro {front run back : List Word} {before behind : List (Switch × String)} :
      Word.ofArguments arguments = .ok (front ++ (run ++ back)) → Settings front before →
        (∀ word ∈ run, word.isPlain = true) → Settings back behind →
          Supplies arguments ((run.map Word.text).erase "--") (before ++ behind)

/-- The last value among those of a switch. -/
def lastValue? (kind : Switch) (values : List (Switch × String)) : Option String :=
  ((values.filter fun value => value.1 = kind).getLast?).map Prod.snd

theorem lastValue?_append (kind : Switch) (front back : List (Switch × String)) :
    lastValue? kind (front ++ back) = (lastValue? kind back).or (lastValue? kind front) := by
  rw [lastValue?, List.filter_append, List.getLast?_append]
  cases found : (back.filter fun value => value.1 = kind).getLast? <;>
    simp [lastValue?, found]

theorem lastValue?_single (kind other : Switch) (text : String) :
    lastValue? kind [(other, text)] = if other = kind then some text else none := by
  by_cases same : other = kind <;> simp [lastValue?, same]

/-! ## What parts set -/

/-- What a text gives to a switch that any text can be given to. -/
def Given.ofText (text : String) : Given String := if text = "--" then .void else .value text

/-- Whether a switch was given a double dash for its value. -/
def Given.isVoid {α : Type} : Given α → Bool
  | void => true
  | nothing | value _ => false

namespace Arguments

/-- Whether the value that a switch has taken last is a double dash. -/
def isVoid (arguments : Arguments) : Switch → Bool
  | .file => arguments.file.isVoid
  | .width => arguments.width.isVoid
  | .overflow => arguments.overflow.isVoid
  | .builder => arguments.builder.isVoid
  | .style => arguments.style.isVoid
  | .help | .records | .verbose => false

/-- Arguments differ by the values that some switches have taken. -/
structure Sets (before after : Arguments) (values : List (Switch × String)) : Prop where
  sources : after.sources = before.sources
  extras : after.extras = before.extras
  file : after.file = ((lastValue? .file values).map Given.ofText).getD before.file
  isVoid : ∀ kind,
    after.isVoid kind = ((lastValue? kind values).map (· == "--")).getD (before.isVoid kind)

namespace Sets

theorem refl (arguments : Arguments) : Sets arguments arguments [] := ⟨rfl, rfl, rfl, fun _ => rfl⟩

theorem append {first second third : Arguments} {values others : List (Switch × String)}
    (before : Sets first second values) (behind : Sets second third others) :
    Sets first third (values ++ others) where
  sources := behind.sources.trans before.sources
  extras := behind.extras.trans before.extras
  file := by
    rw [behind.file, before.file, lastValue?_append]
    cases lastValue? .file others <;> rfl
  isVoid kind := by
    rw [behind.isVoid, before.isVoid, lastValue?_append]
    cases lastValue? kind others <;> rfl

end Sets

/-- Switches without values change nothing of that. -/
theorem sets_turnOn {before after : Arguments} {kinds : List Switch}
    (turned : before.turnOn kinds = .ok after) : Sets before after [] := by
  induction before, kinds using turnOn.induct with
  | case1 before =>
      cases turned
      exact .refl after
  | case2 before rest => cases turned
  | case3 before rest ih | case4 before rest ih =>
      obtain ⟨sources, extras, file, void⟩ := ih turned
      exact ⟨sources, extras, file, void⟩
  | case5 before kind rest _ _ _ ih =>
      rw [turnOn] at turned
      · exact ih turned
      all_goals assumption

/-- A value that is no double dash is read. -/
theorem given_cases {α : Type} {text : String} {read : String → Except UsageFault (Given α)}
    {found : Given α} (gives : given text read = .ok found) :
    text = "--" ∧ found = .void ∨ text ≠ "--" ∧ read text = .ok found := by
  rw [given] at gives
  split at gives
  · next same =>
      cases gives
      exact .inl ⟨same, rfl⟩
  · next different => exact .inr ⟨different, gives⟩

theorem isVoid_of_choose {α : Type} {kind : Switch} {ofName? : String → Option α}
    {choices text : String} {found : Given α} (chosen : choose kind ofName? choices text = .ok found) :
    found.isVoid = false := by
  rw [choose] at chosen
  cases known : ofName? text with
  | none =>
      rw [known] at chosen
      cases chosen
  | some a =>
      rw [known] at chosen
      cases chosen
      rfl

theorem isVoid_of_chooseWidth {kind : Switch} {text : String} {found : Given Width}
    (chosen : chooseWidth kind text = .ok found) : found.isVoid = false := by
  rw [chooseWidth] at chosen
  split at chosen
  · cases chosen
  · split at chosen
    · cases chosen
      rfl
    · cases chosen

/-- A switch is given a double dash exactly if its text is one. -/
theorem isVoid_of_given {α : Type} {text : String} {read : String → Except UsageFault (Given α)}
    (valued : ∀ {found}, read text = .ok found → found.isVoid = false) {found : Given α}
    (gives : given text read = .ok found) : found.isVoid = (text == "--") := by
  rcases given_cases gives with ⟨rfl, rfl⟩ | ⟨different, gives⟩
  · rfl
  · rw [valued gives, beq_false_of_ne different]

/-- A switch takes its value and changes nothing else of that. -/
theorem sets_assign {before after : Arguments} {kind : Switch} {text : String}
    (takes : kind.takesValue = true) (assigned : before.assign kind text = .ok after) :
    Sets before after [(kind, text)] := by
  cases kind with
  | help | records | verbose => cases takes
  | file =>
      obtain ⟨found, gives, same⟩ := exists_of_bind_ok assigned
      cases same
      have void := isVoid_of_given (by rintro _ ⟨⟩; rfl) gives
      refine ⟨rfl, rfl, ?_, ?_⟩
      · rcases given_cases gives with ⟨rfl, rfl⟩ | ⟨different, gives⟩
        · rfl
        · cases gives
          simp [lastValue?_single, Given.ofText, different]
      · intro other
        cases other <;> first | exact void | rfl
  | width =>
      obtain ⟨found, gives, same⟩ := exists_of_bind_ok assigned
      cases same
      have void := isVoid_of_given isVoid_of_chooseWidth gives
      refine ⟨rfl, rfl, rfl, fun other => ?_⟩
      cases other <;> first | exact void | rfl
  | overflow | builder | style =>
      obtain ⟨found, gives, same⟩ := exists_of_bind_ok assigned
      cases same
      have void := isVoid_of_given isVoid_of_choose gives
      refine ⟨rfl, rfl, rfl, fun other => ?_⟩
      cases other <;> first | exact void | rfl

/-! ## Reading parts -/

/-- A setting is read as a whole, whatever stands behind it. -/
theorem consume_setting {before after : Arguments} {first rest : List Word}
    {values : List (Switch × String)} (setting : Setting first values)
    (taken : before.consume (first ++ rest) = .ok after) :
    ∃ next, Sets before next values ∧ next.consume rest = .ok after := by
  cases setting with
  | alone valueless =>
      rw [List.singleton_append, consume.eq_def] at taken
      dsimp only at taken
      rw [if_neg (by simp [valueless])] at taken
      obtain ⟨on, -, taken⟩ := exists_of_bind_ok taken
      obtain ⟨next, turned, taken⟩ := exists_of_bind_ok taken
      exact ⟨next, sets_turnOn turned, taken⟩
  | attached takes =>
      rw [List.singleton_append, consume, if_pos takes] at taken
      obtain ⟨next, assigned, taken⟩ := exists_of_bind_ok taken
      exact ⟨next, sets_assign takes (ok_of_mapError assigned), taken⟩
  | separate takes =>
      rw [List.cons_append, List.singleton_append, consume, if_pos takes] at taken
      obtain ⟨next, assigned, taken⟩ := exists_of_bind_ok taken
      exact ⟨next, sets_assign takes (ok_of_mapError assigned), taken⟩

theorem consume_settings {first rest : List Word} {values : List (Switch × String)}
    (settings : Settings first values) {before after : Arguments}
    (taken : before.consume (first ++ rest) = .ok after) :
    ∃ next, Sets before next values ∧ next.consume rest = .ok after := by
  induction settings generalizing before with
  | nil => exact ⟨before, .refl before, taken⟩
  | cons setting settings ih =>
      rw [List.append_assoc] at taken
      obtain ⟨middle, set, taken⟩ := consume_setting setting taken
      obtain ⟨next, sets, taken⟩ := ih taken
      exact ⟨next, set.append sets, taken⟩

/-- Induction over the words of a command line that is read to its end. -/
theorem consume_induction {after : Arguments} {motive : Arguments → List Word → Prop}
    (done : motive after [])
    (setting : ∀ {before next first values rest}, Setting first values →
      Sets before next values → next.consume rest = .ok after → motive next rest →
        motive before (first ++ rest))
    (unknown : ∀ {before text rest},
      consume { before with extras := before.extras ++ [text] } rest = .ok after →
        motive { before with extras := before.extras ++ [text] } rest →
          motive before (.unknown text :: rest))
    (plain : ∀ {before run rest}, run ≠ [] → (∀ word ∈ run, word.isPlain = true) →
      (before.takePlain (run.map Word.text)).consume rest = .ok after →
        motive (before.takePlain (run.map Word.text)) rest → motive before (run ++ rest))
    {before : Arguments} {words : List Word} (taken : before.consume words = .ok after) :
    motive before words := by
  induction before, words using consume.induct with
  | case1 before =>
      rw [consume] at taken
      cases taken
      exact done
  | case2 before kind short takes text rest ih =>
      obtain ⟨next, sets, taken⟩ := consume_setting (.attached takes) taken
      exact setting (.attached takes) sets taken (ih next taken)
  | case3 before kind short takes text rest ih =>
      obtain ⟨next, sets, taken⟩ := consume_setting (.separate takes) taken
      exact setting (.separate takes) sets taken (ih next taken)
  | case4 before kind short rest takes missing =>
      rw [consume, if_pos takes] at taken
      · cases taken
      · exact missing
  | case5 before kind short attached rest valueless ih =>
      have valueless : kind.takesValue = false := by simpa using valueless
      obtain ⟨next, sets, taken⟩ := consume_setting (.alone valueless) taken
      exact setting (.alone valueless) sets taken (ih next taken)
  | case6 before text rest ih =>
      rw [consume] at taken
      exact unknown taken (ih taken)
  | case7 before word rest noSwitch known run ih =>
      rw [consume] at taken
      · have isPlain : word.isPlain = true := by
          cases word with
          | positional text => rfl
          | separator => rfl
          | switch kind short attached => exact (noSwitch kind short attached rfl).elim
          | unknown text => exact (known text rfl).elim
        have inside : ∀ word ∈ run, word.isPlain = true :=
          List.forall_mem_cons.2 ⟨isPlain, List.all_eq_true.1 List.all_takeWhile⟩
        have split : word :: rest = run ++ rest.dropWhile Word.isPlain := by
          rw [List.cons_append, List.takeWhile_append_dropWhile]
        rw [split]
        exact plain (List.cons_ne_nil _ _) inside taken (ih taken)
      · exact noSwitch
      · exact known

/-- Words that nothing takes stay. -/
theorem extras_prefix {before after : Arguments} {words : List Word}
    (taken : before.consume words = .ok after) : before.extras <+: after.extras := by
  refine consume_induction (motive := fun before _ => before.extras <+: after.extras)
    List.prefix_rfl ?_ ?_ ?_ taken
  · intro before next first values rest _ sets _ ih
    rwa [sets.extras] at ih
  · intro before text rest _ ih
    exact (List.prefix_append _ _).trans ih
  · intro before run rest _ _ _ ih
    rw [takePlain] at ih
    cases sources : before.sources with
    | none => rwa [sources] at ih
    | some found =>
        rw [sources] at ih
        exact (List.prefix_append _ _).trans ih

/-- Words that fall into settings and one run of plain words, or into settings alone if sources have
been taken before. -/
def Splits (before : Arguments) (words : List Word) : Prop :=
  (before.sources ≠ none → ∃ values, Settings words values) ∧
  (before.sources = none → ∃ front run back first last, words = front ++ (run ++ back) ∧
    Settings front first ∧ (∀ word ∈ run, word.isPlain = true) ∧ Settings back last)

/-- Words fall into such parts if nothing is left over in the end. -/
theorem splits_of_consume {before after : Arguments} {words : List Word}
    (complete : after.extras = []) (taken : before.consume words = .ok after) :
    before.Splits words := by
  refine consume_induction (motive := Splits) ?_ ?_ ?_ ?_ taken
  · exact ⟨fun _ => ⟨[], .nil⟩, fun _ => ⟨[], [], [], [], [], rfl, .nil, nofun, .nil⟩⟩
  · intro before next first values rest setting sets _ ih
    rw [Splits, sets.sources] at ih
    constructor
    · intro sources
      obtain ⟨others, settings⟩ := ih.1 sources
      exact ⟨values ++ others, .cons setting settings⟩
    · intro sources
      obtain ⟨front, run, back, others, last, rfl, settings, plain, behind⟩ := ih.2 sources
      refine ⟨first ++ front, run, back, values ++ others, last, ?_, .cons setting settings, plain,
        behind⟩
      rw [List.append_assoc]
  · intro before text rest later _
    have left := extras_prefix later
    rw [complete, List.prefix_nil] at left
    simp at left
  · intro before run rest some plain later ih
    cases sources : before.sources with
    | none =>
        rw [takePlain, sources] at ih
        obtain ⟨last, settings⟩ := ih.1 (Option.some_ne_none _)
        refine ⟨fun taken => absurd sources taken, fun _ => ?_⟩
        exact ⟨[], run, rest, [], last, rfl, .nil, plain, settings⟩
    | some found =>
        -- a second run would be left over
        have left := extras_prefix later
        rw [complete, List.prefix_nil, takePlain, sources] at left
        simp [some] at left

theorem exists_of_ofCommandLine {texts : List String} {asked : Arguments}
    (read : ofCommandLine texts = .ok asked) :
    ∃ words, Word.ofArguments texts = .ok words ∧ consume {} words = .ok asked ∧
      asked.extras = [] := by
  obtain ⟨words, found, read⟩ := exists_of_bind_ok read
  obtain ⟨arguments, taken, read⟩ := exists_of_bind_ok read
  split at read
  · next complete =>
      cases read
      exact ⟨words, ok_of_mapError found, taken, List.isEmpty_iff.1 complete⟩
  · cases read

end Arguments

/-- A command line that is read consists of settings and one run of expressions. -/
theorem exists_supplies {arguments : List String} {asked : Arguments}
    (read : Arguments.ofCommandLine arguments = .ok asked) :
    ∃ expressions values, Supplies arguments expressions values := by
  obtain ⟨words, found, taken, complete⟩ := Arguments.exists_of_ofCommandLine read
  obtain ⟨front, run, back, first, last, rfl, before, plain, behind⟩ :=
    (Arguments.splits_of_consume complete taken).2 rfl
  exact ⟨_, _, .intro found before plain behind⟩

/-- What is found in the parts of a command line. -/
theorem Supplies.read {arguments expressions : List String} {values : List (Switch × String)}
    {asked : Arguments} (supplies : Supplies arguments expressions values)
    (read : Arguments.ofCommandLine arguments = .ok asked) :
    asked.sources.getD [] = expressions ∧
    asked.file = ((lastValue? .file values).map Given.ofText).getD .nothing ∧
    ∀ kind, asked.isVoid kind = (lastValue? kind values == some "--") := by
  obtain ⟨words, found, taken, -⟩ := Arguments.exists_of_ofCommandLine read
  obtain @⟨front, run, back, before, behind, same, first, plain, last⟩ := supplies
  rw [same] at found
  cases found
  obtain ⟨next, setFirst, taken⟩ := Arguments.consume_settings first taken
  -- the run is taken once the settings in front of it are
  have middle : ∃ middle : Arguments, middle.consume (back ++ []) = .ok asked ∧
      middle.sources.getD [] = (run.map Word.text).erase "--" ∧ middle.file = next.file ∧
      ∀ kind, middle.isVoid kind = next.isVoid kind := by
    rw [List.append_nil]
    cases run with
    | nil => exact ⟨next, taken, by rw [setFirst.sources]; rfl, rfl, fun _ => rfl⟩
    | cons word run =>
        rw [Arguments.consume_plain (List.cons_ne_nil _ _) plain last.head?_isPlain,
          Arguments.takePlain, setFirst.sources] at taken
        exact ⟨_, taken, rfl, rfl, fun kind => by cases kind <;> rfl⟩
  obtain ⟨middle, taken, sources, file, void⟩ := middle
  obtain ⟨final, setLast, taken⟩ := Arguments.consume_settings last taken
  rw [Arguments.consume] at taken
  cases taken
  refine ⟨?_, ?_, ?_⟩
  · rw [setLast.sources, sources]
  · rw [setLast.file, file, setFirst.file, lastValue?_append]
    cases lastValue? .file behind <;> rfl
  · intro kind
    rw [setLast.isVoid, void, setFirst.isVoid, lastValue?_append]
    cases lastValue? kind behind with
    | some text => rfl
    | none =>
        cases lastValue? kind before with
        | some text => rfl
        | none => cases kind <;> rfl

end SumCalc.CommandLine

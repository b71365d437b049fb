import SumCalc.Proofs.CommandLines

/-!
# What is evaluated

A command line and its file give sources: the expressions of the command line, then the lines of the
file that are not blank, stripped. These are evaluated in this order, and nothing else is, unless there
are none. Then the sample is evaluated, not only when neither an expression nor a file is given, but
also when there is a file and all its lines are blank.

Results:
1. `Text.records_of_cut`: the records of a file are its stripped lines that are not blank.
2. `run_evaluates`: a run evaluates what is given.
3. `run_evaluates_blank_file`: with a blank file, it evaluates what is not given.
-/

namespace SumCalc.Text

/-! ## Lines -/

/-- A text is cut into lines. A line ends at one of the line ends of Unicode or at a carriage return and
the line feed behind it; the last line need not end. -/
inductive Cut : List Char → List (List Char) → Prop
  | last {line : List Char} : IsLine line → Cut line [line]
  | cons {line ending rest : List Char} {lines : List (List Char)} :
      IsLine line → (ending = ['\r', '\n'] ∨ ∃ c, isLineEnd c = true ∧ ending = [c]) →
        Cut rest lines → Cut (line ++ (ending ++ rest)) (line :: lines)

/-- Lines that are not blank, stripped. -/
def stripLines (lines : List (List Char)) : List String :=
  (lines.filter fun line => !line.all isBlank).map fun line => String.ofList (strip line)

theorem exists_cut (cs : List Char) : ∃ lines, Cut cs lines := by
  induction cs using line_induction with
  | line cs line => exact ⟨[cs], .last line⟩
  | append front c back line ends ih =>
      obtain ⟨lines, cut⟩ := ih
      exact ⟨front :: lines, .cons line (.inr ⟨c, ends, rfl⟩) cut⟩

theorem strip_eq_nil_iff {cs : List Char} : strip cs = [] ↔ cs.all isBlank = true := by
  rw [List.all_eq_true]
  exact ⟨allBlank_of_strip, strip_blanks⟩

/-- The record of a line: none if it is blank. -/
theorem lineRecords_of_line {line : List Char} (isLine : IsLine line) :
    (lineRecords line).map String.ofList = stripLines [line] := by
  rw [lineRecords_line isLine, stripLines]
  by_cases blank : line.all isBlank = true
  · rw [if_pos (strip_eq_nil_iff.2 blank)]
    simp [blank]
  · rw [if_neg (mt strip_eq_nil_iff.1 blank)]
    simp [blank]

theorem stripLines_append (front back : List (List Char)) :
    stripLines (front ++ back) = stripLines front ++ stripLines back := by
  rw [stripLines, List.filter_append, List.map_append]
  rfl

/-- However a line ends, its end becomes a single one. -/
theorem exists_unifyNewlines_ending {ending : List Char}
    (ends : ending = ['\r', '\n'] ∨ ∃ c, isLineEnd c = true ∧ ending = [c]) (rest : List Char) :
    ∃ d more, unifyNewlines (ending ++ rest) = d :: more ∧ isLineEnd d = true ∧
      lineRecords more = lineRecords (unifyNewlines rest) := by
  have blank (more : List Char) : lineRecords ('\n' :: more) = lineRecords more :=
    lineRecords_blanks_append (List.forall_mem_singleton.2 (show isBlank '\n' = true by decide)) more
  rcases ends with rfl | ⟨c, ends, rfl⟩
  · exact ⟨'\n', unifyNewlines rest, rfl, by decide, rfl⟩
  · rw [List.singleton_append]
    by_cases isReturn : c = '\r'
    · subst isReturn
      by_cases feeds : ∃ others, rest = '\n' :: others
      · -- the line feed ends a line by itself, which is blank
        obtain ⟨others, rfl⟩ := feeds
        have feed : unifyNewlines ('\n' :: others) = '\n' :: unifyNewlines others :=
          unifyNewlines_append (show '\r' ∉ ['\n'] by decide) others
        exact ⟨'\n', unifyNewlines others, rfl, by decide, by rw [feed, blank]⟩
      · refine ⟨'\n', unifyNewlines rest, ?_, by decide, rfl⟩
        rw [unifyNewlines, if_pos rfl]
        exact fun others _ same => feeds ⟨others, same⟩
    · have other : '\r' ∉ [c] := fun member => isReturn (List.mem_singleton.1 member).symm
      exact ⟨c, unifyNewlines rest, unifyNewlines_append other rest, ends, rfl⟩

/-- The records of a file are its lines that are not blank, stripped. -/
theorem records_of_cut {content : String} {lines : List (List Char)}
    (cut : Cut content.toList lines) : records content = stripLines lines := by
  have unreturned : ∀ {line : List Char}, IsLine line → '\r' ∉ line := by
    intro line isLine member
    exact absurd (isLine '\r' member) (by decide)
  rw [records_eq]
  generalize content.toList = cs at cut
  induction cut with
  | @last line isLine =>
      have same := unifyNewlines_append (unreturned isLine) []
      rw [List.append_nil] at same
      rw [same, unifyNewlines, List.append_nil]
      exact lineRecords_of_line isLine
  | @cons line ending rest lines isLine ends cut ih =>
      obtain ⟨d, more, unified, endsOne, records⟩ := exists_unifyNewlines_ending ends rest
      rw [unifyNewlines_append (unreturned isLine), unified, lineRecords_append endsOne, records,
        List.map_append, lineRecords_of_line isLine, ih]
      exact (stripLines_append [line] lines).symm

end SumCalc.Text

namespace SumCalc.CommandLine

/-! ## Requests -/

/-- The path that a text names a file by. -/
theorem Arguments.path?_of_text {arguments : Arguments} {text : String}
    (file : arguments.file = .ofText text) :
    arguments.path? =
      if text = "--" then .error .noPath
      else if '\x00' ∈ text.toList then .error .nullInPath
      else .ok (some (Path.ofString text)) := by
  rw [path?, file, Given.ofText]
  by_cases dashes : text = "--"
  · rw [if_pos dashes, if_pos dashes]
  · rw [if_neg dashes, if_neg dashes]
    simp only [List.contains_eq_mem, decide_eq_true_eq]

namespace Request

theorem allSources_eq (request : Request) (content : Option String) :
    request.allSources content =
      orSample (request.sources ++ (content.map Text.records).getD []) := rfl

end Request

/-- The sources that a request collects, from its file too if it names one. -/
inductive Request.Collects (files : FileTree) (request : Request) : List String → Prop
  | alone : request.file = none → Collects files request (request.allSources none)
  | file {path : Path} {content : String} :
      request.file = some path → files.read path = .ok content.toUTF8 →
        Collects files request (request.allSources (some content))

/-- A run evaluates sources: it collects them and leaves the reports on each of them behind, in their
order. -/
structure Evaluates (environment : Environment) (files : FileTree) (arguments : List String)
    (request : Request) (sources : List String) : Prop where
  planned : Invocation.plan environment arguments = .ok (.pending request)
  collected : request.Collects files sources
  reported : ∃ reports,
    List.Forall₂ (fun source report =>
      Report.ofSource request.config request.layout source = .ok report) sources reports ∧
    Invocation.run environment files arguments =
      .ok (request.outcome sources.length (.joined reports))

namespace Invocation

/-- What is known when a command line has come to a request. -/
theorem exists_of_plan {environment : Environment} {arguments : List String} {request : Request}
    (planned : plan environment arguments = .ok (.pending request)) :
    ∃ defaults asked config path, environment.config = .ok defaults ∧
      Arguments.ofCommandLine arguments = .ok asked ∧ asked.config defaults = .ok config ∧
      asked.path? = .ok path ∧ request = ⟨config, asked.layout, asked.sources.getD [], path⟩ := by
  rw [plan] at planned
  cases supplied : environment.config with
  | error fault =>
      rw [supplied] at planned
      cases planned
  | ok defaults =>
      simp only [supplied] at planned
      cases read : Arguments.ofCommandLine arguments with
      | error halt =>
          rw [read] at planned
          cases halt <;> cases planned
      | ok asked =>
          rw [read] at planned
          obtain ⟨found, makes, same⟩ := exists_of_bind_ok planned
          cases same
          obtain ⟨config, configured, makes⟩ := exists_of_bind_ok makes
          obtain ⟨path, named, makes⟩ := exists_of_bind_ok makes
          cases makes
          exact ⟨defaults, asked, config, path, rfl, rfl, ok_of_mapError configured, named, rfl⟩

/-- What a request collects is evaluated. -/
theorem evaluates_of_collects {environment : Environment} {files : FileTree}
    {arguments sources : List String} {request : Request}
    (planned : plan environment arguments = .ok (.pending request))
    (collects : request.Collects files sources) :
    Evaluates environment files arguments request sources := by
  obtain ⟨reports, each, made⟩ := Report.exists_reports request.config request.layout sources
  refine ⟨planned, collects, reports, each, ?_⟩
  rw [run_of_plan planned, Request.finish]
  cases collects with
  | alone unfiled =>
      simp only [unfiled, Request.evaluate_eq_outcome made]
      rfl
  | file filed readable =>
      simp only [filed, Option.getD_some, readable, fromUTF8?_toUTF8,
        Request.evaluate_eq_outcome made]
      rfl

end Invocation

/-- What a command line supplies is found in its request. -/
theorem Supplies.of_plan {environment : Environment} {arguments expressions : List String}
    {values : List (Switch × String)} {request : Request}
    (supplies : Supplies arguments expressions values)
    (planned : Invocation.plan environment arguments = .ok (.pending request)) :
    request.sources = expressions ∧
      request.file = (lastValue? .file values).map Path.ofString := by
  obtain ⟨defaults, asked, config, place, -, read, -, named, rfl⟩ :=
    Invocation.exists_of_plan planned
  obtain ⟨sources, file, -⟩ := supplies.read read
  refine ⟨sources, ?_⟩
  show place = _
  cases last : lastValue? .file values with
  | none =>
      rw [Arguments.path?, file, last] at named
      cases named
      rfl
  | some text =>
      rw [last] at file
      rw [Arguments.path?_of_text file] at named
      split at named
      · cases named
      · split at named
        · cases named
        · cases named
          rfl

/-! ## Runs -/

/-- A command line that comes to a request consists of expressions and of switches with their values.
The run evaluates the expressions and then, if the last file among these values is read as a text,
its lines that are not blank, stripped; this goes for any way to cut the text into lines. Only if
there is none of either, it evaluates the sample. -/
theorem run_evaluates (environment : Environment) (files : FileTree) (arguments : List String)
    (request : Request)
    (planned : Invocation.plan environment arguments = .ok (.pending request)) :
    (∃ expressions values, Supplies arguments expressions values) ∧
    ∀ expressions values, Supplies arguments expressions values →
      (lastValue? .file values = none →
        Evaluates environment files arguments request (orSample expressions)) ∧
      ∀ path content : String, lastValue? .file values = some path →
        files.read (Path.ofString path) = .ok content.toUTF8 →
        (∃ lines, Text.Cut content.toList lines) ∧
        ∀ lines, Text.Cut content.toList lines →
          Evaluates environment files arguments request
            (orSample (expressions ++ Text.stripLines lines)) := by
  obtain ⟨defaults, asked, config, place, -, read, -⟩ := Invocation.exists_of_plan planned
  refine ⟨exists_supplies read, fun expressions values supplies => ?_⟩
  obtain ⟨given, filed⟩ := supplies.of_plan planned
  rw [← given]
  constructor
  · intro unfiled
    rw [unfiled] at filed
    have collects : request.Collects files (request.allSources none) := .alone filed
    rw [Request.allSources_eq, Option.map_none, Option.getD_none, List.append_nil] at collects
    exact Invocation.evaluates_of_collects planned collects
  · intro path content last readable
    refine ⟨Text.exists_cut content.toList, fun lines cut => ?_⟩
    rw [last] at filed
    rw [← Text.records_of_cut cut]
    exact Invocation.evaluates_of_collects planned (.file filed readable)

/-- Two expressions and, from the second file that is named, two lines that are not blank; and an
expression that looks like a switch. -/
theorem run_evaluates_both :
    (∃ request, Evaluates [] ⟨[(["f.txt"], .file " 3 \r\n\n4+\x0c5".toUTF8)]⟩
      ["--fi=g.txt", "1+1", "(2)", "--file", "f.txt"] request ["1+1", "(2)", "3", "4+", "5"]) ∧
    ∃ request, Evaluates [] ⟨[]⟩ ["--json", "--", "-1", "--"] request ["-1", "--"] := by
  constructor
  · have planned : Invocation.plan [] ["--fi=g.txt", "1+1", "(2)", "--file", "f.txt"] =
        .ok (.pending ⟨⟨.bits32, .fail, .recursive⟩, ⟨.sum, false, false⟩, ["1+1", "(2)"],
          some (Path.ofString "f.txt")⟩) := by cbv
    have words : Word.ofArguments ["--fi=g.txt", "1+1", "(2)", "--file", "f.txt"] =
        .ok ([.switch .file false (some "g.txt")] ++ ([.positional "1+1", .positional "(2)"] ++
          [.switch .file false none, .positional "f.txt"])) := by decide
    have supplies : Supplies ["--fi=g.txt", "1+1", "(2)", "--file", "f.txt"] ["1+1", "(2)"]
        [(.file, "g.txt"), (.file, "f.txt")] :=
      .intro words (.cons (.attached rfl) .nil) (by decide) (.cons (.separate rfl) .nil)
    have cut : Text.Cut " 3 \r\n\n4+\x0c5".toList [" 3 ".toList, [], "4+".toList, ['5']] :=
      .cons (show Text.IsLine " 3 ".toList by decide) (.inl rfl)
        (.cons (show Text.IsLine [] by decide) (.inr ⟨'\n', by decide, rfl⟩)
          (.cons (show Text.IsLine "4+".toList by decide) (.inr ⟨'\x0c', by decide, rfl⟩)
            (.last (show Text.IsLine ['5'] by decide))))
    have stripped : Text.stripLines [" 3 ".toList, [], "4+".toList, ['5']] = ["3", "4+", "5"] := by
      decide
    have evaluates := (((run_evaluates [] _ _ _ planned).2 _ _ supplies).2 _ _ rfl
      (names_single _).holds).2 _ cut
    rw [stripped] at evaluates
    exact ⟨_, evaluates⟩
  · have planned : Invocation.plan [] ["--json", "--", "-1", "--"] =
        .ok (.pending ⟨⟨.bits32, .fail, .recursive⟩, ⟨.sum, true, false⟩, ["-1", "--"], none⟩) := by
      cbv
    have words : Word.ofArguments ["--json", "--", "-1", "--"] =
        .ok ([.switch .records false none] ++
          ([.separator, .positional "-1", .positional "--"] ++ [])) := by decide
    have supplies : Supplies ["--json", "--", "-1", "--"] ["-1", "--"] [] :=
      .intro words (.cons (.alone rfl) .nil) (by decide) .nil
    exact ⟨_, ((run_evaluates [] ⟨[]⟩ _ _ planned).2 _ _ supplies).1 rfl⟩

/-- The sample is evaluated although a file is given, and the file can be read. -/
theorem run_evaluates_blank_file :
    Supplies ["--file", "f.txt"] [] [(.file, "f.txt")] ∧ Text.Cut "\n".toList [[], []] ∧
    Text.stripLines [[], []] = [] ∧
    Invocation.run [] ⟨[(["f.txt"], .file "\n".toUTF8)]⟩ ["--file", "f.txt"] =
      .ok ⟨0, "54+(2+89)=54 + (2 + 89)=145\n", ""⟩ := by
  have supplied : Environment.config [] = .ok ⟨.bits32, .fail, .recursive⟩ := by cbv
  have words : Word.ofArguments ["--file", "f.txt"] =
      .ok ([.switch .file false none, .positional "f.txt"] ++ ([] ++ [])) := by decide
  have supplies : Supplies ["--file", "f.txt"] [] [(.file, "f.txt")] :=
    .intro words (.cons (.separate rfl) .nil) (List.forall_mem_nil _) .nil
  have cut : Text.Cut "\n".toList [[], []] :=
    .cons (show Text.IsLine [] by decide) (.inr ⟨'\n', by decide, rfl⟩)
      (.last (show Text.IsLine [] by decide))
  have none : orSample (Text.records "\n") = [sample] := by decide
  have made : Report.ofSources ⟨.bits32, .fail, .recursive⟩ ⟨.sum, false, false⟩
      (orSample (Text.records "\n")) = .ok ⟨"54+(2+89)=54 + (2 + 89)=145\n", "", false⟩ := by
    rw [none]
    cbv
  exact ⟨supplies, cut, rfl, Invocation.run_of_file supplied .nil .nil (.separate (by decide))
    (names_single "\n") made⟩

end SumCalc.CommandLine

import SumCalc.Proofs.Flags
import SumCalc.Proofs.Respacing

/-!
# Sources in a file

A file with one source on each line is reported on like the same sources as arguments, stripped,
unless one of them has a form feed between its tokens: as an argument it is a source of the
language, but in a file the form feed ends its line, and the lines are not all sources.

Results:
1. `Invocation.run_of_file`: a file is run as the report on its records.
2. `records_of_unbroken`, `records_of_broken`: the records of a file with one source on each line.
3. `run_file`: sources in a file and as arguments.
-/

namespace SumCalc.CommandLine

/-! ## Files on the command line -/

/-- A text names a file with a content in UTF-8. -/
structure Names (files : FileTree) (path content : String) : Prop where
  undashed : Undashed path
  noNull : '\x00' ∉ path.toList
  holds : files.read (Path.ofString path) = .ok content.toUTF8

/-- What a run leaves behind that ends with a report. -/
def Outcome.ofReport (report : Report) : Outcome := ⟨report.code, report.stdout, report.stderr⟩

/-- The sources that are evaluated: the sample if there is none. -/
def orSample (sources : List String) : List String :=
  if sources.isEmpty then [sample] else sources

/-- The arguments once a file is named. -/
def Arguments.naming (arguments : Arguments) (path : String) : Arguments :=
  { arguments with file := .value path }

theorem Reads.naming {path : String} (undashed : Undashed path) {texts : List String}
    (named : Valued .file path texts) :
    ∃ words, Reads texts words fun arguments => arguments.naming path := by
  refine Reads.valued rfl undashed (fun before => ?_) named
  rw [Arguments.assign, Arguments.given_of_ne_separator undashed.ne_separator]
  rfl

/-- Flags and files do not get in each other's way. -/
theorem Flag.setAll_naming (flags : List Flag) (arguments : Arguments) (path : String) :
    setAll flags (arguments.naming path) = (setAll flags arguments).naming path := by
  refine setAll_change (fun arguments => arguments.naming path) (fun arguments flag => ?_) flags
    arguments
  cases flag <;> rfl

theorem fromUTF8?_toUTF8 (text : String) : String.fromUTF8? text.toUTF8 = some text := by
  have valid : text.toUTF8.IsValidUTF8 := text.isValidUTF8
  rw [String.fromUTF8?, dif_pos valid]
  rfl

theorem toUTF8_of_fromUTF8? {bytes : ByteArray} {content : String}
    (decoded : String.fromUTF8? bytes = some content) : content.toUTF8 = bytes := by
  rw [String.fromUTF8?] at decoded
  split at decoded
  · cases decoded
    rfl
  · cases decoded

/-- Flags and a file are run as the report on the records of the file. -/
theorem Invocation.run_of_file {environment : Environment} {files : FileTree} {defaults : Config}
    {front back : List Flag} {frontTexts fileTexts backTexts : List String}
    {path content : String} {report : Report} (supplied : environment.config = .ok defaults)
    (frontSpelled : SpelledAll front frontTexts) (backSpelled : SpelledAll back backTexts)
    (named : Valued .file path fileTexts) (names : Names files path content)
    (made : Report.ofSources (Flag.config (front ++ back) defaults) (Flag.layout (front ++ back))
      (orSample (Text.records content)) = .ok report) :
    run environment files (frontTexts ++ fileTexts ++ backTexts) = .ok (.ofReport report) := by
  obtain ⟨first, before⟩ := frontSpelled.reads
  obtain ⟨middle, between⟩ := Reads.naming names.undashed named
  obtain ⟨last, behind⟩ := backSpelled.reads
  have final : Flag.setAll back ((Flag.setAll front {}).naming path) =
      (Flag.settled (front ++ back)).naming path := by
    rw [Flag.setAll_naming, ← Flag.setAll_append, Flag.setAll_eq_settled]
  have untaken : ((Flag.setAll front {}).naming path).sources = none := by
    rw [Flag.setAll_eq_settled]
    rfl
  have complete : (Flag.setAll back ((Flag.setAll front {}).naming path)).extras = [] := by
    rw [final]
    rfl
  have read : Arguments.ofCommandLine (frontTexts ++ fileTexts ++ [] ++ backTexts) = _ :=
    Arguments.ofCommandLine_of_reads (before.append between) behind nofun untaken complete
  rw [List.append_nil] at read
  have place : ((Flag.settled (front ++ back)).naming path).path? =
      .ok (some (Path.ofString path)) := by
    rw [Arguments.path?, Arguments.naming]
    exact if_neg (by simpa using names.noNull)
  have config : ((Flag.settled (front ++ back)).naming path).config defaults =
      .ok (Flag.config (front ++ back) defaults) := Flag.config_settled (front ++ back) defaults
  have layout : ((Flag.settled (front ++ back)).naming path).layout = Flag.layout (front ++ back) :=
    Flag.layout_settled (front ++ back)
  have request := Arguments.request_withSources rfl config place []
  rw [layout] at request
  have ran := run_of_request supplied (read.trans (congrArg _ final)) request files
  rw [ran, Request.finish]
  simp only [Option.getD_some, names.holds, fromUTF8?_toUTF8]
  rw [Request.evaluate_of_report rfl]
  · rfl
  · exact made

/-! ## The records of a file -/

/-- A source of the language that one line can hold. -/
structure OneLine (source : String) : Prop where
  inside : InLanguage source
  unfed : '\n' ∉ source.toList
  unreturned : '\r' ∉ source.toList

section

variable {sources : List String} {content : String}

/-- The records of a file with one source on each line are those of the sources. -/
theorem records_of_holdsLines (holds : Text.HoldsLines sources content.toList)
    (each : ∀ source ∈ sources, OneLine source) :
    Text.records content =
      (sources.flatMap fun source => Text.lineRecords source.toList).map String.ofList := by
  have lines : ∀ source ∈ sources,
      source.toList ≠ [] ∧ '\n' ∉ source.toList ∧ '\r' ∉ source.toList := by
    intro source member
    obtain ⟨inside, unfed, unreturned⟩ := each source member
    refine ⟨fun none => strip_ne_nil inside ?_, unfed, unreturned⟩
    rw [none]
    rfl
  rw [Text.records_eq, Text.lineRecords_of_holdsLines holds lines]

/-- Without form feeds inside, these are the stripped sources. -/
theorem records_of_unbroken (holds : Text.HoldsLines sources content.toList)
    (each : ∀ source ∈ sources, OneLine source) (unbroken : ∀ source ∈ sources, ¬ Broken source) :
    Text.records content = sources.map stripped := by
  have single : ∀ source ∈ sources,
      Text.lineRecords source.toList = [Text.strip source.toList] := by
    intro source member
    obtain ⟨inside, unfed, unreturned⟩ := each source member
    exact lineRecords_of_unbroken inside unfed unreturned (unbroken source member)
  rw [records_of_holdsLines holds each, List.flatMap_congr single, ← List.map_eq_flatMap,
    List.map_map]
  rfl

theorem length_le_flatMap {α β : Type} {f : α → List β} {l : List α} (some : ∀ a ∈ l, f a ≠ []) :
    l.length ≤ (l.flatMap f).length := by
  induction l with
  | nil => exact Nat.zero_le _
  | cons a l ih =>
      have first := List.length_pos_of_ne_nil (some a List.mem_cons_self)
      have others := ih fun b member => some b (List.mem_cons_of_mem _ member)
      rw [List.flatMap_cons, List.length_append, List.length_cons]
      omega

/-- With a form feed inside one of the sources, there are more records than sources, and one of the
records is no source. -/
theorem records_of_broken (holds : Text.HoldsLines sources content.toList)
    (each : ∀ source ∈ sources, OneLine source) (broken : ∃ source ∈ sources, Broken source) :
    sources.length < (Text.records content).length ∧
      ∃ record ∈ Text.records content, ¬ InLanguage record := by
  obtain ⟨source, member, broken⟩ := broken
  obtain ⟨several, record, within, outside⟩ :=
    exists_outside_of_broken (each source member).inside broken
  have some : ∀ source ∈ sources, Text.lineRecords source.toList ≠ [] :=
    fun source member => lineRecords_ne_nil (each source member).inside
  rw [records_of_holdsLines holds each]
  constructor
  · obtain ⟨before, behind, rfl⟩ := List.append_of_mem member
    have first := length_le_flatMap fun other inside => some other (List.mem_append_left _ inside)
    have last := length_le_flatMap fun other inside =>
      some other (List.mem_append_right _ (List.mem_cons_of_mem _ inside))
    simp only [List.length_map, List.flatMap_append, List.flatMap_cons, List.length_append,
      List.length_cons]
    omega
  · exact ⟨_, List.mem_map_of_mem (List.mem_flatMap.2 ⟨source, member, within⟩), outside⟩

end

/-! ## Reports -/

/-- The reports on a source and on the stripped source say the same. Both give the same value and
the same text of the expression, or both give a rejection with the same code. -/
inductive ReportedAlike (config : Config) (layout : Layout) (source : String) :
    Report × Report → Prop
  | accepted {e e' : Expr} {n : Int} :
      Source.evaluate config source = .ok ⟨source, e, n⟩ →
        Source.evaluate config (stripped source) = .ok ⟨stripped source, e', n⟩ →
          e.text layout.style = e'.text layout.style →
            ReportedAlike config layout source
              (.accepted layout ⟨source, e, n⟩, .accepted layout ⟨stripped source, e', n⟩)
  | refused {rejection other : Rejection} :
      Source.evaluate config source = .error (.rejected rejection) →
        Source.evaluate config (stripped source) = .error (.rejected other) →
          rejection.code = other.code →
            ReportedAlike config layout source
              (.refused layout source rejection, .refused layout (stripped source) other)

section

variable {config : Config} {layout : Layout}

theorem exists_reportedAlike {source : String} (inside : InLanguage source) :
    ∃ reports, ReportedAlike config layout source reports := by
  cases evaluate_stripped_alike config inside with
  | @accepted e e' n here there bare =>
      have text : e.text layout.style = e'.text layout.style := by
        rw [← Term.text_bare, bare, Term.text_bare]
      exact ⟨_, .accepted here there text⟩
  | refused here there code => exact ⟨_, .refused here there code⟩

namespace ReportedAlike

variable {source : String} {reports : Report × Report}

theorem fst (alike : ReportedAlike config layout source reports)
    (quiet : layout.verbose = false) :
    Report.ofSource config layout source = .ok reports.1 := by
  cases alike with
  | accepted here there text => exact Report.ofSource_of_accepted quiet here
  | refused here there code => exact Report.ofSource_of_refused quiet here

theorem snd (alike : ReportedAlike config layout source reports)
    (quiet : layout.verbose = false) :
    Report.ofSource config layout (stripped source) = .ok reports.2 := by
  cases alike with
  | accepted here there text => exact Report.ofSource_of_accepted quiet there
  | refused here there code => exact Report.ofSource_of_refused quiet there

theorem rejected_eq (alike : ReportedAlike config layout source reports) :
    reports.1.rejected = reports.2.rejected := by
  cases alike with
  | accepted here there text => rfl
  | refused here there code =>
      rw [Report.rejected_refused, Report.rejected_refused]

end ReportedAlike

/-- Reports that say the same go with the same exit code. -/
theorem code_eq_of_alike {sources : List String} {reports : List (Report × Report)}
    (alike : List.Forall₂ (ReportedAlike config layout) sources reports) :
    (Report.joined (reports.map Prod.fst)).code = (Report.joined (reports.map Prod.snd)).code := by
  have same : (Report.joined (reports.map Prod.fst)).rejected =
      (Report.joined (reports.map Prod.snd)).rejected := by
    induction alike with
    | nil => rfl
    | cons first others ih =>
        rw [List.map_cons, List.map_cons, Report.joined_cons, Report.joined_cons, Report.append,
          Report.append, first.rejected_eq, ih]
  rw [Report.code, Report.code, same]

/-- The reports on sources and on the stripped sources. -/
theorem exists_reports_alike (config : Config) (quiet : layout.verbose = false)
    {sources : List String} (inside : ∀ source ∈ sources, InLanguage source) :
    ∃ reports : List (Report × Report),
      List.Forall₂ (ReportedAlike config layout) sources reports ∧
      Report.ofSources config layout sources = .ok (.joined (reports.map Prod.fst)) ∧
      Report.ofSources config layout (sources.map stripped) =
        .ok (.joined (reports.map Prod.snd)) := by
  have each : ∀ source ∈ sources, ∃ reports, ReportedAlike config layout source reports :=
    fun source member => exists_reportedAlike (inside source member)
  obtain ⟨reports, alike⟩ := exists_forall₂ each
  have here := alike.imp fun source reports alike => alike.fst quiet
  have there := alike.imp fun source reports alike => alike.snd quiet
  refine ⟨reports, alike, Report.ofSources_of_each ?_, Report.ofSources_of_each ?_⟩
  · exact List.forall₂_map_right_iff.2 here
  · exact List.forall₂_map_left_iff.2 (List.forall₂_map_right_iff.2 there)

end

/-! ## Runs -/

theorem inLanguage_sample : InLanguage sample := by decide +kernel

theorem stripped_sample : stripped sample = sample := by decide

/-- A source of the language begins with no dash. -/
theorem undashed_of_inLanguage {source : String} (inside : InLanguage source) :
    Undashed source := by
  intro dash
  obtain ⟨lexemes, found, -⟩ := exists_lexemes_stripped inside
  exact not_isStray_of_mem found '-' (List.mem_of_head? dash) ⟨rfl, rfl, rfl⟩

/-- Sources of the language on the lines of a file are reported on as they are when they are
arguments, but that they are stripped: in the same order, with the same texts and values or codes,
and with the same exit code. This does not go for sources with form feeds between their tokens. Each
of these is cut in the file: there are more records than sources, and one of them is refused. -/
theorem run_file (environment : Environment) (files : FileTree) (defaults : Config)
    (front back : List Flag) (frontTexts fileTexts backTexts : List String)
    (path content : String) (sources : List String)
    (supplied : environment.config = .ok defaults) (frontSpelled : SpelledAll front frontTexts)
    (backSpelled : SpelledAll back backTexts) (named : Valued .file path fileTexts)
    (names : Names files path content) (holds : Text.HoldsLines sources content.toList)
    (each : ∀ source ∈ sources, OneLine source) :
    ((∀ source ∈ sources, ¬ Broken source) →
      ∃ reports : List (Report × Report),
        List.Forall₂
          (ReportedAlike (Flag.config (front ++ back) defaults) (Flag.layout (front ++ back)))
          (orSample sources) reports ∧
        Invocation.run environment files (frontTexts ++ sources ++ backTexts) =
          .ok (.ofReport (.joined (reports.map Prod.fst))) ∧
        Invocation.run environment files (frontTexts ++ fileTexts ++ backTexts) =
          .ok (.ofReport (.joined (reports.map Prod.snd))) ∧
        (Report.joined (reports.map Prod.fst)).code =
          (Report.joined (reports.map Prod.snd)).code) ∧
    ((∃ source ∈ sources, Broken source) →
      ∃ records reports,
        List.Forall₂
          (fun record report => Report.ofSource (Flag.config (front ++ back) defaults)
            (Flag.layout (front ++ back)) record = .ok report) records reports ∧
        Invocation.run environment files (frontTexts ++ fileTexts ++ backTexts) =
          .ok (.ofReport (.joined reports)) ∧
        (Report.joined reports).code = 1 ∧ sources.length < records.length ∧
        ∃ record ∈ records, ¬ InLanguage record) := by
  have quiet : (Flag.layout (front ++ back)).verbose = false := rfl
  constructor
  · intro unbroken
    have inside : ∀ source ∈ orSample sources, InLanguage source := by
      cases sources with
      | nil => exact List.forall_mem_singleton.2 inLanguage_sample
      | cons source sources => exact fun source member => (each source member).inside
    have records : orSample (Text.records content) = (orSample sources).map stripped := by
      rw [records_of_unbroken holds each unbroken]
      cases sources with
      | nil => exact congrArg (fun text => [text]) stripped_sample.symm
      | cons source sources => rfl
    obtain ⟨reports, alike, here, there⟩ :=
      exists_reports_alike (Flag.config (front ++ back) defaults) quiet inside
    rw [← records] at there
    have undashed : ∀ source ∈ sources, Undashed source :=
      fun source member => undashed_of_inLanguage (each source member).inside
    exact ⟨reports, alike,
      Invocation.run_of_report supplied frontSpelled backSpelled undashed here files,
      Invocation.run_of_file supplied frontSpelled backSpelled named names there,
      code_eq_of_alike alike⟩
  · intro broken
    obtain ⟨more, record, member, outside⟩ := records_of_broken holds each broken
    obtain ⟨reports, made, all⟩ := Report.exists_reports (Flag.config (front ++ back) defaults)
      (Flag.layout (front ++ back)) (Text.records content)
    obtain ⟨place, fault, refused⟩ :=
      evaluate_of_not_inLanguage (Flag.config (front ++ back) defaults) outside
    have rejected := (Report.rejected_joined_iff made).2 ⟨record, member, _, refused⟩
    have some : orSample (Text.records content) = Text.records content := by
      cases found : Text.records content with
      | nil => simp [found] at member
      | cons record records => rfl
    rw [← some] at all
    refine ⟨Text.records content, reports, made, ?_, ?_, more, record, member, outside⟩
    · exact Invocation.run_of_file supplied frontSpelled backSpelled named names all
    · rw [Report.code, rejected]
      rfl

/-- A tree with one file. -/
theorem names_single (content : String) :
    Names ⟨[(["f.txt"], .file content.toUTF8)]⟩ "f.txt" content := by
  refine ⟨by decide, by decide, ?_⟩
  generalize content.toUTF8 = bytes
  cbv

/-- Two sources on lines that end in two ways, the second one with a literal beyond the width; and a
source with a form feed behind another. -/
theorem run_file_two_lines :
    (∃ reports : List (Report × Report),
      List.Forall₂ (ReportedAlike ⟨.bits8, .fail, .recursive⟩ ⟨.tree, false, false⟩)
        [" 1+2", "(3)\t+ 200"] reports ∧
      Invocation.run [] ⟨[(["f.txt"], .file " 1+2\r\n(3)\t+ 200\n".toUTF8)]⟩
          ["--int-bits=8", " 1+2", "(3)\t+ 200", "--format", "tree"] =
        .ok (.ofReport (.joined (reports.map Prod.fst))) ∧
      Invocation.run [] ⟨[(["f.txt"], .file " 1+2\r\n(3)\t+ 200\n".toUTF8)]⟩
          ["--int-bits=8", "--fi=f.txt", "--format", "tree"] =
        .ok (.ofReport (.joined (reports.map Prod.snd))) ∧
      (Report.joined (reports.map Prod.fst)).code = (Report.joined (reports.map Prod.snd)).code) ∧
    ∃ report : Report, report.code = 1 ∧
      Invocation.run [] ⟨[(["f.txt"], .file "7\n1+\x0c2".toUTF8)]⟩ ["--file", "f.txt"] =
        .ok (.ofReport report) := by
  have supplied : Environment.config [] = .ok ⟨.bits32, .fail, .recursive⟩ := by cbv
  constructor
  · have eight : (Flag.width .bits8).Admits "8" := by cbv
    have narrow : Spelled (.width .bits8) ["--int-bits=8"] :=
      .valued eight (.attached (show Abbreviates "--int-bits" .width by decide))
    have tree : Spelled (.style .tree) ["--format", "tree"] :=
      .valued rfl (.separate (by decide))
    have named : Valued .file "f.txt" ["--fi=f.txt"] :=
      .attached (show Abbreviates "--fi" .file by decide)
    have holds : Text.HoldsLines [" 1+2", "(3)\t+ 200"] " 1+2\r\n(3)\t+ 200\n".toList :=
      .cons (show ['\r', '\n'] ∈ _ by decide) (.cons (show ['\n'] ∈ _ by decide) .nil)
    have each : ∀ source ∈ [" 1+2", "(3)\t+ 200"], OneLine source := by
      rw [List.forall_mem_cons, List.forall_mem_singleton]
      exact ⟨⟨by decide +kernel, by decide, by decide⟩, ⟨by decide +kernel, by decide, by decide⟩⟩
    exact (run_file [] _ _ _ _ _ _ _ _ _ _ supplied (.cons narrow .nil) (.cons tree .nil) named
      (names_single _) holds each).1 (by decide)
  · have named : Valued .file "f.txt" ["--file", "f.txt"] := .separate (by decide)
    have holds : Text.HoldsLines ["7", "1+\x0c2"] "7\n1+\x0c2".toList :=
      .cons (show ['\n'] ∈ _ by decide) .last
    have each : ∀ source ∈ ["7", "1+\x0c2"], OneLine source := by
      rw [List.forall_mem_cons, List.forall_mem_singleton]
      exact ⟨⟨by decide +kernel, by decide, by decide⟩, ⟨by decide +kernel, by decide, by decide⟩⟩
    obtain ⟨records, reports, -, ran, code, -⟩ := (run_file [] _ _ _ _ _ _ _ _ _ _ supplied .nil
      .nil named (names_single _) holds each).2 (by decide)
    exact ⟨_, code, ran⟩

/-- A source of the language that is accepted as an argument and refused on the line of a file. -/
theorem run_file_formFeed :
    OneLine "1+\x0c2" ∧ Text.HoldsLines ["1+\x0c2"] "1+\x0c2\n".toList ∧
    Invocation.run [] ⟨[(["f.txt"], .file "1+\x0c2\n".toUTF8)]⟩ ["1+\x0c2"] =
      .ok ⟨0, "1+\x0c2=1 + 2=3\n", ""⟩ ∧
    Invocation.run [] ⟨[(["f.txt"], .file "1+\x0c2\n".toUTF8)]⟩ ["--file", "f.txt"] =
      .ok ⟨1, "2=2=2\n", "1+: error: 1:2: unexpected end of input, expected one of: " ++
        "LPAR, NUMBER [E-SYNTAX]\n  1+\n   ^\n"⟩ := by
  have supplied : Environment.config [] = .ok ⟨.bits32, .fail, .recursive⟩ := by cbv
  have inside : InLanguage "1+\x0c2" := by decide +kernel
  have holds : Text.HoldsLines ["1+\x0c2"] "1+\x0c2\n".toList :=
    .cons (show ['\n'] ∈ _ by decide) .nil
  have named : Valued .file "f.txt" ["--file", "f.txt"] := .separate (by decide)
  have records : orSample (Text.records "1+\x0c2\n") = ["1+", "2"] := by decide
  have early : Source.evaluate ⟨.bits32, .fail, .recursive⟩ "1+" =
      .error (.rejected (.located ⟨1, 2⟩ (.faultySyntax
        (.earlyEnd [.terminal .leftParen, .terminal .number])))) := by cbv
  have second : Report.ofSource ⟨.bits32, .fail, .recursive⟩ ⟨.sum, false, false⟩ "2" =
      .ok ⟨"2=2=2\n", "", false⟩ := by cbv
  have made : Report.ofSources ⟨.bits32, .fail, .recursive⟩ ⟨.sum, false, false⟩ ["1+", "2"] = _ :=
    Report.ofSources_of_each (.cons (Report.ofSource_of_refused rfl early) (.cons second .nil))
  have whole : Report.ofSources ⟨.bits32, .fail, .recursive⟩ ⟨.sum, false, false⟩ ["1+\x0c2"] =
      .ok ⟨"1+\x0c2=1 + 2=3\n", "", false⟩ := by cbv
  rw [← records] at made
  have undashed : ∀ source ∈ ["1+\x0c2"], Undashed source := by decide
  have direct := Invocation.run_of_report supplied .nil .nil undashed whole
  have fromFile := Invocation.run_of_file supplied .nil .nil named (names_single _) made
  refine ⟨⟨inside, by decide, by decide⟩, holds, direct _, fromFile.trans ?_⟩
  decide

end SumCalc.CommandLine

import SumCalc.Proofs.Inputs

/-!
# Exit codes

A run exits with code 2 if the environment or the command line is faulty or the file cannot be read,
with code 1 if sources are evaluated and one of them is rejected, and else with code 0. But some runs
exit with none of these codes, since nothing catches what goes wrong in them: a switch other than the
style is given a double dash, the name of the file holds the character NUL, or the file can be read
and is no text.

Results:
1. `Supplies.exists_request_iff`: the command lines that come to a request.
2. `Ends.exitCode?_eq`, `exists_ends`: a run ends as it is to end, and every run is to end somehow.
3. `run_ends`: the exit codes of all runs.
4. `run_ends_uncaught`: runs without an exit code.
-/

namespace SumCalc.CommandLine

/-! ## Command lines that come to a request -/

theorem Given.exists_orElse_iff {α : Type} (given : Given α) (fallback : α) :
    (∃ a, given.orElse fallback = some a) ↔ given.isVoid = false := by
  cases given <;> simp [orElse, isVoid]

namespace Arguments

variable (asked : Arguments) (defaults : Config)

theorem exists_config_iff :
    (∃ config, asked.config defaults = .ok config) ↔
      asked.width.isVoid = false ∧ asked.overflow.isVoid = false ∧
        asked.builder.isVoid = false := by
  rw [← Given.exists_orElse_iff asked.width defaults.width,
    ← Given.exists_orElse_iff asked.overflow defaults.overflow,
    ← Given.exists_orElse_iff asked.builder defaults.builder, config]
  cases asked.width.orElse defaults.width with
  | none => exact iff_of_false (by rintro ⟨_, ⟨⟩⟩) (by rintro ⟨⟨_, ⟨⟩⟩, -⟩)
  | some width =>
      cases asked.overflow.orElse defaults.overflow with
      | none => exact iff_of_false (by rintro ⟨_, ⟨⟩⟩) (by rintro ⟨-, ⟨_, ⟨⟩⟩, -⟩)
      | some overflow =>
          cases asked.builder.orElse defaults.builder with
          | none => exact iff_of_false (by rintro ⟨_, ⟨⟩⟩) (by rintro ⟨-, -, _, ⟨⟩⟩)
          | some builder => exact iff_of_true ⟨_, rfl⟩ ⟨⟨_, rfl⟩, ⟨_, rfl⟩, ⟨_, rfl⟩⟩

theorem exists_path_iff :
    (∃ path, asked.path? = .ok path) ↔
      asked.file.isVoid = false ∧ ∀ text, asked.file = .value text → '\x00' ∉ text.toList := by
  rw [path?]
  cases asked.file with
  | nothing => exact iff_of_true ⟨_, rfl⟩ ⟨rfl, by rintro _ ⟨⟩⟩
  | void => exact iff_of_false (by rintro ⟨_, ⟨⟩⟩) (by rintro ⟨⟨⟩, -⟩)
  | value text =>
      by_cases null : '\x00' ∈ text.toList
      · simp [null]
      · simp [null, Given.isVoid]

theorem exists_request_iff :
    (∃ request, asked.request defaults = .ok request) ↔
      (∀ kind, kind ≠ .style → asked.isVoid kind = false) ∧
        ∀ text, asked.file = .value text → '\x00' ∉ text.toList := by
  have parts : (∃ request, asked.request defaults = .ok request) ↔
      (∃ config, asked.config defaults = .ok config) ∧ ∃ path, asked.path? = .ok path := by
    rw [request]
    cases asked.config defaults with
    | error fault => exact iff_of_false (by rintro ⟨_, ⟨⟩⟩) (by rintro ⟨⟨_, ⟨⟩⟩, -⟩)
    | ok config =>
        cases asked.path? with
        | error fault => exact iff_of_false (by rintro ⟨_, ⟨⟩⟩) (by rintro ⟨-, _, ⟨⟩⟩)
        | ok path => exact iff_of_true ⟨_, rfl⟩ ⟨⟨_, rfl⟩, ⟨_, rfl⟩⟩
  rw [parts, exists_config_iff, exists_path_iff]
  constructor
  · rintro ⟨⟨width, overflow, builder⟩, file, textual⟩
    refine ⟨fun kind other => ?_, textual⟩
    cases kind <;> first | rfl | assumption | exact absurd rfl other
  · rintro ⟨valued, textual⟩
    exact ⟨⟨valued .width (by decide), valued .overflow (by decide), valued .builder (by decide)⟩,
      valued .file (by decide), textual⟩

end Arguments

/-- Values of switches that stand for something: none that counts is a double dash, other than for the
style, and none names a file with the character NUL. -/
structure Usable (values : List (Switch × String)) : Prop where
  undashed : ∀ kind, kind ≠ .style → lastValue? kind values ≠ some "--"
  unnulled : ∀ text, lastValue? .file values = some text → '\x00' ∉ text.toList

/-- A command line that is read comes to a request exactly if its values are usable. -/
theorem Supplies.exists_request_iff {arguments expressions : List String}
    {values : List (Switch × String)} {asked : Arguments}
    (supplies : Supplies arguments expressions values)
    (read : Arguments.ofCommandLine arguments = .ok asked) (defaults : Config) :
    (∃ request, asked.request defaults = .ok request) ↔ Usable values := by
  obtain ⟨-, file, void⟩ := supplies.read read
  have textual : (∀ text, asked.file = .value text → '\x00' ∉ text.toList) ↔
      ∀ text, lastValue? .file values = some text → '\x00' ∉ text.toList := by
    rw [file]
    cases lastValue? .file values with
    | none => simp
    | some text =>
        by_cases dashes : text = "--" <;> simp [Given.ofText, dashes]
  have dashed : (∀ kind, kind ≠ .style → asked.isVoid kind = false) ↔
      ∀ kind, kind ≠ .style → lastValue? kind values ≠ some "--" := by
    simp [void]
  rw [Arguments.exists_request_iff, textual, dashed]
  exact ⟨fun usable => ⟨usable.1, usable.2⟩, fun usable => ⟨usable.undashed, usable.unnulled⟩⟩

/-! ## How runs end -/

section

variable (environment : Environment) (files : FileTree) (arguments : List String)

/-- The code that a run exits with; none if something is left uncaught. -/
def exitCode? : Option Nat :=
  match Invocation.run environment files arguments with
  | .ok outcome => some outcome.code
  | .error _ => none

/-- In a sound environment, a command line is read, with some values for its switches. -/
structure Accepted (values : List (Switch × String)) : Prop where
  supplied : ∃ defaults, environment.config = .ok defaults
  read : ∃ asked, Arguments.ofCommandLine arguments = .ok asked
  supplies : ∃ expressions, Supplies arguments expressions values

/-- How a run ends: the exit code, or none. -/
inductive Ends : Option Nat → Prop
  | environment {fault : ConfigFault} : environment.config = .error fault → Ends (some 2)
  | help {defaults : Config} :
      environment.config = .ok defaults → Arguments.ofCommandLine arguments = .error .help →
        Ends (some 0)
  | usage {defaults : Config} {fault : UsageFault} :
      environment.config = .ok defaults →
        Arguments.ofCommandLine arguments = .error (.refused fault) → Ends (some 2)
  | unreadable {request : Request} {path : Path} {fault : FileFault} :
      Invocation.plan environment arguments = .ok (.pending request) → request.file = some path →
        files.read path = .error fault → Ends (some 2)
  | rejected {request : Request} {sources : List String} {source : String} {rejection : Rejection} :
      Evaluates environment files arguments request sources → source ∈ sources →
        Source.evaluate request.config source = .error (.rejected rejection) → Ends (some 1)
  | accepted {request : Request} {sources : List String} :
      Evaluates environment files arguments request sources →
        (∀ source ∈ sources, ∃ evaluated,
          Source.evaluate request.config source = .ok evaluated) → Ends (some 0)
  /-- A double dash is the value of a switch. -/
  | dashes {values : List (Switch × String)} {kind : Switch} :
      Accepted environment arguments values → kind ≠ .style →
        lastValue? kind values = some "--" → Ends none
  /-- The name of the file holds the character NUL. -/
  | null {values : List (Switch × String)} {text : String} :
      Accepted environment arguments values → lastValue? .file values = some text →
        '\x00' ∈ text.toList → Ends none
  /-- The file is no text in UTF-8. -/
  | undecodable {values : List (Switch × String)} {text : String} {bytes : ByteArray} :
      Accepted environment arguments values → lastValue? .file values = some text →
        files.read (Path.ofString text) = .ok bytes →
        (∀ content : String, bytes ≠ content.toUTF8) → Ends none

end

section

variable {environment : Environment} {files : FileTree} {arguments : List String}

theorem exitCode?_of_run {outcome : Outcome}
    (ran : Invocation.run environment files arguments = .ok outcome) :
    exitCode? environment files arguments = some outcome.code := by
  rw [exitCode?, ran]

theorem exitCode?_of_finished {outcome : Outcome}
    (planned : Invocation.plan environment arguments = .ok (.finished outcome)) :
    exitCode? environment files arguments = some outcome.code := by
  rw [exitCode?, Invocation.run, planned]
  rfl

namespace Accepted

variable {values : List (Switch × String)} (accepted : Accepted environment arguments values)

include accepted

theorem exists_plan (usable : Usable values) :
    ∃ request, Invocation.plan environment arguments = .ok (.pending request) := by
  obtain ⟨⟨defaults, supplied⟩, ⟨asked, read⟩, ⟨expressions, supplies⟩⟩ := accepted
  obtain ⟨request, made⟩ := (supplies.exists_request_iff read defaults).2 usable
  exact ⟨request, Invocation.plan_of_request supplied read made⟩

/-- Values that are not usable leave something uncaught. -/
theorem exitCode?_eq_none (unusable : ¬ Usable values) :
    exitCode? environment files arguments = none := by
  obtain ⟨⟨defaults, supplied⟩, ⟨asked, read⟩, ⟨expressions, supplies⟩⟩ := accepted
  cases made : asked.request defaults with
  | ok request => exact absurd ((supplies.exists_request_iff read defaults).1 ⟨_, made⟩) unusable
  | error fault =>
      rw [exitCode?, Invocation.run, Invocation.plan, supplied]
      simp only [read, made]
      rfl

end Accepted

/-- The code of an evaluation tells whether a source was rejected. -/
theorem Evaluates.exists_exitCode? {request : Request} {sources : List String}
    (evaluates : Evaluates environment files arguments request sources) :
    ∃ rejected : Bool,
      (rejected = true ↔ ∃ source ∈ sources, ∃ rejection,
        Source.evaluate request.config source = .error (.rejected rejection)) ∧
      exitCode? environment files arguments = some (if rejected then 1 else 0) := by
  obtain ⟨reports, each, ran⟩ := evaluates.reported
  exact ⟨_, Report.rejected_joined_iff each, exitCode?_of_run ran⟩

namespace Ends

/-- A run that is to end in some way does so. -/
theorem exitCode?_eq {code : Option Nat} (ends : Ends environment files arguments code) :
    exitCode? environment files arguments = code := by
  cases ends with
  | @environment fault faulty =>
      have planned : Invocation.plan environment arguments =
          .ok (.finished ⟨2, "", "intexpr: " ++ fault.message ++ "\n"⟩) := by
        rw [Invocation.plan, faulty]
      exact exitCode?_of_finished planned
  | @help defaults supplied read =>
      have planned : Invocation.plan environment arguments =
          .ok (.finished ⟨0, CommandLine.help defaults.width, ""⟩) := by
        rw [Invocation.plan, supplied]
        simp only [read]
      exact exitCode?_of_finished planned
  | @usage defaults fault supplied read =>
      have planned : Invocation.plan environment arguments = .ok (.finished (refusal fault)) := by
        rw [Invocation.plan, supplied]
        simp only [read]
      exact exitCode?_of_finished planned
  | unreadable planned filed unread =>
      rw [exitCode?, Invocation.run_of_plan planned, Request.finish, filed, Option.getD_some, unread]
      rfl
  | rejected evaluates member refused =>
      obtain ⟨found, tells, same⟩ := evaluates.exists_exitCode?
      rw [same, if_pos (tells.2 ⟨_, member, _, refused⟩)]
  | accepted evaluates each =>
      obtain ⟨found, tells, same⟩ := evaluates.exists_exitCode?
      rw [same, if_neg]
      intro refused
      obtain ⟨source, member, rejection, refused⟩ := tells.1 refused
      obtain ⟨evaluated, worth⟩ := each source member
      rw [refused] at worth
      cases worth
  | dashes accepted other last =>
      exact accepted.exitCode?_eq_none fun usable => usable.undashed _ other last
  | null accepted last null =>
      exact accepted.exitCode?_eq_none fun usable => usable.unnulled _ last null
  | @undecodable values text bytes accepted last content untextual =>
      by_cases usable : Usable values
      · obtain ⟨request, planned⟩ := accepted.exists_plan usable
        obtain ⟨expressions, supplies⟩ := accepted.supplies
        obtain ⟨-, filed⟩ := supplies.of_plan planned
        rw [last, Option.map_some] at filed
        have undecoded : String.fromUTF8? bytes = none := by
          by_contra some
          obtain ⟨content, decoded⟩ := Option.ne_none_iff_exists'.1 some
          exact untextual content (toUTF8_of_fromUTF8? decoded).symm
        rw [exitCode?, Invocation.run_of_plan planned, Request.finish, filed, Option.getD_some,
          content]
        simp only [undecoded]
      · exact accepted.exitCode?_eq_none usable

end Ends

/-- An evaluation ends with code 0 or 1. -/
theorem Evaluates.exists_ends {request : Request} {sources : List String}
    (evaluates : Evaluates environment files arguments request sources) :
    ∃ code, Ends environment files arguments code := by
  by_cases refused : ∃ source ∈ sources, ∃ rejection,
    Source.evaluate request.config source = .error (.rejected rejection)
  · obtain ⟨source, member, rejection, refused⟩ := refused
    exact ⟨_, .rejected evaluates member refused⟩
  · refine ⟨_, .accepted evaluates fun source member => ?_⟩
    rcases Source.evaluate_cases request.config source with accepted | ⟨rejection, rejected⟩
    · exact accepted
    · exact absurd ⟨source, member, rejection, rejected⟩ refused

/-- A run with a request ends in one of these ways, whatever becomes of the file. -/
theorem exists_ends_of_plan {values : List (Switch × String)} {request : Request}
    (accepted : Accepted environment arguments values)
    (planned : Invocation.plan environment arguments = .ok (.pending request)) :
    ∃ code, Ends environment files arguments code := by
  cases filed : request.file with
  | none => exact (Invocation.evaluates_of_collects planned (.alone filed)).exists_ends
  | some path =>
      cases content : files.read path with
      | error fault => exact ⟨_, .unreadable planned filed content⟩
      | ok bytes =>
          cases decoded : String.fromUTF8? bytes with
          | some text =>
              rw [← toUTF8_of_fromUTF8? decoded] at content
              exact (Invocation.evaluates_of_collects planned (.file filed content)).exists_ends
          | none =>
              obtain ⟨expressions, supplies⟩ := accepted.supplies
              obtain ⟨-, named⟩ := supplies.of_plan planned
              rw [filed] at named
              obtain ⟨text, last, rfl⟩ := Option.map_eq_some_iff.1 named.symm
              refine ⟨_, .undecodable accepted last content fun text same => ?_⟩
              rw [same, fromUTF8?_toUTF8] at decoded
              cases decoded

/-- Every run ends in one of these ways. -/
theorem exists_ends (environment : Environment) (files : FileTree) (arguments : List String) :
    ∃ code, Ends environment files arguments code := by
  cases supplied : environment.config with
  | error fault => exact ⟨_, .environment supplied⟩
  | ok defaults =>
      cases read : Arguments.ofCommandLine arguments with
      | error halt =>
          cases halt with
          | help => exact ⟨_, .help supplied read⟩
          | refused fault => exact ⟨_, .usage supplied read⟩
      | ok asked =>
          obtain ⟨expressions, values, supplies⟩ := exists_supplies read
          have accepted : Accepted environment arguments values :=
            ⟨⟨_, supplied⟩, ⟨_, read⟩, ⟨_, supplies⟩⟩
          by_cases undashed : ∀ kind, kind ≠ .style → lastValue? kind values ≠ some "--"
          · by_cases unnulled : ∀ text, lastValue? .file values = some text → '\x00' ∉ text.toList
            · obtain ⟨request, planned⟩ := accepted.exists_plan ⟨undashed, unnulled⟩
              exact exists_ends_of_plan accepted planned
            · push Not at unnulled
              obtain ⟨text, last, null⟩ := unnulled
              exact ⟨_, .null accepted last null⟩
          · push Not at undashed
            obtain ⟨kind, other, last⟩ := undashed
            exact ⟨_, .dashes accepted other last⟩

end

/-- A run exits with a code, or with none, exactly if it is to end in this way. It is to end in one
of these ways, with code 0, 1 or 2 or with none. -/
theorem run_ends (environment : Environment) (files : FileTree) (arguments : List String) :
    (∀ code, exitCode? environment files arguments = code ↔
      Ends environment files arguments code) ∧
    exitCode? environment files arguments ∈ [some 0, some 1, some 2, none] := by
  obtain ⟨code, ends⟩ := exists_ends environment files arguments
  have same := ends.exitCode?_eq
  constructor
  · intro other
    constructor
    · rintro rfl
      rwa [same]
    · exact Ends.exitCode?_eq
  · rw [same]
    cases ends <;> decide

/-- A file that is no text, a double dash for a width and for a file, and the character NUL in the name
of a file: in each case the exit code is none of 0, 1 and 2. -/
theorem run_ends_uncaught :
    exitCode? [] ⟨[(["f.bin"], .file ⟨#[0xff]⟩)]⟩ ["--file", "f.bin"] = none ∧
    exitCode? [] ⟨[]⟩ ["--int-bits=--"] = none ∧ exitCode? [] ⟨[]⟩ ["--file=--"] = none ∧
    exitCode? [] ⟨[]⟩ ["--file", "\x00"] = none := by
  refine ⟨?_, ?_, ?_, ?_⟩
  · cbv
  · cbv
  · cbv
  · cbv

end SumCalc.CommandLine

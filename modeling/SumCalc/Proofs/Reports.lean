import SumCalc.Proofs.Outcome
import SumCalc.Report

/-!
# Reports on lists of sources

Every source has a report, whether it is accepted or refused, and the report on a list of sources
is made of the reports on each of them, in their order.

Results:
1. `Source.evaluate_cases`: a source is accepted or refused, and nothing else becomes of it.
2. `Report.ofSource_quiet`: the report on one source when no steps are logged.
3. `Report.ofSources_of_each`, `Report.exists_reports`: the report on a list of sources.
4. `Report.rejected_joined_iff`: what the exit code tells.
-/

namespace SumCalc

/-- A source is accepted, or it is refused by a rejection. -/
theorem Source.evaluate_cases (config : Config) (source : String) :
    (∃ evaluated, Source.evaluate config source = .ok evaluated) ∨
      ∃ rejection, Source.evaluate config source = .error (.rejected rejection) := by
  cases result : Source.evaluate config source with
  | ok evaluated => exact .inl ⟨evaluated, rfl⟩
  | error failure =>
      rcases (outcome config source).kinds result with
        ⟨_, _, rfl⟩ | ⟨_, _, _, rfl⟩ | ⟨_, _, _, rfl⟩ <;>
      exact .inr ⟨_, rfl⟩

/-- If each of a list is related to something, the list is related to a list. -/
theorem exists_forall₂ {α β : Type} {related : α → β → Prop} {sources : List α}
    (each : ∀ source ∈ sources, ∃ result, related source result) :
    ∃ results, List.Forall₂ related sources results := by
  induction sources with
  | nil => exact ⟨[], .nil⟩
  | cons source sources ih =>
      obtain ⟨result, first⟩ := each source List.mem_cons_self
      obtain ⟨results, others⟩ :=
        ih fun source member => each source (List.mem_cons_of_mem _ member)
      exact ⟨result :: results, .cons first others⟩

namespace Report

theorem empty_append (report : Report) : empty.append report = report := by
  simp [empty, append]

theorem append_assoc (first second third : Report) :
    (first.append second).append third = first.append (second.append third) := by
  simp [append, String.append_assoc, Bool.or_assoc]

/-- Reports, one after the other. -/
def joined (reports : List Report) : Report where
  stdout := String.join (reports.map stdout)
  stderr := String.join (reports.map stderr)
  rejected := reports.any rejected

theorem joined_cons (report : Report) (reports : List Report) :
    joined (report :: reports) = report.append (joined reports) := by
  simp [joined, append]

section

variable (config : Config) (layout : Layout)

theorem exists_report (source : String) : ∃ report, ofSource config layout source = .ok report := by
  rcases Source.evaluate_cases config source with ⟨evaluated, same⟩ | ⟨rejection, same⟩ <;>
    simp [ofSource, same]

/-- The report on an accepted source when no steps are logged. -/
theorem ofSource_of_accepted {config : Config} {layout : Layout} (quiet : layout.verbose = false)
    {source : String} {evaluated : Evaluated}
    (result : Source.evaluate config source = .ok evaluated) :
    ofSource config layout source = .ok (accepted layout evaluated) := by
  have unlogged : (⟨"", "", false⟩ : Report) = empty := rfl
  simp [ofSource, result, quiet, unlogged, empty_append]

/-- The report on a refused source when no steps are logged. -/
theorem ofSource_of_refused {config : Config} {layout : Layout} (quiet : layout.verbose = false)
    {source : String} {rejection : Rejection}
    (result : Source.evaluate config source = .error (.rejected rejection)) :
    ofSource config layout source = .ok (refused layout source rejection) := by
  have unlogged : (⟨"", "", false⟩ : Report) = empty := rfl
  simp [ofSource, result, quiet, unlogged, empty_append]

/-- The report on one source when no steps are logged. -/
theorem ofSource_quiet (quiet : layout.verbose = false) (source : String) :
    (∃ evaluated, Source.evaluate config source = .ok evaluated ∧
      ofSource config layout source = .ok (accepted layout evaluated)) ∨
    ∃ rejection, Source.evaluate config source = .error (.rejected rejection) ∧
      ofSource config layout source = .ok (refused layout source rejection) := by
  rcases Source.evaluate_cases config source with ⟨evaluated, result⟩ | ⟨rejection, result⟩
  · exact .inl ⟨evaluated, result, ofSource_of_accepted quiet result⟩
  · exact .inr ⟨rejection, result, ofSource_of_refused quiet result⟩

theorem rejected_refused (layout : Layout) (source : String) (rejection : Rejection) :
    (refused layout source rejection).rejected = true := by
  rw [refused]
  cases layout.records <;> rfl

/-- The report on a source tells whether the source was refused. -/
theorem rejected_iff {config : Config} {layout : Layout} {source : String} {report : Report}
    (made : ofSource config layout source = .ok report) :
    report.rejected = true ↔
      ∃ rejection, Source.evaluate config source = .error (.rejected rejection) := by
  rw [ofSource] at made
  rcases Source.evaluate_cases config source with ⟨evaluated, result⟩ | ⟨rejection, result⟩
  · rw [result] at made
    cases made
    simp [result, append, accepted]
  · rw [result] at made
    cases made
    exact iff_of_true (rejected_refused layout source rejection) ⟨rejection, result⟩

/-- The reports on sources are added to what was reported before. -/
theorem foldlM_of_each {config : Config} {layout : Layout} {sources : List String}
    {reports : List Report}
    (each : List.Forall₂ (fun source report => ofSource config layout source = .ok report)
      sources reports) (before : Report) :
    sources.foldlM (fun report source => do
      return report.append (← ofSource config layout source)) before =
        .ok (before.append (joined reports)) := by
  induction each generalizing before with
  | nil => simp [joined, append]; rfl
  | @cons source report sources reports made each ih =>
      rw [List.foldlM_cons, made, joined_cons, ← append_assoc]
      exact ih (before.append report)

/-- The report on a list of sources is made of the reports on each of them. -/
theorem ofSources_of_each {config : Config} {layout : Layout} {sources : List String}
    {reports : List Report}
    (each : List.Forall₂ (fun source report => ofSource config layout source = .ok report)
      sources reports) : ofSources config layout sources = .ok (joined reports) := by
  have all := foldlM_of_each each empty
  rwa [empty_append] at all

/-- Every source has a report. -/
theorem exists_reports (sources : List String) :
    ∃ reports, List.Forall₂ (fun source report => ofSource config layout source = .ok report)
        sources reports ∧
      ofSources config layout sources = .ok (joined reports) := by
  obtain ⟨reports, each⟩ := exists_forall₂ fun source (_ : source ∈ sources) =>
    exists_report config layout source
  exact ⟨reports, each, ofSources_of_each each⟩

/-- The report on a list of sources tells whether one of them was refused. -/
theorem rejected_joined_iff {config : Config} {layout : Layout} {sources : List String}
    {reports : List Report}
    (each : List.Forall₂ (fun source report => ofSource config layout source = .ok report)
      sources reports) :
    (joined reports).rejected = true ↔ ∃ source ∈ sources, ∃ rejection,
      Source.evaluate config source = .error (.rejected rejection) := by
  induction each with
  | nil => simp [joined]
  | cons made each ih =>
      rw [joined_cons, append, Bool.or_eq_true, rejected_iff made, ih]
      simp

end

end Report

end SumCalc

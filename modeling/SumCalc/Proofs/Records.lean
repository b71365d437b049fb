import SumCalc.Proofs.Decoding
import SumCalc.Proofs.Reports

/-!
# Records

As records, a report is one line of JSON for each source, in the order of the sources, whatever
characters the sources hold and whichever of them are refused. Each line is read back as an object
with the source and what became of it.

Results:
1. `Json.printable_render`: what is rendered is printable ASCII, so it is one line.
2. `splitOn_lines`: lines are found again.
3. `records_faithful`: the report on sources as records.
-/

namespace SumCalc

/-! ## Rendered values on one line -/

/-- Printable characters of ASCII. -/
def Printable (cs : List Char) : Prop := ∀ c ∈ cs, 0x20 ≤ c.toNat ∧ c.toNat < 0x7f

instance (cs : List Char) : Decidable (Printable cs) := List.decidableBAll _ cs

namespace Printable

theorem nil : Printable [] := nofun

theorem append {front back : List Char} (first : Printable front) (second : Printable back) :
    Printable (front ++ back) :=
  fun c member => (List.mem_append.1 member).elim (first c) (second c)

theorem cons {c : Char} {rest : List Char} (first : 0x20 ≤ c.toNat ∧ c.toNat < 0x7f)
    (others : Printable rest) : Printable (c :: rest) :=
  List.forall_mem_cons.2 ⟨first, others⟩

theorem intercalate {between : List Char} (gaps : Printable between) {texts : List (List Char)}
    (each : ∀ text ∈ texts, Printable text) : Printable (between.intercalate texts) := by
  cases texts with
  | nil => exact nil
  | cons text texts =>
      rw [Datum.intercalate_cons]
      refine (each text List.mem_cons_self).append fun c member => ?_
      obtain ⟨other, inside, member⟩ := List.mem_flatMap.1 member
      exact gaps.append (each other (List.mem_cons_of_mem _ inside)) c member

theorem line {cs : List Char} (printable : Printable cs) : '\n' ∉ cs :=
  fun member => absurd (printable '\n' member) (by decide)

end Printable

theorem printable_hex (width n : Nat) : Printable (Text.hex width n) := by
  have digit : ∀ m < 16, 0x20 ≤ (Text.hexDigit m).toNat ∧ (Text.hexDigit m).toNat < 0x7f := by
    decide
  induction width generalizing n with
  | zero => exact .nil
  | succ width ih => exact (ih (n / 16)).append (.cons (digit _ (Nat.mod_lt _ (by decide))) .nil)

namespace Json

theorem printable_unitEscape (n : Nat) : Printable (unitEscape n) :=
  .cons (by decide) (.cons (by decide) (printable_hex 4 n))

theorem printable_escape (c : Char) : Printable (escape c) := by
  unfold escape
  split
  · next special =>
      have cases : c = '"' ∨ c = '\\' := by simpa using special
      rcases cases with rfl | rfl <;> exact .cons (by decide) (.cons (by decide) .nil)
  split
  · next visible =>
      simp only [Bool.and_eq_true, decide_eq_true_eq] at visible
      exact .cons visible .nil
  iterate 5
    split
    · exact .cons (by decide) (.cons (by decide) .nil)
  split
  · exact printable_unitEscape _
  · exact (printable_unitEscape _).append (printable_unitEscape _)

theorem printable_quoted (s : String) : Printable (quoted s).toList := by
  rw [quoted, String.toList_ofList]
  refine .append (.cons (by decide) fun c member => ?_) (.cons (by decide) .nil)
  obtain ⟨origin, -, inside⟩ := List.mem_flatMap.1 member
  exact printable_escape origin c inside

theorem printable_toString (n : Int) : Printable (toString n).toList := by
  intro c member
  rcases sign_or_digit_of_mem_toString member with rfl | digit
  · decide
  · have bounds := Text.toNat_bounds_of_isDigit digit
    omega

/-- Printable texts with commas between them, within brackets of some kind. -/
theorem printable_bracketed {opening closing : Char} (first : Printable [opening])
    (last : Printable [closing]) {texts : List (List Char)}
    (each : ∀ text ∈ texts, Printable text) :
    Printable (opening :: ([',', ' '].intercalate texts ++ [closing])) :=
  first.append ((Printable.intercalate (by decide) each).append last)

mutual

/-- What is rendered is printable ASCII. -/
theorem printable_render : (json : Json) → Printable json.render.toList
  | .null => by decide
  | .integer n => printable_toString n
  | .text s => printable_quoted s
  | .array items => by
      have whole := printable_bracketed (show Printable ['['] by decide)
        (show Printable [']'] by decide) (printable_renderItems items)
      rw [render]
      simpa using whole
  | .object fields => by
      have whole := printable_bracketed (show Printable ['\x7b'] by decide)
        (show Printable ['\x7d'] by decide) (printable_renderFields fields)
      rw [render]
      simpa using whole

theorem printable_renderItems : (items : List Json) →
    ∀ text ∈ (renderItems items).map String.toList, Printable text
  | [] => nofun
  | item :: items =>
      List.forall_mem_cons.2 ⟨printable_render item, printable_renderItems items⟩

theorem printable_renderFields : (fields : List (String × Json)) →
    ∀ text ∈ (renderFields fields).map String.toList, Printable text
  | [] => nofun
  | (name, value) :: fields => by
      have first := (printable_quoted name).append
        ((show Printable [':', ' '] by decide).append (printable_render value))
      refine List.forall_mem_cons.2 ⟨?_, printable_renderFields fields⟩
      simpa using first

end

end Json

/-! ## Lines -/

/-- Lines without a line feed, each ended by one, are found again. -/
theorem splitOn_lines {lines : List (List Char)} (each : ∀ line ∈ lines, '\n' ∉ line) :
    (lines.flatMap (· ++ ['\n'])).splitOn '\n' = lines ++ [[]] := by
  induction lines with
  | nil => rfl
  | cons line lines ih =>
      have others := ih fun other member => each other (List.mem_cons_of_mem _ member)
      rw [List.flatMap_cons, List.append_assoc, List.singleton_append,
        List.splitOn_append_cons_self_of_not_mem (each line List.mem_cons_self), others]
      rfl

/-! ## Records of sources -/

namespace Datum

/-- The value of a field of a record. -/
def field? (name : String) : Datum → Option Datum
  | .record fields => fields.lookup name
  | _ => none

/-- An integer, or null for none. -/
def ofInt? : Option Int → Datum
  | none => .null
  | some n => .integer n

/-- The object that describes a rejection. -/
def ofRejection (rejection : Rejection) : Datum :=
  .record [("code", .text rejection.code), ("column", ofInt? rejection.column),
    ("line", ofInt? rejection.line), ("message", .text rejection.message),
    ("severity", .text "error")]

end Datum

/-- `Recorded config style source record`: the record says what became of the source. -/
inductive Recorded (config : Config) (style : Style) (source : String) : Datum → Prop
  | accepted {e : Expr} {value : Int} :
      Source.parse config source = .ok e → Source.evaluate config source = .ok ⟨source, e, value⟩ →
        Recorded config style source
          (.record [("expr", .text (e.text style)), ("input", .text source),
            ("value", .integer value)])
  | refused {rejection : Rejection} :
      Source.evaluate config source = .error (.rejected rejection) →
        Recorded config style source
          (.record [("error", .ofRejection rejection), ("input", .text source)])

/-- What is accepted is accepted with its expression. -/
theorem parse_of_evaluate {config : Config} {source : String} {evaluated : Evaluated}
    (accepted : Source.evaluate config source = .ok evaluated) :
    Source.parse config source = .ok evaluated.expr ∧ evaluated.source = source := by
  obtain ⟨e, parsed, valued⟩ := exists_of_bind_ok accepted
  obtain ⟨value, -, same⟩ := exists_of_bind_ok valued
  cases same
  exact ⟨parsed, rfl⟩

theorem datum_toJson (rejection : Rejection) (source : String) :
    (Diagnostic.ofRejection rejection (some source)).toJson.datum = .ofRejection rejection := by
  obtain ⟨cause, line, column⟩ := rejection
  cases line <;> cases column <;> rfl

section

variable (config : Config) (style : Style)

/-- The report on one source as a record is one line, and it tells a refusal by its field. -/
theorem exists_record (source : String) : ∃ (json : Json) (report : Report),
    Report.ofSource config ⟨style, true, false⟩ source = .ok report ∧
      report.stdout = json.render ++ "\n" ∧ report.stderr = "" ∧
      report.rejected = (json.datum.field? "error").isSome ∧
      Recorded config style source json.datum := by
  rcases Report.ofSource_quiet config ⟨style, true, false⟩ rfl source with
    ⟨evaluated, accepted, made⟩ | ⟨rejection, refused, made⟩
  · obtain ⟨parsed, rfl⟩ := parse_of_evaluate accepted
    exact ⟨.object [("expr", .text (evaluated.expr.text style)), ("input", .text evaluated.source),
      ("value", .integer evaluated.value)], _, made, by simp [Report.accepted, Report.lines], rfl,
      rfl, .accepted parsed accepted⟩
  · have recorded : Recorded config style source _ := .refused refused
    rw [← datum_toJson rejection source] at recorded
    exact ⟨.object [("error", (Diagnostic.ofRejection rejection (some source)).toJson),
      ("input", .text source)], _, made, by simp [Report.refused, Report.lines], rfl, rfl, recorded⟩

/-- The same for a list of sources. -/
theorem exists_records {sources : List String} {reports : List Report}
    (each : List.Forall₂
      (fun source report => Report.ofSource config ⟨style, true, false⟩ source = .ok report)
      sources reports) :
    ∃ jsons : List Json,
      (Report.joined reports).stdout.toList =
        (jsons.map fun json => json.render.toList).flatMap (· ++ ['\n']) ∧
      (Report.joined reports).stderr = "" ∧
      (Report.joined reports).rejected =
        jsons.any (fun json => (json.datum.field? "error").isSome) ∧
      List.Forall₂ (Recorded config style) sources (jsons.map Json.datum) := by
  induction each with
  | nil => exact ⟨[], rfl, rfl, rfl, .nil⟩
  | @cons source report sources reports made each ih =>
      obtain ⟨jsons, stdout, stderr, rejected, recorded⟩ := ih
      obtain ⟨json, other, madeOther, line, silent, refused, record⟩ :=
        exists_record config style source
      obtain rfl : report = other := Except.ok.inj (made.symm.trans madeOther)
      refine ⟨json :: jsons, ?_, ?_, ?_, .cons record recorded⟩
      · rw [Report.joined_cons, Report.append, String.toList_append, stdout, line]
        simp
      · rw [Report.joined_cons, Report.append, stderr, silent]
        rfl
      · rw [Report.joined_cons, Report.append, refused, rejected, List.any_cons]

/-- The report on sources as records is faithful. It is written whatever the sources are, to
standard output only, in ASCII, and falls into one line for each source, in their order. A reader
finds an object on each line: with the source and, if that is accepted, with its expression and its
value, else with its rejection. The exit code tells whether a source was refused. -/
theorem records_faithful (sources : List String) :
    ∃ (report : Report) (lines : List (List Char)) (records : List Datum),
      Report.ofSources config ⟨style, true, false⟩ sources = .ok report ∧
      report.stderr = "" ∧
      (∀ c ∈ report.stdout.toList, c.toNat < 0x80) ∧
      report.stdout.toList.splitOn '\n' = lines ++ [[]] ∧ lines.length = sources.length ∧
      lines.map Datum.decode? = records.map some ∧
      List.Forall₂ (Recorded config style) sources records ∧
      report.code = if ∃ record ∈ records, (record.field? "error").isSome then 1 else 0 := by
  obtain ⟨reports, each, made⟩ := Report.exists_reports config ⟨style, true, false⟩ sources
  obtain ⟨jsons, stdout, stderr, rejected, recorded⟩ := exists_records config style each
  refine ⟨_, jsons.map fun json => json.render.toList, jsons.map Json.datum, made, stderr, ?_, ?_,
    ?_, ?_, recorded, ?_⟩
  · intro c member
    rw [stdout] at member
    obtain ⟨line, inside, member⟩ := List.mem_flatMap.1 member
    obtain ⟨json, -, rfl⟩ := List.mem_map.1 inside
    rcases List.mem_append.1 member with text | feed
    · have printable := Json.printable_render json c text
      omega
    · cases List.mem_singleton.1 feed
      decide
  · rw [stdout]
    refine splitOn_lines fun line member => ?_
    obtain ⟨json, -, rfl⟩ := List.mem_map.1 member
    exact (Json.printable_render json).line
  · simpa using recorded.length_eq.symm
  · simp [Function.comp_def, Json.decode?_render]
  · rw [Report.code, rejected]
    simp

end

end SumCalc

import SumCalc.Proofs.Records
import SumCalc.Proofs.Respacing

/-!
# Transcripts

As text, a report has an entry for each accepted source, with the source, the expression and the
value separated by equals signs, and a complaint for each refused one. Nothing is escaped, and a
source may have line breaks of its own. But no accepted source and no written expression has an
equals sign, and no value has a line break, so the entries are found again: a source goes up to the
first equals sign, an expression up to the next, and a value to the end of its line.

Results:
1. `entries?_lines`: entries are read back from their lines.
2. `clear_of_entryOf?`: no equals sign stands in the source or in the expression of an entry.
3. `Report.ofSource_text`, `Report.ofSources_text`: the report on sources as text.
4. `transcript_read_back`: every report as text, and what its standard output tells.
-/

namespace SumCalc

/-- What is written about an accepted source. -/
structure Entry where
  source : String
  rendered : String
  value : Int
deriving DecidableEq, Repr

namespace Entry

/-- The line of an entry, or its lines if the source has line breaks. -/
def line (entry : Entry) : String :=
  entry.source ++ "=" ++ entry.rendered ++ "=" ++ toString entry.value ++ "\n"

/-! ## Reading entries back -/

/-- A text up to the first of its marks, and what stands behind that. -/
def cut? (mark : Char) : List Char → Option (List Char × List Char)
  | [] => none
  | c :: cs =>
      if c = mark then some ([], cs)
      else (cut? mark cs).map fun (front, rest) => (c :: front, rest)

theorem cut?_append {mark : Char} {front : List Char} (clear : mark ∉ front) (rest : List Char) :
    cut? mark (front ++ mark :: rest) = some (front, rest) := by
  induction front with
  | nil => simp [cut?]
  | cons c front ih =>
      have other : c ≠ mark := fun same => clear (same ▸ List.mem_cons_self)
      have later := ih fun member => clear (List.mem_cons_of_mem c member)
      rw [List.cons_append, cut?, if_neg other, later]
      rfl

theorem length_of_cut? {mark : Char} {cs front rest : List Char}
    (cut : cut? mark cs = some (front, rest)) : rest.length < cs.length := by
  induction cs generalizing front with
  | nil => cases cut
  | cons c cs ih =>
      unfold cut? at cut
      split at cut
      · cases cut
        simp
      · obtain ⟨⟨front, rest⟩, later, same⟩ := Option.map_eq_some_iff.1 cut
        cases same
        have shorter := ih later
        simp only [List.length_cons]
        omega

/-- The integer that is written in a text. -/
def integer? (cs : List Char) : Option Int :=
  match Datum.number? cs with
  | some (.integer n) => some n
  | _ => none

theorem integer?_toString (n : Int) : integer? (toString n).toList = some n := by
  rw [integer?, Datum.number?_toString]

/-- The entry at the front of a text, and what stands behind its line. -/
def next? (cs : List Char) : Option (Entry × List Char) := do
  let (source, cs) ← cut? '=' cs
  let (rendered, cs) ← cut? '=' cs
  let (value, rest) ← cut? '\n' cs
  let value ← integer? value
  return (⟨String.ofList source, String.ofList rendered, value⟩, rest)

theorem length_of_next? {cs rest : List Char} {entry : Entry}
    (read : next? cs = some (entry, rest)) : rest.length < cs.length := by
  simp only [next?, Option.bind_eq_bind, Option.bind_eq_some_iff, Prod.exists] at read
  obtain ⟨source, behind, first, rendered, last, second, value, more, third, n, -, same⟩ := read
  cases same
  have := length_of_cut? first
  have := length_of_cut? second
  have := length_of_cut? third
  omega

/-- An entry whose parts can be told apart. -/
structure Clear (entry : Entry) : Prop where
  source : '=' ∉ entry.source.toList
  rendered : '=' ∉ entry.rendered.toList

theorem next?_line {entry : Entry} (clear : entry.Clear) (rest : List Char) :
    next? (entry.line.toList ++ rest) = some (entry, rest) := by
  have split : entry.line.toList ++ rest = entry.source.toList ++ '=' ::
      (entry.rendered.toList ++ '=' :: ((toString entry.value).toList ++ '\n' :: rest)) := by
    simp [line]
  have ends : '\n' ∉ (toString entry.value).toList := not_mem_toString (by decide) (by decide) _
  rw [split, next?, cut?_append clear.source]
  simp only [Option.bind_eq_bind, Option.bind_some, cut?_append clear.rendered, cut?_append ends,
    integer?_toString, String.ofList_toList]
  rfl

end Entry

/-- The entries that make up a text. -/
def entries? (cs : List Char) : Option (List Entry) :=
  if cs.isEmpty then some []
  else
    match _read : Entry.next? cs with
    | none => none
    | some (entry, rest) => (entries? rest).map (entry :: ·)
termination_by cs.length
decreasing_by exact Entry.length_of_next? _read

theorem entries?_of_next? {cs rest : List Char} {entry : Entry}
    (read : Entry.next? cs = some (entry, rest)) :
    entries? cs = (entries? rest).map (entry :: ·) := by
  have nonempty : ¬ cs.isEmpty = true := by
    cases cs with
    | nil => cases read
    | cons => simp
  rw [entries?, if_neg nonempty]
  split
  · next none =>
      rw [read] at none
      cases none
  · next same =>
      rw [read] at same
      cases same
      rfl

/-- Entries are read back from their lines. -/
theorem entries?_lines {entries : List Entry} (clear : ∀ entry ∈ entries, entry.Clear) :
    entries? (String.join (entries.map Entry.line)).toList = some entries := by
  induction entries with
  | nil => simp [entries?]
  | cons entry entries ih =>
      have first := Entry.next?_line (clear entry List.mem_cons_self)
        (String.join (entries.map Entry.line)).toList
      have others := ih fun other member => clear other (List.mem_cons_of_mem entry member)
      rw [List.map_cons, String.join_cons, String.toList_append, entries?_of_next? first, others]
      rfl

/-! ## Entries and complaints of sources -/

/-- The entry of a source, if it is accepted. -/
def entryOf? (config : Config) (style : Style) (source : String) : Option Entry :=
  match Source.evaluate config source with
  | .ok evaluated => some ⟨source, evaluated.expr.text style, evaluated.value⟩
  | .error _ => none

/-- The complaint about a source, if it is refused. -/
def complaintOf? (config : Config) (source : String) : Option String :=
  match Source.evaluate config source with
  | .error (.rejected rejection) =>
      some (source ++ ": " ++ (Diagnostic.ofRejection rejection (some source)).human ++ "\n")
  | _ => none

theorem equals_not_mem_text (style : Style) (e : Expr) : '=' ∉ (e.text style).toList := by
  have number : ∀ n : Int, '=' ∉ n.repr.toList := not_mem_toString (by decide) (by decide)
  induction e with
  | number n place => cases style <;> simp [Term.text_number, Style.number, number]
  | plus left right place ihl ihr =>
      rw [Term.text_plus]
      cases style <;> cases right.isPlus <;> simp [Style.plus, ihl, ihr]
  | foreign a => exact a.elim

theorem equals_not_mem_of_inLanguage {source : String} (inside : InLanguage source) :
    '=' ∉ source.toList := by
  intro member
  obtain ⟨lexemes, found, -⟩ := inLanguage_iff_lexemes.1 inside
  exact not_isStray_of_mem found '=' member ⟨rfl, rfl, rfl⟩

theorem entryOf?_cases (config : Config) (style : Style) (source : String) :
    (∃ evaluated, Source.evaluate config source = .ok evaluated ∧ evaluated.source = source ∧
      entryOf? config style source = some ⟨source, evaluated.expr.text style, evaluated.value⟩ ∧
      complaintOf? config source = none) ∨
    ∃ rejection, Source.evaluate config source = .error (.rejected rejection) ∧
      entryOf? config style source = none ∧
      complaintOf? config source = some
        (source ++ ": " ++ (Diagnostic.ofRejection rejection (some source)).human ++ "\n") := by
  rcases Source.evaluate_cases config source with ⟨evaluated, result⟩ | ⟨rejection, result⟩
  · have same := (parse_of_evaluate result).2
    exact .inl ⟨evaluated, result, same, by simp [entryOf?, result], by simp [complaintOf?, result]⟩
  · exact .inr ⟨rejection, result, by simp [entryOf?, result], by simp [complaintOf?, result]⟩

/-- What an entry holds can be told apart. -/
theorem clear_of_entryOf? {config : Config} {style : Style} {source : String} {entry : Entry}
    (accepted : entryOf? config style source = some entry) : entry.Clear := by
  rcases entryOf?_cases config style source with ⟨evaluated, result, -, same, -⟩ | ⟨_, _, same, -⟩
  · rw [accepted] at same
    cases same
    obtain ⟨tree, read, -⟩ := exists_tree_of_parse (parse_of_evaluate result).1
    have inside : InLanguage source := (inLanguage_iff source).2 ⟨tree, read⟩
    exact ⟨equals_not_mem_of_inLanguage inside, equals_not_mem_text style evaluated.expr⟩
  · rw [accepted] at same
    cases same

namespace Report

/-- The report on a source as text. -/
def ofText (config : Config) (style : Style) (source : String) : Report where
  stdout := String.join ((entryOf? config style source).toList.map Entry.line)
  stderr := String.join (complaintOf? config source).toList
  rejected := (complaintOf? config source).isSome

theorem ofSource_text (config : Config) (style : Style) (source : String) :
    ofSource config ⟨style, false, false⟩ source = .ok (ofText config style source) := by
  rcases entryOf?_cases config style source with ⟨evaluated, result, same, entry, none⟩ |
    ⟨rejection, result, none, complaint⟩
  · rw [ofSource_of_accepted rfl result]
    simp [accepted, ofText, entry, none, lines, Entry.line, same]
  · rw [ofSource_of_refused rfl result]
    simp [refused, ofText, none, complaint, lines]

theorem joined_text (config : Config) (style : Style) (sources : List String) :
    joined (sources.map (ofText config style)) =
      ⟨String.join ((sources.filterMap (entryOf? config style)).map Entry.line),
        String.join (sources.filterMap (complaintOf? config)),
        !(sources.filterMap (complaintOf? config)).isEmpty⟩ := by
  induction sources with
  | nil => simp [joined]
  | cons source sources ih =>
      rw [List.map_cons, joined_cons, ih, ofText, append]
      cases entry : entryOf? config style source <;>
        cases complaint : complaintOf? config source <;> simp [entry, complaint]

/-- The report on sources as text: entries on standard output, complaints on standard error. -/
theorem ofSources_text (config : Config) (style : Style) (sources : List String) :
    ofSources config ⟨style, false, false⟩ sources = .ok
      ⟨String.join ((sources.filterMap (entryOf? config style)).map Entry.line),
        String.join (sources.filterMap (complaintOf? config)),
        !(sources.filterMap (complaintOf? config)).isEmpty⟩ := by
  have each : List.Forall₂
      (fun source report => ofSource config ⟨style, false, false⟩ source = .ok report)
      sources (sources.map (ofText config style)) := by
    rw [List.forall₂_map_right_iff, List.forall₂_same]
    exact fun source _ => ofSource_text config style source
  rw [ofSources_of_each each, joined_text]

end Report

/-- A complaint is never empty, so nothing on standard error means that there is none. -/
theorem join_complaints_eq_empty_iff (config : Config) (sources : List String) :
    String.join (sources.filterMap (complaintOf? config)) = "" ↔
      sources.filterMap (complaintOf? config) = [] := by
  refine ⟨fun empty => ?_, fun none => by rw [none]; rfl⟩
  rw [List.eq_nil_iff_forall_not_mem]
  intro complaint member
  have blank : complaint.toList = [] := by
    have all := congrArg String.toList empty
    rw [String.toList_join, String.toList_empty, List.flatMap_eq_nil_iff] at all
    exact all complaint member
  obtain ⟨source, -, found⟩ := List.mem_filterMap.1 member
  rcases entryOf?_cases config .sum source with ⟨_, _, _, _, none⟩ | ⟨rejection, _, _, some⟩
  · rw [none] at found
    cases found
  · rw [some, Option.some.injEq] at found
    rw [← found] at blank
    simp at blank

/-- Standard output of a report as text is read back as the entries of its sources. -/
theorem entries?_stdout {config : Config} {style : Style} {sources : List String} {report : Report}
    (made : Report.ofSources config ⟨style, false, false⟩ sources = .ok report) :
    entries? report.stdout.toList = some (sources.filterMap (entryOf? config style)) := by
  rw [Report.ofSources_text] at made
  cases made
  refine entries?_lines fun entry member => ?_
  obtain ⟨source, -, accepted⟩ := List.mem_filterMap.1 member
  exact clear_of_entryOf? accepted

/-- Every list of sources has a report as text. Each of the sources has an entry or a complaint,
whatever becomes of the others; the entries make up standard output and the complaints standard
error, in the order of the sources, and the exit code is 0 exactly if nothing is on standard error.
The entries are read back from standard output, so reports that agree on it agree on them. -/
theorem transcript_read_back (config : Config) (style : Style) :
    (∀ source, (entryOf? config style source).isSome = (complaintOf? config source).isNone) ∧
    (∀ sources, ∃ report, Report.ofSources config ⟨style, false, false⟩ sources = .ok report ∧
      report.stdout = String.join ((sources.filterMap (entryOf? config style)).map Entry.line) ∧
      report.stderr = String.join (sources.filterMap (complaintOf? config)) ∧
      (report.code = 0 ↔ report.stderr = "") ∧
      entries? report.stdout.toList = some (sources.filterMap (entryOf? config style))) ∧
    ∀ sources others report other,
      Report.ofSources config ⟨style, false, false⟩ sources = .ok report →
        Report.ofSources config ⟨style, false, false⟩ others = .ok other →
          report.stdout = other.stdout →
            sources.filterMap (entryOf? config style) =
              others.filterMap (entryOf? config style) := by
  refine ⟨fun source => ?_, fun sources => ?_, ?_⟩
  · rcases entryOf?_cases config style source with ⟨_, _, _, some, none⟩ | ⟨_, _, none, some⟩ <;>
      rw [some, none] <;> rfl
  · have made := Report.ofSources_text config style sources
    refine ⟨_, made, rfl, rfl, ?_, entries?_stdout made⟩
    rw [join_complaints_eq_empty_iff, Report.code]
    cases sources.filterMap (complaintOf? config) <;> simp
  · intro sources others report other made madeToo same
    have read := entries?_stdout made
    rw [same, entries?_stdout madeToo] at read
    exact (Option.some.inj read).symm

/-- A source over two lines, once in front of a refused source and once behind another. -/
theorem transcript_read_back_two_lines :
    ∃ report other,
      Report.ofSources ⟨.bits8, .fail, .recursive⟩ ⟨.sum, false, false⟩ ["1\n+2", "3@"] =
        .ok report ∧
      Report.ofSources ⟨.bits8, .fail, .recursive⟩ ⟨.sum, false, false⟩ ["4+", "1\n+2"] =
        .ok other ∧
      report.stdout = "1\n+2=1 + 2=3\n" ∧ other.stdout = "1\n+2=1 + 2=3\n" ∧
      ["1\n+2", "3@"].filterMap (entryOf? ⟨.bits8, .fail, .recursive⟩ .sum) =
        ["4+", "1\n+2"].filterMap (entryOf? ⟨.bits8, .fail, .recursive⟩ .sum) := by
  have entries : ["1\n+2", "3@"].filterMap (entryOf? ⟨.bits8, .fail, .recursive⟩ .sum) =
      [⟨"1\n+2", "1 + 2", 3⟩] := by cbv
  have others : ["4+", "1\n+2"].filterMap (entryOf? ⟨.bits8, .fail, .recursive⟩ .sum) =
      [⟨"1\n+2", "1 + 2", 3⟩] := by cbv
  obtain ⟨-, reports, determines⟩ := transcript_read_back ⟨.bits8, .fail, .recursive⟩ .sum
  obtain ⟨report, made, stdout, -⟩ := reports ["1\n+2", "3@"]
  obtain ⟨other, madeToo, stdoutToo, -⟩ := reports ["4+", "1\n+2"]
  rw [entries] at stdout
  rw [others] at stdoutToo
  have same := determines _ _ _ _ made madeToo (stdout.trans stdoutToo.symm)
  exact ⟨report, other, made, madeToo, stdout, stdoutToo, same⟩

end SumCalc

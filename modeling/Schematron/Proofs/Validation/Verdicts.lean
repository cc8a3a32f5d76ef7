import Mathlib.Data.List.Basic
import Schematron.Proofs.Runs
import Schematron.Proofs.Validation.Findings
import Schematron.Proofs.Validation.History
import Schematron.Regex.Builtin

/-!
# Verdicts

Whether a document is valid, and what is said about one that is not. The policy has no part in what
is found (`Report.ofRecord_errors`, `Report.ofRecord_warnings`), but says which findings count. The
message of a refusal is told apart into its findings again, one on each line (`Decided`): a finding
has no line feed in its message, since it is read as normalized text (`Finding.newline_not_mem`).
Without that a finding could pass for two.
-/

namespace Schematron.Validation

open Schema (Program)
open Xml (Document)

/-! ## What line feeds cut a text into -/

/-- The pieces of a text between its line feeds. -/
def pieces (s : String) : List String := (s.toList.splitOn '\n').map String.ofList

/-- Texts on a line each are the pieces of what is written, with nothing after the last line. -/
theorem pieces_lines {lines : List String} (h : ∀ line ∈ lines, '\n' ∉ line.toList) :
    pieces (String.join (lines.map (· ++ "\n"))) = lines ++ [""] := by
  rw [pieces, Text.splitOn_lines h]
  simp

/-! ## Findings -/

theorem Finding.newline_not_mem {doc : Document} {finding : Finding}
    (h : finding ∈ Finding.readAll doc) : '\n' ∉ finding.message.toList := by
  obtain ⟨node, -, hread⟩ := List.mem_filterMap.mp h
  obtain ⟨kind, -, rfl⟩ := Option.map_eq_some_iff.mp hread
  cases htexts : Finding.childTexts doc node "text" with
  | nil => simp
  | cons text rest =>
      have hmem : text ∈ Finding.childTexts doc node "text" := by simp [htexts]
      obtain ⟨child, -, rfl⟩ := List.mem_map.mp hmem
      exact Text.not_mem_normalize (by decide) (by decide) _

namespace Report

variable {program : Program} {record : Record}

theorem ofRecord_errors (suppress other : Bool) :
    (ofRecord suppress program record).errors = (ofRecord other program record).errors := rfl

theorem ofRecord_warnings (suppress other : Bool) :
    (ofRecord suppress program record).warnings = (ofRecord other program record).warnings := rfl

theorem newline_not_mem_messages (suppress : Bool) (program : Program) (record : Record) :
    ∀ line ∈ (ofRecord suppress program record).errorMessages ++
      (ofRecord suppress program record).countedWarnings, '\n' ∉ line.toList := by
  intro line hline
  rcases List.mem_append.mp hline with herror | hwarning
  · obtain ⟨finding, hfinding, rfl⟩ := List.mem_map.mp herror
    exact Finding.newline_not_mem (List.mem_filter.mp hfinding).1
  · rw [countedWarnings] at hwarning
    split at hwarning
    · cases hwarning
    · obtain ⟨finding, hfinding, rfl⟩ := List.mem_map.mp hwarning
      exact Finding.newline_not_mem (List.mem_filter.mp hfinding).1

/-- A report is valid if there are no findings that count. -/
theorem isValid_iff (report : Report) :
    report.isValid = true ↔
      report.errors = [] ∧ (report.warnings = [] ∨ report.suppressWarnings = true) := by
  simp [isValid, isValidWith]

/-- Findings count just if they have a line. -/
theorem isValid_iff_messages (report : Report) :
    report.isValid = true ↔ report.errorMessages ++ report.countedWarnings = [] := by
  rw [isValid_iff, errorMessages, countedWarnings]
  cases report.suppressWarnings <;> simp

end Report

/-! ## Verdicts -/

/-- What becomes of a document that has a report. -/
structure Decided (header : String) (report : Report) (result : Except ValidationFault Report) :
    Prop where
  /-- It is valid if there are no errors and no warnings that count. -/
  valid : result = .ok report ↔
    report.errors = [] ∧ (report.warnings = [] ∨ report.suppressWarnings = true)
  /-- Otherwise it is refused with the messages of the findings that count, of which there are some,
  and each has a line of its own below the header. -/
  refused : ¬(report.errors = [] ∧ (report.warnings = [] ∨ report.suppressWarnings = true)) →
    ∃ refusal body, result = .error (.refused refusal) ∧
      refusal.message = header ++ body ∧
      pieces body = refusal.errors ++ refusal.warnings ++ [""] ∧
      refusal.errors = report.errors.map (·.message) ∧
      refusal.warnings =
        (if report.suppressWarnings then [] else report.warnings.map (·.message)) ∧
      refusal.errors ++ refusal.warnings ≠ []

/-- The verdict on the report about a run, for a document alone and for one of a batch. -/
theorem Report.verdict_decided (suppress : Bool) (program : Program) (record : Record)
    (entry : Option Nat) :
    Decided (headerOf entry) (ofRecord suppress program record)
      ((ofRecord suppress program record).verdict entry) := by
  have hlines := newline_not_mem_messages suppress program record
  generalize ofRecord suppress program record = report at hlines
  rw [verdict]
  cases hvalid : report.isValid with
  | true =>
      exact ⟨by simp [← isValid_iff, hvalid], fun h => absurd (report.isValid_iff.mp hvalid) h⟩
  | false =>
      refine ⟨by simp [← isValid_iff, hvalid],
        fun _ => ⟨_, _, rfl, rfl, pieces_lines hlines, rfl, rfl, fun hnone => ?_⟩⟩
      rw [report.isValid_iff_messages.mpr hnone] at hvalid
      cases hvalid

namespace Validator

/-- What a validator makes of a document with these findings, under one policy and the other. -/
structure Decides [Regex.Engine] (v : Validator) (document : ByteArray)
    (errors warnings : List Finding) : Prop where
  /-- The policy decides which findings count, and not what is found. -/
  under : ∀ suppress, ∃ report,
    ((check document).run (v.setSuppressWarnings suppress)).1 = .ok report ∧
    report.errors = errors ∧ report.warnings = warnings ∧ report.suppressWarnings = suppress ∧
    Decided failureHeader report ((validate document).run (v.setSuppressWarnings suppress)).1
  /-- To suppress warnings makes no valid document invalid. -/
  suppressed : ((validate document).run (v.setSuppressWarnings false)).1.isOk = true →
    ((validate document).run (v.setSuppressWarnings true)).1.isOk = true

/-- What is found in a document that can be run on decides about it. -/
theorem exists_decides [Regex.Engine] (v : Validator) (document : ByteArray) (record : Record)
    (h : runBytes v.program document = .ok record) :
    ∃ errors warnings, v.Decides document errors warnings := by
  have hreport (suppress : Bool) : (v.setSuppressWarnings suppress).reportOn document =
      .ok (.ofRecord suppress v.program record) := by
    rw [reportOn]
    show (runBytes v.program document >>= _) = _
    rw [h]
    rfl
  have hresult (suppress : Bool) : ((validate document).run (v.setSuppressWarnings suppress)).1 =
      (Report.ofRecord suppress v.program record).verdict none := by
    rw [validate, run_validateAs, outcome, hreport]
  have hisOk (suppress : Bool) :
      ((validate document).run (v.setSuppressWarnings suppress)).1.isOk =
        (Report.ofRecord suppress v.program record).isValid := by
    rw [validate, run_validateAs, isOk_outcome, ← toOption_reportOn, hreport]
    rfl
  refine ⟨(Report.ofRecord false v.program record).errors,
    (Report.ofRecord false v.program record).warnings, fun suppress =>
      ⟨.ofRecord suppress v.program record, ?_, Report.ofRecord_errors suppress false,
        Report.ofRecord_warnings suppress false, rfl, ?_⟩, fun hvalid => ?_⟩
  · rw [run_check, hreport]
  · rw [hresult]
    exact Report.verdict_decided suppress v.program record none
  · rw [hisOk, Report.isValid_iff] at hvalid ⊢
    exact ⟨hvalid.1, .inr rfl⟩

theorem exists_decides_alarm :
    ∃ record, runBytes (ofProgram alarm).program "<a/>".toUTF8 = .ok record ∧
      ∃ errors warnings, (ofProgram alarm).Decides "<a/>".toUTF8 errors warnings :=
  ⟨_, rfl, exists_decides (ofProgram alarm) _ _ rfl⟩

end Validator

end Schematron.Validation

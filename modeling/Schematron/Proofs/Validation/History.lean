import Mathlib.Data.List.Basic
import Mathlib.Data.List.Induction
import Mathlib.Logic.Function.Basic
import Schematron.Validation.Ingest

/-!
# Validators over time

Validators share a program, and calls come to them in any order. What a validator holds after them
can be told from the calls on it alone: its policy and its priority are the ones that were set
last, and its report is about the last document that could be run on, under the policy that was in
force when the call with that document began (`afterCalls_heldAfter`).

All calls get to documents by way of `check`, so each of them does to a validator what the list of
the documents that it gets to does (`remember`): all documents of a batch, and those of a request up
to the first entry that does not pass. One law says this of every call (`apply_eq`), and what a
whole history does follows by induction on it.
-/

namespace Schematron.Validation

open Schema (Program)

/-! ## Calls -/

variable [Regex.Engine]

/-- A call on a validator. -/
inductive Call where
  | check (document : ByteArray)
  | validate (document : ByteArray)
  | validateBatch (documents : List ByteArray)
  | create (entries : List Entry)
  | update (updates : List (String × Entry))
  | delete (ids : List String)
  | validateEntry (entry : Entry)
  | setSuppressWarnings (suppress : Bool)
  | setPriority (priority : Int)
  | applySettings (settings : Settings)

/-- What a call leaves a validator as. -/
def Call.apply (v : Validator) : Call → Validator
  | check document => ((Validator.check document).run v).2
  | validate document => ((Validator.validate document).run v).2
  | validateBatch documents => ((Validator.validateBatch documents).run v).2
  | create entries => ((Validator.create entries).run v).2
  | update updates => ((Validator.update updates).run v).2
  | delete ids => ((Validator.delete ids).run v).2
  | validateEntry entry => ((Validator.validateEntry entry).run v).2
  | setSuppressWarnings suppress => v.setSuppressWarnings suppress
  | setPriority priority => v.setPriority priority
  | applySettings settings => v.applySettings settings

/-- The validators of a program, of which there is one for each name, after calls on them. -/
def afterCalls {ι : Type*} [DecidableEq ι] (program : Program) (calls : List (ι × Call)) :
    ι → Validator :=
  calls.foldl (fun validators (name, call) =>
    Function.update validators name (call.apply (validators name))) fun _ => .ofProgram program

/-! ## What calls ask for -/

/-- The report on a document, if the document can be run on. -/
def report? (program : Program) (suppress : Bool) (document : ByteArray) : Option Report :=
  (runBytes program document).toOption.map (Report.ofRecord suppress program)

namespace Entry

/-- The document that the metadata of an entry is. -/
def document? (entry : Entry) : Option ByteArray := entry.metadata.map (·.toUTF8)

/-- An entry passes if it has metadata with a valid report. -/
def passes (program : Program) (suppress : Bool) (entry : Entry) : Bool :=
  (entry.document?.bind (report? program suppress)).any (·.isValid)

/-- The entries that a request gets to: those that pass, and the first one that does not. -/
def reached (program : Program) (suppress : Bool) (entries : List Entry) : List Entry :=
  entries.take ((entries.takeWhile (·.passes program suppress)).length + 1)

end Entry

namespace Call

/-- The documents that a call gets to under a policy, in order. -/
def documents (program : Program) (suppress : Bool) : Call → List ByteArray
  | check document | validate document => [document]
  | validateBatch documents => documents
  | create entries => (Entry.reached program suppress entries).filterMap (·.document?)
  | update updates =>
    (Entry.reached program suppress (updates.map (·.2))).filterMap (·.document?)
  | validateEntry entry => entry.document?.toList
  | delete _ | setSuppressWarnings _ | setPriority _ | applySettings _ => []

/-- The policy that a call sets. -/
def policy? : Call → Option Bool
  | setSuppressWarnings suppress => some suppress
  | applySettings settings => settings.suppressWarnings
  | _ => none

/-- The priority that a call asks for. -/
def priority? : Call → Option Int
  | setPriority priority => some priority
  | applySettings settings => settings.priority
  | _ => none

end Call

/-! ## What a history comes to -/

/-- The calls on one of the validators. -/
def callsOn {ι : Type*} [DecidableEq ι] (name : ι) (calls : List (ι × Call)) : List Call :=
  (calls.filter (·.1 = name)).map (·.2)

/-- The policy after calls, from another one on: the one that was set last. -/
def policyAfter (suppress : Bool) (calls : List Call) : Bool :=
  (calls.filterMap (·.policy?)).getLast?.getD suppress

/-- The priority after calls, from another one on: the one that was asked for last, as far as there
is such a priority. -/
def priorityAfter (priority : Priority) (calls : List Call) : Priority :=
  ((calls.filterMap (·.priority?)).getLast?.map Priority.clamp).getD priority

/-- The documents that calls get to from a policy on, each with the policy that is in force when
its call begins. -/
def documentsAfter (program : Program) (suppress : Bool) : List Call → List (Bool × ByteArray)
  | [] => []
  | call :: rest =>
    (call.documents program suppress).map (suppress, ·) ++
      documentsAfter program (call.policy?.getD suppress) rest

/-- The reports on those of the documents that can be run on. -/
def reportsAfter (program : Program) (suppress : Bool) (calls : List Call) : List Report :=
  (documentsAfter program suppress calls).filterMap fun (suppress, document) =>
    report? program suppress document

/-! ## One call -/

namespace Validator

/-- What a validator is left as by documents that it gets to. -/
def remember (v : Validator) (documents : List ByteArray) : Validator :=
  { v with
    lastReport :=
      (documents.filterMap (report? v.program v.suppressWarnings)).getLast?.or v.lastReport }

theorem remember_append (v : Validator) (first second : List ByteArray) :
    v.remember (first ++ second) = (v.remember first).remember second := by
  simp [remember, List.getLast?_append, Option.or_assoc]

/-- The report of a validator on a document that can be run on. -/
theorem toOption_reportOn (v : Validator) (document : ByteArray) :
    (v.reportOn document).toOption = report? v.program v.suppressWarnings document := by
  rw [reportOn, report?]
  cases runBytes v.program document <;> rfl

theorem run_check (v : Validator) (document : ByteArray) :
    (check document).run v = (v.reportOn document, v.remember [document]) := by
  rw [remember, List.filterMap_cons, List.filterMap_nil, ← toOption_reportOn]
  cases h : v.reportOn document <;> simp [StateT.run, check, h, Except.toOption]

/-- What validating a document returns. -/
def outcome (v : Validator) (entry : Option Nat) (document : ByteArray) :
    Except ValidationFault Report :=
  match v.reportOn document with
  | .ok report => report.verdict entry
  | .error fault => .error (.run fault)

theorem run_validateAs (v : Validator) (entry : Option Nat) (document : ByteArray) :
    (validateAs entry document).run v = (v.outcome entry document, v.remember [document]) := by
  rw [validateAs, StateT.run_bind, run_check, outcome]
  cases v.reportOn document <;> rfl

/-- A document is validated just if its report is valid. -/
theorem isOk_outcome (v : Validator) (entry : Option Nat) (document : ByteArray) :
    (v.outcome entry document).isOk =
      (report? v.program v.suppressWarnings document).any (·.isValid) := by
  rw [outcome, ← toOption_reportOn]
  cases v.reportOn document with
  | error fault => rfl
  | ok report => cases hvalid : report.isValid <;> simp [Report.verdict, hvalid, Except.isOk,
      Except.toBool, Except.toOption]

/-- Numbered documents are all gotten to, whatever becomes of each of them. -/
theorem run_mapM_validateAs (v : Validator) (numbered : List (ByteArray × Nat)) :
    ((numbered.mapM fun (document, i) => do
        pure (BatchEntry.mk (i + 1) (← validateAs (some (i + 1)) document)) :
          StateM Validator (List BatchEntry)).run v).2 =
      v.remember (numbered.map (·.1)) := by
  induction numbered generalizing v with
  | nil => rfl
  | cons entry rest ih =>
      rw [List.mapM_cons, bind_assoc, StateT.run_bind, run_validateAs]
      exact (ih _).trans (remember_append v [entry.1] (rest.map (·.1))).symm

theorem run_validateBatch (v : Validator) (documents : List ByteArray) :
    ((validateBatch documents).run v).2 = v.remember documents := by
  have h := v.run_mapM_validateAs documents.zipIdx
  rw [List.zipIdx_map_fst] at h
  exact h

/-- The metadata of an entry is its only document, and is accepted just if the entry passes. -/
theorem run_validateEntryAs (v : Validator) (number : Option Nat) (entry : Entry) :
    ((validateEntryAs number entry).run v).2 = v.remember entry.document?.toList ∧
      ((validateEntryAs number entry).run v).1.isOk =
        entry.passes v.program v.suppressWarnings := by
  rw [validateEntryAs, Entry.passes, Entry.document?]
  cases entry.metadata with
  | none => exact ⟨rfl, rfl⟩
  | some text =>
      rw [run_validateAs]
      exact ⟨rfl, v.isOk_outcome number text.toUTF8⟩

end Validator

theorem Entry.reached_cons (program : Program) (suppress : Bool) (entry : Entry)
    (rest : List Entry) :
    Entry.reached program suppress (entry :: rest) =
      entry ::
        if entry.passes program suppress then Entry.reached program suppress rest else [] := by
  cases hpasses : entry.passes program suppress <;> simp [Entry.reached, hpasses]

/-- A request gets to the metadata of its entries up to the first entry that does not pass. -/
theorem Validator.run_validateEntries (number : Nat) (entries : List Entry) (v : Validator) :
    ((validateEntries number entries).run v).2 =
      v.remember ((Entry.reached v.program v.suppressWarnings entries).filterMap
        (·.document?)) := by
  induction entries generalizing number v with
  | nil => rfl
  | cons entry rest ih =>
      obtain ⟨hstate, hpasses⟩ := v.run_validateEntryAs (some number) entry
      rw [validateEntries, StateT.run_bind, Entry.reached_cons, List.filterMap_eq_flatMap_toList,
        List.flatMap_cons, remember_append, ← hpasses, ← hstate]
      generalize (validateEntryAs (some number) entry).run v = ran at hstate ⊢
      obtain ⟨outcome, after⟩ := ran
      cases outcome with
      | error cause => rfl
      | ok report =>
          have hafter : after = v.remember entry.document?.toList := hstate
          subst hafter
          rw [← List.filterMap_eq_flatMap_toList]
          exact ih (number + 1) _

/-! ## One call after another -/

/-- A call sets what it asks for, and otherwise does what the documents that it gets to do under the
policy that is in force when it begins. -/
theorem Call.apply_eq (call : Call) (v : Validator) :
    call.apply v =
      { v.remember (call.documents v.program v.suppressWarnings) with
        suppressWarnings := call.policy?.getD v.suppressWarnings
        priority := (call.priority?.map Priority.clamp).getD v.priority } := by
  cases call with
  | check document => rw [apply, Validator.run_check]; rfl
  | validate document => rw [apply, Validator.validate, Validator.run_validateAs]; rfl
  | validateBatch documents => rw [apply, Validator.run_validateBatch]; rfl
  | create entries => exact Validator.run_validateEntries 1 entries v
  | update updates => exact Validator.run_validateEntries 1 (updates.map (·.2)) v
  | delete ids => rfl
  | validateEntry entry => exact (v.run_validateEntryAs none entry).1
  | setSuppressWarnings suppress => rfl
  | setPriority priority => rfl
  | applySettings settings => rfl

/-- A call whose documents cannot be run on leaves the report as it was. -/
theorem Call.lastReport_apply {call : Call} {v : Validator}
    (hfail : ∀ document ∈ call.documents v.program v.suppressWarnings,
      ∃ fault, runBytes v.program document = .error fault) :
    (call.apply v).lastReport = v.lastReport := by
  have hnone : (call.documents v.program v.suppressWarnings).filterMap
      (report? v.program v.suppressWarnings) = [] := by
    refine List.filterMap_eq_nil_iff.mpr fun document hmem => ?_
    obtain ⟨fault, hfault⟩ := hfail document hmem
    rw [report?, hfault]
    rfl
  rw [apply_eq, Validator.remember, hnone]
  rfl

omit [Regex.Engine] in
theorem policyAfter_cons (suppress : Bool) (call : Call) (rest : List Call) :
    policyAfter suppress (call :: rest) = policyAfter (call.policy?.getD suppress) rest := by
  simp only [policyAfter, List.filterMap_cons]
  cases call.policy? <;> simp [List.getLast?_cons]

omit [Regex.Engine] in
theorem priorityAfter_cons (priority : Priority) (call : Call) (rest : List Call) :
    priorityAfter priority (call :: rest) =
      priorityAfter ((call.priority?.map Priority.clamp).getD priority) rest := by
  simp only [priorityAfter, List.filterMap_cons]
  cases call.priority? with
  | none => rfl
  | some asked => cases h : (rest.filterMap (·.priority?)).getLast? <;>
      simp [List.getLast?_cons, h]

theorem reportsAfter_cons (program : Program) (suppress : Bool) (call : Call)
    (rest : List Call) :
    reportsAfter program suppress (call :: rest) =
      (call.documents program suppress).filterMap (report? program suppress) ++
        reportsAfter program (call.policy?.getD suppress) rest := by
  rw [reportsAfter, documentsAfter, List.filterMap_append, List.filterMap_map]
  rfl

/-- What calls on a validator leave it as, from any state of it on. -/
theorem foldl_apply (calls : List Call) (v : Validator) :
    calls.foldl Call.apply v =
      { v with
        suppressWarnings := policyAfter v.suppressWarnings calls
        priority := priorityAfter v.priority calls
        lastReport :=
          (reportsAfter v.program v.suppressWarnings calls).getLast?.or v.lastReport } := by
  induction calls generalizing v with
  | nil => rfl
  | cons call rest ih =>
      rw [List.foldl_cons, ih, policyAfter_cons, priorityAfter_cons, reportsAfter_cons,
        List.getLast?_append, Option.or_assoc, call.apply_eq]
      rfl

/-! ## Calls on several validators -/

section
variable {ι : Type*} [DecidableEq ι]

theorem afterCalls_concat (program : Program) (calls : List (ι × Call)) (called : ι)
    (call : Call) :
    afterCalls program (calls ++ [(called, call)]) =
      Function.update (afterCalls program calls) called
        (call.apply (afterCalls program calls called)) := by
  rw [afterCalls, List.foldl_append]
  rfl

/-- A validator is what the calls on it leave it as, in whatever order they come among others. -/
theorem afterCalls_eq_foldl (program : Program) (calls : List (ι × Call)) (name : ι) :
    afterCalls program calls name = (callsOn name calls).foldl Call.apply (.ofProgram program) := by
  induction calls using List.reverseRecOn with
  | nil => rfl
  | append_singleton calls last ih =>
      obtain ⟨called, call⟩ := last
      rw [afterCalls_concat, callsOn, List.filter_append, List.map_append, List.foldl_append,
        ← callsOn, ← ih]
      by_cases h : called = name
      · subst h
        simp
      · simp [h, Function.update_of_ne (Ne.symm h)]

/-- What a validator of a program holds after calls, and what a further call comes to for it. -/
structure HeldAfter (program : Program) (calls : List (ι × Call)) (name : ι) : Prop where
  /-- The priority is one from 1 to 100. -/
  range : 1 ≤ (afterCalls program calls name).priority.value ∧
    (afterCalls program calls name).priority.value ≤ 100
  /-- The priority is the one that was asked for last, as far as there is such a priority. -/
  priority : (afterCalls program calls name).priority =
    priorityAfter .default (callsOn name calls)
  /-- The policy is the one that was set last. -/
  policy : (afterCalls program calls name).suppressWarnings =
    policyAfter false (callsOn name calls)
  /-- The report is about the last document that could be run on, under the policy that was in
  force then; there is none as long as no document could be run on. -/
  report : (afterCalls program calls name).lastReport =
    (reportsAfter program false (callsOn name calls)).getLast?
  /-- A further call leaves the report as it is if it gets to no document that can be run on. -/
  barren : ∀ call : Call,
    (∀ document ∈ call.documents program (afterCalls program calls name).suppressWarnings,
      ∃ fault, runBytes program document = .error fault) →
    (afterCalls program (calls ++ [(name, call)]) name).lastReport =
      (afterCalls program calls name).lastReport
  /-- A further call on another validator changes nothing. -/
  others : ∀ (other : ι) (call : Call), other ≠ name →
    afterCalls program (calls ++ [(other, call)]) name = afterCalls program calls name

theorem afterCalls_heldAfter (program : Program) (calls : List (ι × Call)) (name : ι) :
    HeldAfter program calls name := by
  have hfold := afterCalls_eq_foldl program calls name
  rw [foldl_apply] at hfold
  refine
    { range := ⟨(afterCalls program calls name).priority.least,
        (afterCalls program calls name).priority.most⟩
      priority := by rw [hfold]; rfl
      policy := by rw [hfold]; rfl
      report := by rw [hfold]; exact Option.or_none
      barren := fun call hfail => ?_
      others := fun other call hne => ?_ }
  · have hprogram : (afterCalls program calls name).program = program := by rw [hfold]; rfl
    rw [afterCalls_concat, Function.update_self]
    exact Call.lastReport_apply (by rwa [hprogram])
  · rw [afterCalls_concat, Function.update_of_ne hne.symm]

end

end Schematron.Validation

import Mathlib.Data.List.Basic
import Schematron.Proofs.Outcome
import Schematron.Proofs.Validation.History

/-!
# Requests and batches

A request validates the metadata of its entries like a batch does, but no further than the first
entry that is bad. So whatever it returns and whatever it leaves behind can be read off the batch
over the metadata of the entries it gets to (`Validator.create_update_batch`): the message is the
one that the batch has for its last entry, and the validator is the one that the batch leaves. Only
an entry without metadata has no place in a batch, and its message is said here.

Neither program nor policy is changed by a document that is gotten to (`Validator.remember`), so the
outcome of each document can be told from the validator as it was at the beginning. With this both
loops are known by an induction on their list (`Validator.run_validateEntries_append`,
`Validator.entries_validateBatch`).
-/

namespace Schematron.Validation

open Schema (Program)

/-! ## Bad entries -/

variable [Regex.Engine]

namespace Entry

/-- An entry is bad if it has no metadata, if its metadata cannot be run on, or if the report on it
is not valid. -/
inductive Bad (program : Program) (suppress : Bool) (entry : Entry) : Prop
  | missing (h : entry.metadata = none)
  | failing {text : String} {fault : RunFault} (h : entry.metadata = some text)
      (hrun : runBytes program text.toUTF8 = .error fault)
  | invalid {text : String} {record : Record} (h : entry.metadata = some text)
      (hrun : runBytes program text.toUTF8 = .ok record)
      (hreport : (Report.ofRecord suppress program record).isValid = false)

variable {program : Program} {suppress : Bool} {entry : Entry} {entries before : List Entry}

theorem passes_eq_false_iff :
    entry.passes program suppress = false ↔ entry.Bad program suppress := by
  rw [passes, document?]
  constructor
  · intro h
    cases hmetadata : entry.metadata with
    | none => exact .missing hmetadata
    | some text =>
        rw [hmetadata, Option.map_some, Option.bind_some, report?] at h
        cases hrun : runBytes program text.toUTF8 with
        | error fault => exact .failing hmetadata hrun
        | ok record =>
            rw [hrun] at h
            exact .invalid hmetadata hrun h
  · rintro (hmetadata | ⟨hmetadata, hrun⟩ | ⟨hmetadata, hrun, hreport⟩)
    · rw [hmetadata]
      rfl
    · rw [hmetadata, Option.map_some, Option.bind_some, report?, hrun]
      rfl
    · rw [hmetadata, Option.map_some, Option.bind_some, report?, hrun]
      exact hreport

theorem passes_iff : entry.passes program suppress = true ↔ ¬entry.Bad program suppress := by
  rw [← passes_eq_false_iff, Bool.not_eq_false]

theorem exists_document?_of_passes (h : entry.passes program suppress = true) :
    ∃ document, entry.document? = some document := by
  rw [passes] at h
  cases hdocument : entry.document? with
  | none =>
      rw [hdocument] at h
      cases h
  | some document => exact ⟨document, rfl⟩

/-- Entries that pass have a document each. -/
theorem length_filterMap_document? (h : ∀ entry ∈ entries, entry.passes program suppress = true) :
    (entries.filterMap (·.document?)).length = entries.length := by
  induction entries with
  | nil => rfl
  | cons entry rest ih =>
      obtain ⟨hentry, hrest⟩ := List.forall_mem_cons.mp h
      obtain ⟨document, hdocument⟩ := exists_document?_of_passes hentry
      rw [List.filterMap_cons_some hdocument, List.length_cons, List.length_cons, ih hrest]

/-- The first of some entries that does not pass. -/
theorem exists_first_not_passing (hentry : entry ∈ entries)
    (h : entry.passes program suppress = false) :
    ∃ before bad rest, entries = before ++ bad :: rest ∧
      (∀ entry ∈ before, entry.passes program suppress = true) ∧
        bad.passes program suppress = false := by
  have hsome : (entries.find? (!·.passes program suppress)).isSome = true :=
    List.find?_isSome.mpr ⟨entry, hentry, by simp [h]⟩
  obtain ⟨bad, hfound⟩ := Option.isSome_iff_exists.mp hsome
  obtain ⟨hbad, before, rest, hsplit, hbefore⟩ := List.find?_eq_some_iff_append.mp hfound
  exact ⟨before, bad, rest, hsplit, by simpa using hbefore, by simpa using hbad⟩

/-- The entries that a request gets to end with the first one that does not pass. -/
theorem reached_append (hbefore : ∀ entry ∈ before, entry.passes program suppress = true)
    {bad : Entry} (hbad : bad.passes program suppress = false) (rest : List Entry) :
    reached program suppress (before ++ bad :: rest) = before ++ [bad] := by
  have htaken : (before ++ bad :: rest).takeWhile (·.passes program suppress) = before := by
    rw [List.takeWhile_append_of_pos hbefore, List.takeWhile_cons_of_neg (by simp [hbad]),
      List.append_nil]
  rw [reached, htaken, List.take_append, List.take_of_length_le (Nat.le_succ _)]
  simp

end Entry

/-! ## The two loops -/

namespace Validator

/-- A batch has the outcome of each of its documents, under its number. -/
theorem entries_validateBatch (v : Validator) (documents : List ByteArray) :
    ((validateBatch documents).run v).1.entries =
      documents.zipIdx.map fun (document, i) => ⟨i + 1, v.outcome (some (i + 1)) document⟩ := by
  have hloop (numbered : List (ByteArray × Nat)) (v : Validator) :
      ((numbered.mapM fun (document, i) => do
          pure (BatchEntry.mk (i + 1) (← validateAs (some (i + 1)) document)) :
            StateM Validator (List BatchEntry)).run v).1 =
        numbered.map fun (document, i) => ⟨i + 1, v.outcome (some (i + 1)) document⟩ := by
    induction numbered generalizing v with
    | nil => rfl
    | cons first rest ih =>
        rw [List.mapM_cons, bind_assoc, StateT.run_bind, run_validateAs]
        exact congrArg (_ :: ·) (ih (v.remember [first.1]))
  exact hloop documents.zipIdx v

/-- What validating the metadata of an entry returns. -/
def entryOutcome (v : Validator) (number : Option Nat) (entry : Entry) :
    Except ValidationFault Report :=
  match entry.document? with
  | some document => v.outcome number document
  | none => .error (.missingMetadata entry.id)

theorem run_validateEntryAs_eq (v : Validator) (number : Option Nat) (entry : Entry) :
    (validateEntryAs number entry).run v =
      (v.entryOutcome number entry, v.remember entry.document?.toList) := by
  rw [validateEntryAs, entryOutcome, Entry.document?]
  cases entry.metadata with
  | none => rfl
  | some text => exact v.run_validateAs number text.toUTF8

theorem isOk_entryOutcome (v : Validator) (number : Option Nat) (entry : Entry) :
    (v.entryOutcome number entry).isOk = entry.passes v.program v.suppressWarnings := by
  rw [entryOutcome, Entry.passes]
  cases entry.document? with
  | none => rfl
  | some document => exact v.isOk_outcome number document

theorem run_validateEntries_cons (v : Validator) (number : Nat) (entry : Entry)
    (rest : List Entry) :
    ((validateEntries number (entry :: rest)).run v).1 =
      match v.entryOutcome (some number) entry with
      | .error cause => .error ⟨number, cause⟩
      | .ok _ =>
        ((validateEntries (number + 1) rest).run (v.remember entry.document?.toList)).1 := by
  rw [validateEntries, StateT.run_bind, run_validateEntryAs_eq]
  cases v.entryOutcome (some number) entry <;> rfl

/-- Entries that pass are left behind, and the rest is numbered on. -/
theorem run_validateEntries_append (v : Validator) (number : Nat) {before : List Entry}
    (h : ∀ entry ∈ before, entry.passes v.program v.suppressWarnings = true) (rest : List Entry) :
    ((validateEntries number (before ++ rest)).run v).1 =
      ((validateEntries (number + before.length) rest).run
        (v.remember (before.filterMap (·.document?)))).1 := by
  induction before generalizing number v with
  | nil => rfl
  | cons entry before ih =>
      obtain ⟨hentry, hbefore⟩ := List.forall_mem_cons.mp h
      obtain ⟨report, hreport⟩ : ∃ report, v.entryOutcome (some number) entry = .ok report :=
        isOk_iff_exists.mp ((v.isOk_entryOutcome _ entry).trans hentry)
      -- the documents that are gotten to change neither program nor policy
      have hrest := ih (v.remember entry.document?.toList) (number + 1) hbefore
      rw [List.cons_append, run_validateEntries_cons, hreport]
      refine hrest.trans ?_
      rw [← remember_append, List.length_cons, Nat.add_assoc, Nat.add_comm 1,
        List.filterMap_eq_flatMap_toList, List.filterMap_eq_flatMap_toList, List.flatMap_cons]

/-- Entries that all pass do not stop a request. -/
theorem run_validateEntries_of_passes (v : Validator) (number : Nat) {entries : List Entry}
    (h : ∀ entry ∈ entries, entry.passes v.program v.suppressWarnings = true) :
    ((validateEntries number entries).run v).1 = .ok () := by
  have hall := v.run_validateEntries_append number h []
  rwa [List.append_nil] at hall

/-- The first entry that does not pass stops a request, with its number. -/
theorem run_validateEntries_of_bad (v : Validator) (number : Nat) {before : List Entry}
    {bad : Entry} (hbefore : ∀ entry ∈ before, entry.passes v.program v.suppressWarnings = true)
    (hbad : bad.passes v.program v.suppressWarnings = false) (rest : List Entry) :
    ∃ cause, v.entryOutcome (some (number + before.length)) bad = .error cause ∧
      ((validateEntries number (before ++ bad :: rest)).run v).1 =
        .error ⟨number + before.length, cause⟩ := by
  have hrun := v.run_validateEntries_append number hbefore (bad :: rest)
  rw [run_validateEntries_cons] at hrun
  cases houtcome : v.entryOutcome (some (number + before.length)) bad with
  | ok report =>
      have hok := v.isOk_entryOutcome (some (number + before.length)) bad
      rw [houtcome, hbad] at hok
      cases hok
  | error cause =>
      have hsame : (v.remember (before.filterMap (·.document?))).entryOutcome
          (some (number + before.length)) bad = .error cause := houtcome
      rw [hsame] at hrun
      exact ⟨cause, rfl, hrun⟩

/-! ## Requests -/

/-- The batch over the metadata of entries, and the validator that it leaves. -/
def batchOf (v : Validator) (entries : List Entry) : BatchReport × Validator :=
  (validateBatch (entries.filterMap (·.document?))).run v

/-- A request with some entries gave a result and left a validator, both as the batch over the
entries that it gets to would have it. What a request that is not stopped returns is the request. -/
structure AgreesWithBatch {α : Type} (v : Validator) (entries : List Entry) (request : α)
    (result : Except Rejection α) (after : Validator) : Prop where
  /-- The request is passed on as it is just if none of its entries is bad. -/
  passed : result = .ok request ↔ ∀ entry ∈ entries, ¬entry.Bad v.program v.suppressWarnings
  /-- The first bad entry stops the request. The message is the one that the batch has for this
  entry, or, if it has no metadata, the header of the entry and what is said about it then. -/
  stopped : ∀ before bad rest, entries = before ++ bad :: rest →
    (∀ entry ∈ before, ¬entry.Bad v.program v.suppressWarnings) →
    bad.Bad v.program v.suppressWarnings →
    ∃ rejection, result = .error rejection ∧ rejection.entry = before.length + 1 ∧
      match bad.metadata with
      | some _ => ∃ entry,
        (v.batchOf (Entry.reached v.program v.suppressWarnings entries)).1.entries[before.length]? =
            some entry ∧
          entry.entry = before.length + 1 ∧ entry.failureMessage? = some rejection.message
      | none => rejection.message =
          entryHeader (before.length + 1) ++ "Entry " ++ bad.id ++ " has no metadata to validate\n"
  /-- The validator is left as by the batch. -/
  left : after = (v.batchOf (Entry.reached v.program v.suppressWarnings entries)).2

/-- What a batch has for the last of its entries, if all others pass. -/
theorem getElem?_batchOf (v : Validator) {before : List Entry} {bad : Entry} {document : ByteArray}
    (hbefore : ∀ entry ∈ before, entry.passes v.program v.suppressWarnings = true)
    (hdocument : bad.document? = some document) :
    (v.batchOf (before ++ [bad])).1.entries[before.length]? =
      some ⟨before.length + 1, v.outcome (some (before.length + 1)) document⟩ := by
  have hlength := Entry.length_filterMap_document? hbefore
  rw [batchOf, entries_validateBatch, List.filterMap_append, List.filterMap_cons_some hdocument,
    List.filterMap_nil, List.getElem?_map, List.getElem?_zipIdx, ← hlength,
    List.getElem?_concat_length]
  simp

theorem agreesWithBatch_validateEntries {α : Type} (v : Validator) (entries : List Entry)
    (request : α) :
    AgreesWithBatch v entries request
      (((validateEntries 1 entries).run v).1.map fun _ => request)
      ((validateEntries 1 entries).run v).2 where
  passed := by
    simp only [← Entry.passes_iff]
    constructor
    · intro hresult entry hentry
      -- the first entry that does not pass would have stopped the request
      by_contra hfails
      obtain ⟨before, bad, rest, rfl, hbefore, hbad⟩ :=
        Entry.exists_first_not_passing hentry (by simpa using hfails)
      obtain ⟨cause, -, hstopped⟩ := v.run_validateEntries_of_bad 1 hbefore hbad rest
      rw [hstopped] at hresult
      cases hresult
    · intro hall
      rw [v.run_validateEntries_of_passes 1 hall]
      rfl
  stopped before bad rest hentries hbefore hbad := by
    simp only [← Entry.passes_iff] at hbefore
    rw [← Entry.passes_eq_false_iff] at hbad
    subst hentries
    obtain ⟨cause, houtcome, hresult⟩ := v.run_validateEntries_of_bad 1 hbefore hbad rest
    rw [Nat.add_comm] at houtcome hresult
    rw [Entry.reached_append hbefore hbad]
    refine ⟨⟨before.length + 1, cause⟩, by rw [hresult]; rfl, rfl, ?_⟩
    rw [entryOutcome] at houtcome
    cases hmetadata : bad.metadata with
    | none =>
        rw [Entry.document?, hmetadata] at houtcome
        cases houtcome
        simp [Rejection.message, ValidationFault.messageFor, ValidationFault.message,
          String.append_assoc]
    | some text =>
        have hdocument : bad.document? = some text.toUTF8 := by rw [Entry.document?, hmetadata]; rfl
        rw [hdocument] at houtcome
        refine ⟨_, v.getElem?_batchOf hbefore hdocument, rfl, ?_⟩
        dsimp only at houtcome
        rw [BatchEntry.failureMessage?, houtcome]
        rfl
  left := by
    rw [batchOf, run_validateBatch]
    exact run_validateEntries 1 entries v

/-- **Requests and batches.** A request to create entries and one to update them agree with the
batch over the entries that they get to, whatever keys the updates have. -/
theorem create_update_batch (v : Validator) :
    (∀ entries : List Entry, AgreesWithBatch v entries entries
      ((create entries).run v).1 ((create entries).run v).2) ∧
    ∀ updates : List (String × Entry), AgreesWithBatch v (updates.map (·.2)) updates
      ((update updates).run v).1 ((update updates).run v).2 :=
  ⟨fun entries => v.agreesWithBatch_validateEntries entries entries,
    fun updates => v.agreesWithBatch_validateEntries (updates.map (·.2)) updates⟩

end Validator

end Schematron.Validation

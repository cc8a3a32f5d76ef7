import Schematron.Validation.Priority
import Schematron.Validation.Report

/-!
# Validators

A validator is a program with a policy: whether warnings are suppressed, and a priority. It keeps
the report about the last document that could be checked. What it does is a state transition of
its own; the program is never changed, so that several validators can share it.
-/

namespace Schematron.Validation

open Schema (Program)

variable [Regex.Engine]

/-- A program, the policy for it and the report about the last checked document. -/
structure Validator where
  program : Program
  suppressWarnings : Bool := false
  priority : Priority := .default
  lastReport : Option Report := none
  deriving Inhabited

/-- Settings of a validator; one that is not there leaves things as they are. -/
structure Settings where
  suppressWarnings : Option Bool := none
  priority : Option Int := none
  deriving DecidableEq, Repr, Inhabited

/-- Why a document or entry is refused: its report, in whose message it stands with its number in
a batch if it has one. -/
structure Refusal where
  message : String
  errors : List String
  warnings : List String
  entry : Option Nat
  deriving DecidableEq, Repr, Inhabited

/-- Why something is not valid: it cannot be run on, it has nothing to check, or its report says
so. -/
inductive ValidationFault where
  | run (cause : RunFault)
  | missingMetadata (id : String)
  | refused (refusal : Refusal)
  deriving DecidableEq, Repr

namespace ValidationFault

def message : ValidationFault → String
  | run cause => cause.message
  | missingMetadata id => "Entry " ++ id ++ " has no metadata to validate"
  | refused refusal => refusal.message

end ValidationFault

/-- The first lines of the message about a document. -/
def failureHeader : String := "Schematron validation failed.\n\n"

/-- The first lines of the message about an entry of a batch. -/
def entryHeader (entry : Nat) : String :=
  "Schematron validation failed for entry #" ++ toString entry ++ ".\n\n"

/-- The header for a document, or for an entry of a batch. -/
def headerOf : Option Nat → String
  | none => failureHeader
  | some entry => entryHeader entry

/-- A valid report, or the refusal that follows from it. -/
def Report.verdict (report : Report) (entry : Option Nat) : Except ValidationFault Report :=
  if report.isValid then .ok report
  else
    .error (.refused
      { message := report.failureMessage (headerOf entry)
        errors := report.errorMessages
        warnings := report.countedWarnings
        entry })

/-! ## Batches -/

/-- The message about an entry that is not valid. A refusal names its entry itself; any other
cause follows the header of the entry. -/
def ValidationFault.messageFor (entry : Nat) : ValidationFault → String
  | refused refusal => refusal.message
  | fault => entryHeader entry ++ fault.message ++ "\n"

/-- What became of an entry of a batch, which are numbered from 1 on. -/
structure BatchEntry where
  entry : Nat
  outcome : Except ValidationFault Report

namespace BatchEntry

def isValid (e : BatchEntry) : Bool :=
  match e.outcome with
  | .ok _ => true
  | .error _ => false

/-- The message about an entry that is not valid. -/
def failureMessage? (e : BatchEntry) : Option String :=
  match e.outcome with
  | .ok _ => none
  | .error fault => some (fault.messageFor e.entry)

end BatchEntry

/-- The outcomes of a batch. -/
structure BatchReport where
  entries : List BatchEntry

namespace BatchReport

def isValid (batch : BatchReport) : Bool := batch.entries.all (·.isValid)

/-- The entries that are not valid. -/
def failures (batch : BatchReport) : List BatchEntry := batch.entries.filter (!·.isValid)

/-- The messages about all entries that are not valid. -/
def failureMessage? (batch : BatchReport) : Option String :=
  let message := String.join (batch.entries.filterMap (·.failureMessage?))
  if message.isEmpty then none else some message

end BatchReport

/-! ## Validation -/

namespace Validator

/-- A validator without settings. -/
def ofProgram (program : Program) : Validator := { program }

def setSuppressWarnings (v : Validator) (suppress : Bool) : Validator :=
  { v with suppressWarnings := suppress }

/-- Sets the priority to the nearest one that there is. -/
def setPriority (v : Validator) (priority : Int) : Validator :=
  { v with priority := .clamp priority }

def applySettings (v : Validator) (settings : Settings) : Validator :=
  { v with
    suppressWarnings := settings.suppressWarnings.getD v.suppressWarnings
    priority := (settings.priority.map Priority.clamp).getD v.priority }

/-- The report about a document under the policy of a validator. -/
def reportOn (v : Validator) (document : ByteArray) : Except RunFault Report := do
  .ok (.ofRecord v.suppressWarnings v.program (← runBytes v.program document))

/-- Checks a document, and keeps the report if there is one. -/
def check (document : ByteArray) : StateM Validator (Except RunFault Report) := fun v =>
  match v.reportOn document with
  | .ok report => (.ok report, { v with lastReport := some report })
  | .error fault => (.error fault, v)

/-- Checks a document, which may be an entry of a batch, and refuses it if it is not valid. -/
def validateAs (entry : Option Nat) (document : ByteArray) :
    StateM Validator (Except ValidationFault Report) := do
  match ← check document with
  | .ok report => pure (report.verdict entry)
  | .error fault => pure (.error (.run fault))

/-- Checks a document, and refuses it if it is not valid. -/
def validate (document : ByteArray) : StateM Validator (Except ValidationFault Report) :=
  validateAs none document

/-- Validates documents one after the other, each for itself. -/
def validateBatch (documents : List ByteArray) : StateM Validator BatchReport := do
  let entries ← documents.zipIdx.mapM fun (document, i) => do
    pure (BatchEntry.mk (i + 1) (← validateAs (some (i + 1)) document))
  pure ⟨entries⟩

end Validator

end Schematron.Validation

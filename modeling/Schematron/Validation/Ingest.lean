import Schematron.Validation.Validator

/-!
# Ingest

Before entries are taken in, their metadata is validated. The first entry that is not valid stops
the whole request; a request that is not stopped is passed on as it is.
-/

namespace Schematron.Validation

/-- An entry with its metadata, if it has any. -/
structure Entry where
  id : String
  metadata : Option String
  deriving DecidableEq, Repr, Inhabited

/-- What stops a request: its first entry that is not valid, by number, and why it is not. -/
structure Rejection where
  entry : Nat
  cause : ValidationFault
  deriving DecidableEq, Repr

/-- The message of a stopped request is the one about that entry. -/
def Rejection.message (r : Rejection) : String := r.cause.messageFor r.entry

namespace Validator

variable [Regex.Engine]

/-- Validates the metadata of an entry, which may be one of a request. -/
def validateEntryAs (number : Option Nat) (entry : Entry) :
    StateM Validator (Except ValidationFault Report) :=
  match entry.metadata with
  | some text => validateAs number text.toUTF8
  | none => pure (.error (.missingMetadata entry.id))

/-- Validates the metadata of an entry outside of any request. -/
def validateEntry (entry : Entry) : StateM Validator (Except ValidationFault Report) :=
  validateEntryAs none entry

/-- Validates entries, numbered from a number on, up to the first one that is not valid. -/
def validateEntries (number : Nat) : List Entry → StateM Validator (Except Rejection Unit)
  | [] => pure (.ok ())
  | entry :: rest => do
    match ← validateEntryAs (some number) entry with
    | .error cause => pure (.error ⟨number, cause⟩)
    | .ok _ => validateEntries (number + 1) rest

/-- Passes on new entries if all of them are valid. -/
def create (entries : List Entry) : StateM Validator (Except Rejection (List Entry)) := do
  pure ((← validateEntries 1 entries).map fun _ => entries)

/-- Passes on the entries that are to take the place of others, which are named by keys, if all of
them are valid. -/
def update (updates : List (String × Entry)) :
    StateM Validator (Except Rejection (List (String × Entry))) := do
  pure ((← validateEntries 1 (updates.map (·.2))).map fun _ => updates)

/-- Passes on the ids of entries that are to be deleted. -/
def delete (ids : List String) : StateM Validator (Except Rejection (List String)) :=
  pure (.ok ids)

end Validator

end Schematron.Validation

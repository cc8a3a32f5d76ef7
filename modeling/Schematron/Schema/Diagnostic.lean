/-!
# Diagnostics

What the stages of compilation report. A warning is kept and the stage goes on; an error or a
fatal error ends it.
-/

namespace Schematron.Schema

/-- How severe a diagnostic is, from the least on. -/
inductive Severity where
  | warning | error | fatal
  deriving DecidableEq, Repr, Inhabited

namespace Severity

/-- The place in the order of severities. -/
def rank : Severity → Nat
  | warning => 0
  | error => 1
  | fatal => 2

/-- A diagnostic of this severity ends what reports it. -/
def isAbort (severity : Severity) : Bool := severity != warning

def display : Severity → String
  | warning => "warning"
  | error => "error"
  | fatal => "fatal error"

end Severity

/-- A reported problem. -/
structure Diagnostic where
  severity : Severity
  message : String
  deriving DecidableEq, Repr, Inhabited

namespace Diagnostic

def error (message : String) : Diagnostic := ⟨.error, message⟩

def fatal (message : String) : Diagnostic := ⟨.fatal, message⟩

def display (d : Diagnostic) : String := d.severity.display ++ ": " ++ d.message

end Diagnostic

/-- The warnings of one run of a stage, in order. -/
structure Sink where
  warnings : List String := []
  deriving DecidableEq, Repr, Inhabited

namespace Sink

def warn (sink : Sink) (message : String) : Sink := ⟨sink.warnings ++ [message]⟩

/-- Keeps a warning, and gives back anything more severe. -/
def report (sink : Sink) (d : Diagnostic) : Except Diagnostic Sink :=
  if d.severity.isAbort then .error d else .ok (sink.warn d.message)

end Sink

/-- Why a stage has no result: a diagnostic ended it, or it would not come to an end. -/
inductive StageFault where
  | diagnostic (d : Diagnostic)
  | endless
  deriving DecidableEq, Repr

/-- A part of the run of a stage: it adds warnings until a fault ends it. -/
abbrev StageRun := StateT Sink (Except StageFault)

namespace StageRun

/-- Adds a warning. -/
def warn (message : String) : StageRun Unit := modify (·.warn message)

/-- Adds a warning if there is a reason to. -/
def warnIf (reason : Bool) (message : String) : StageRun Unit :=
  if reason then warn message else pure ()

/-- Goes on with a result, or ends with the diagnostic in its place. -/
def ofExcept {α : Type} : Except Diagnostic α → StageRun α
  | .ok x => pure x
  | .error d => throw (.diagnostic d)

end StageRun

end Schematron.Schema

import Schematron.Text.Blank
import Schematron.Text.Case

/-!
# Channels

A fired assertion is an error or a warning. The channel stands as a flag in a report.
-/

namespace Schematron.Schema

/-- The channel that a fired assertion is reported on. -/
inductive Channel where
  | error | warning
  deriving DecidableEq, Repr, Inhabited

namespace Channel

/-- The flag of a channel. -/
def flag : Channel → String
  | error => "error"
  | warning => "warning"

/-- The channel of a flag, whatever its case and the blanks around it. -/
def ofFlag? (flag : String) : Option Channel :=
  [error, warning].find? fun channel => Text.equalIgnoringCase (Text.trim flag) channel.flag

end Channel

end Schematron.Schema

/-!
# Settings

How a draft is rendered while it has no kind, and how rendered statements are
logged.
-/

namespace BoundSql

/-- What rendering does without a kind: refuse, or give an empty statement. -/
inductive KindPolicy where
  | required
  | optional
  deriving DecidableEq, Repr

inductive LogLevel where
  | error
  | warn
  | info
  | debug
  | trace
  deriving DecidableEq, Repr

namespace LogLevel

def name : LogLevel → String
  | error => "ERROR"
  | warn => "WARN"
  | info => "INFO"
  | debug => "DEBUG"
  | trace => "TRACE"

end LogLevel

/-- Logged SQL is cut to `logLimit` bytes, or not at all if there is no limit. -/
structure Settings where
  kindPolicy : KindPolicy := .required
  logging : Bool := false
  logLevel : LogLevel := .debug
  logLimit : Option Nat := some 200
  deriving DecidableEq, Repr

end BoundSql

import SchemaStitch.Text

/-! # Logs

    What a run reports on its way is a value: the records in the order of what they
    report.  Nothing the library computes depends on its log. -/

namespace SchemaStitch

/-- How much a record matters, from the least to the most. -/
inductive LogLevel
  | debug | info | warning | error
  deriving DecidableEq, Repr

namespace LogLevel

/-- The word in front of a record. -/
def label : LogLevel → Text
  | .debug => "DEBUG"
  | .info => "INFO"
  | .warning => "WARNING"
  | .error => "ERROR"

/-- The place of a level among the four. -/
def rank : LogLevel → Nat
  | .debug => 0
  | .info => 1
  | .warning => 2
  | .error => 3

end LogLevel

/-- One report. -/
structure LogRecord where
  level : LogLevel
  message : Text
  deriving DecidableEq, Repr

/-- The reports of a run, in order. -/
abbrev Log := List LogRecord

namespace Log

/-- The reports of at least the given level. -/
def atLeast (level : LogLevel) (log : Log) : Log :=
  log.filter fun record => level.rank ≤ record.level.rank

/-- The reports as text, each on lines of its own behind its level. -/
def print (log : Log) : Text :=
  log.flatMap fun record => record.level.label ++ ": " ++ record.message ++ "\n"

end Log

end SchemaStitch

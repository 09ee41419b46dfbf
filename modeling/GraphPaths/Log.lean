import GraphPaths.Text.Digit

/-!
# Log records

Work that keeps a log: `Job` yields a result or an error, and in both cases the records written on
the way, in order.
-/

namespace GraphPaths

/-- How grave a record is: the more, the greater the number. -/
structure LogLevel where
  number : Int
deriving Repr, DecidableEq, Inhabited

namespace LogLevel

/-- For those who look for a fault. -/
def debug : LogLevel := ⟨10⟩

/-- All goes as it should. -/
def info : LogLevel := ⟨20⟩

/-- Something may go wrong later. -/
def warning : LogLevel := ⟨30⟩

/-- Something could not be done. -/
def error : LogLevel := ⟨40⟩

/-- Nothing more can be done. -/
def critical : LogLevel := ⟨50⟩

/-- The levels that have names, from the least grave on. -/
def names : List (LogLevel × String) :=
  [(debug, "DEBUG"), (info, "INFO"), (warning, "WARNING"), (error, "ERROR"),
   (critical, "CRITICAL")]

/-- The levels that have names. -/
def all : List LogLevel := names.map Prod.fst

/-- The name of a level; any other is told by its number. -/
def name (l : LogLevel) : String :=
  (names.lookup l).getD ("Level " ++ Text.decimalInt l.number)

end LogLevel

/-- A record. -/
structure LogRecord where
  level : LogLevel
  message : String
deriving Repr, DecidableEq, Inhabited

/-- Work that keeps a log and may fail. -/
abbrev Job (ε α : Type) := ExceptT ε (StateM (List LogRecord)) α

namespace Job

/-- Adds a record. -/
def log {ε : Type} (level : LogLevel) (message : String) : Job ε Unit :=
  fun records => (.ok (), records ++ [⟨level, message⟩])

/-- A result that needs no log. -/
def ofExcept {ε α : Type} (x : Except ε α) : Job ε α := fun records => (x, records)

/-- Work with its error put into other words. -/
def mapError {ε δ α : Type} (f : ε → δ) (job : Job ε α) : Job δ α := fun records =>
  match job records with
  | (.ok a, records) => (.ok a, records)
  | (.error e, records) => (.error (f e), records)

/-- The outcome of work and its records. -/
def run {ε α : Type} (job : Job ε α) : Except ε α × List LogRecord := job []

end Job

end GraphPaths

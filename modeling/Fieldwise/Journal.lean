/-!
# Journal entries

What a run tells about itself. An entry has a level, the part of the program it comes from, a message, and
details; it may be made while the members of a host are classified, and then says so.
-/

namespace Fieldwise

namespace Journal

/-- How important an entry is, most important first. -/
inductive Level where
  | error
  | warn
  | info
  | debug
  | trace
  deriving DecidableEq, Inhabited

namespace Level

/-- How much is told at a level: more at each, and nothing at zero. -/
def rank : Level → Nat
  | error => 1
  | warn => 2
  | info => 3
  | debug => 4
  | trace => 5

/-- The name of a level. -/
def name : Level → String
  | error => "ERROR"
  | warn => "WARN"
  | info => "INFO"
  | debug => "DEBUG"
  | trace => "TRACE"

end Level

/-- A detail of an entry. -/
inductive Detail where
  | text (value : String)
  | number (value : Nat)
  | flag (value : Bool)
  deriving DecidableEq, Inhabited

/-- What is going on while entries are made. -/
structure Span where
  /-- The level it is told at. -/
  level : Level
  /-- The part of the program that does it. -/
  target : String
  /-- What it is called. -/
  name : String
  /-- Details. -/
  details : List (String × Detail)
  deriving DecidableEq, Inhabited

/-- An entry. -/
structure Entry where
  /-- Its level. -/
  level : Level
  /-- The part of the program it comes from. -/
  target : String
  /-- Its message. -/
  message : String
  /-- Details. -/
  details : List (String × Detail)
  /-- What is going on. -/
  span : Option Span
  deriving DecidableEq, Inhabited

/-- An entry that is made while nothing particular is going on. -/
def entry (level : Level) (target message : String) (details : List (String × Detail)) : Entry :=
  ⟨level, target, message, details, none⟩

/-- The entry, made while something is going on. -/
def Entry.during (span : Span) (entry : Entry) : Entry := { entry with span := some span }

end Journal

end Fieldwise

import DottedNames.Fault
import DottedNames.Text.Blank

/-!
# Log modes and levels

A record has a level, and a log mode says from which level on records are shown. A mode is given by
its name; blank characters around the name and the case of its letters do not matter. Where a mode
comes from the environment, an absent variable and one that names no mode both mean the quietest
mode.
-/

namespace DottedNames

/-- How important a record is. -/
inductive Level where
  /-- Details of a single step. -/
  | trace
  /-- What a developer wants to know. -/
  | debug
  /-- What went on. -/
  | info
  /-- What went well. -/
  | success
  /-- What may be wrong. -/
  | warning
  /-- What went wrong. -/
  | error
  /-- What makes going on impossible. -/
  | critical
deriving DecidableEq

namespace Level

/-- The rank of a level; a more important record has a higher one. -/
def severity : Level → Nat
  | .trace => 5
  | .debug => 10
  | .info => 20
  | .success => 25
  | .warning => 30
  | .error => 40
  | .critical => 50

/-- The name of a level as it is shown. -/
def name : Level → Text
  | .trace => "TRACE".toList
  | .debug => "DEBUG".toList
  | .info => "INFO".toList
  | .success => "SUCCESS".toList
  | .warning => "WARNING".toList
  | .error => "ERROR".toList
  | .critical => "CRITICAL".toList

/-- The picture of a level: a symbol, and for some a sign that it is to be coloured. -/
def icon : Level → Text
  | .trace => ['\u270f', '\ufe0f']
  | .debug => [Char.ofNat 0x1F41E]
  | .info => ['\u2139', '\ufe0f']
  | .success => ['\u2705']
  | .warning => ['\u26a0', '\ufe0f']
  | .error => ['\u274c']
  | .critical => ['\u2620', '\ufe0f']

end Level

/-- From which level on records are shown. -/
inductive LogMode where
  /-- Warnings and what is more important. -/
  | warning
  /-- Also what went on. -/
  | info
  /-- Also what a developer wants to know. -/
  | debug
deriving DecidableEq

namespace LogMode

/-- All modes, the quietest first (`LOG_MODES`). -/
def all : List LogMode := [.warning, .info, .debug]

/-- The name of a mode. -/
def name : LogMode → Text
  | .warning => "warning".toList
  | .info => "info".toList
  | .debug => "debug".toList

/-- The level from which on records are shown. -/
def threshold : LogMode → Level
  | .warning => .warning
  | .info => .info
  | .debug => .debug

/-- Whether a record of the given level is shown. -/
def shows (m : LogMode) (l : Level) : Bool := m.threshold.severity ≤ l.severity

/-- The mode with exactly the given name. -/
def ofName? (t : Text) : Option LogMode := all.find? (·.name == t)

/-- The mode that a text names, apart from blanks around the name and from case (`_normalize_mode`).
-/
def parse (t : Text) : Except Fault LogMode :=
  match ofName? t.trim.toLower with
  | some m => .ok m
  | none => .error (.invalidLogMode t)

/-- The mode that a datum names. -/
def parseDatum : Datum → Except Fault LogMode
  | .text t => parse t
  | d => .error (.noAttribute d.kind "strip".toList)

/-- The mode that shows least, which is in force when nothing else is said. -/
def quietest : LogMode := .warning

/-- The mode that a variable of the environment asks for (`_mode_from_env`). -/
def ofEnvironment : Option Text → LogMode
  | some t => (parse t).toOption.getD quietest
  | none => quietest

end LogMode

end DottedNames

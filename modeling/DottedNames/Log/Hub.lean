import DottedNames.Log.Record

/-!
# The hub of log records

Records are handed to a hub, and the hub hands each of them to the sinks that accept it. A sink is
installed with a threshold and gets a number that no other sink had before; it can be removed by
that number. Only records of this library pass, and each sink accepts those that reach its
threshold. A hub may come with a sink of its own, under the number zero.

The hub of the library is `loguru`, of which only this much is used.
-/

namespace DottedNames

/-- A place that accepts records. -/
structure Sink where
  /-- The number the sink was given when it was installed. -/
  id : Nat
  /-- From which level on the sink accepts records. -/
  mode : LogMode
deriving DecidableEq

namespace Sink

/-- Whether a sink accepts a record. -/
def accepts (s : Sink) (r : LogRecord) : Bool :=
  LogRecord.isOwn r.bindings && s.mode.shows r.level

end Sink

/-- The sinks that are installed. -/
structure Hub where
  /-- The sinks, the oldest first. -/
  sinks : List Sink
  /-- The number of the next sink. -/
  nextId : Nat
deriving DecidableEq

namespace Hub

/-- The hub without sinks. -/
def empty : Hub := ⟨[], 1⟩

/-- The number of the sink that a hub comes with. -/
def builtIn : Nat := 0

/-- The hub with one more sink, and the number of that sink (`add`). -/
def install (h : Hub) (mode : LogMode) : Hub × Nat :=
  (⟨h.sinks ++ [⟨h.nextId, mode⟩], h.nextId + 1⟩, h.nextId)

/-- The hub without the sink of a number, if there is one (`remove`). -/
def remove (h : Hub) (id : Nat) : Hub := { h with sinks := h.sinks.filter (·.id != id) }

/-- The hub without any sink. -/
def removeAll (h : Hub) : Hub := { h with sinks := [] }

/-- The sinks that accept a record. -/
def accepting (h : Hub) (r : LogRecord) : List Sink := h.sinks.filter (·.accepts r)

end Hub

end DottedNames

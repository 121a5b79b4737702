import DottedNames.Log.Hub
import DottedNames.Log.Template
import DottedNames.Operand.Container
import DottedNames.Token

/-!
# The logging session

The library keeps one sink in the hub and one current mode. The sink is installed when it is first
needed: by setting a mode, or by the first use of the logger, in which case the environment says
which mode. Setting the mode that is in force already does nothing; setting another one replaces the
sink. Whoever empties the hub behind the library's back silences it until the mode changes.

The recognition pattern is prepared when it is first used, and that is reported once.

Every step yields the records that a sink accepted meanwhile. For an accepted record its line is
written to the error stream, in the mode in force at that moment (`Written.line`). If the origin of
the record makes a template that cannot be rendered, there is no such line: the hub complains of an
error in its place, and that complaint is no part of the model. So where something is said about the
error stream, such records are left out.
-/

namespace DottedNames

/-- A record that a sink accepted, with the mode in force. -/
structure Written where
  /-- The mode in force. -/
  mode : LogMode
  /-- The record. -/
  record : LogRecord

namespace Written

/-- The line that an accepted record leaves in the error stream at a moment. If its template cannot
be rendered, it leaves none. -/
def line (m : Moment) (w : Written) : Text :=
  (Template.render (w.record.field? m)
    (Template.line w.mode m.time w.record.level.name w.record.bindings)).getD []

/-- The lines that accepted records leave in the error stream at a moment. -/
def lines (m : Moment) (ws : List Written) : Text := ws.flatMap (line m)

end Written

/-- The state of logging. -/
structure Session where
  /-- The installed sinks. -/
  hub : Hub
  /-- The number of the library's own sink, if it ever installed one. -/
  sink : Option Nat
  /-- Whether the library took over the hub. -/
  initialized : Bool
  /-- The current mode. -/
  mode : LogMode
  /-- Whether the recognition pattern was prepared. -/
  prepared : Bool
  /-- The variable of the environment that names a mode. -/
  environment : Option Text

namespace Session

/-- The state in which nothing was logged and no mode was set. -/
def initial (environment : Option Text) : Session where
  hub := .empty
  sink := none
  initialized := false
  mode := .quietest
  prepared := false
  environment := environment

/-! ## The sink -/

/-- The hub without the sinks that a new one would double: the library's own one, and on the first
occasion the one that the hub came with. -/
def cleared (s : Session) : Hub :=
  let hub := if s.initialized then s.hub else s.hub.remove Hub.builtIn
  match s.sink with
  | some id => hub.remove id
  | none => hub

/-- The state in which a mode is in force (`_install_sink`). -/
def install (s : Session) (mode : LogMode) : Session :=
  if s.sink.isSome ∧ mode = s.mode then s
  else
    let (hub, id) := s.cleared.install mode
    { s with hub, sink := some id, initialized := true, mode }

/-- The state in which the logger can be used (`get_logger`). -/
def ensure (s : Session) : Session :=
  if s.initialized then s else s.install (.ofEnvironment s.environment)

/-! ## Records -/

/-- A record that is handed to the hub, once for each sink that accepts it. -/
def emit (s : Session) (r : LogRecord) : List Written :=
  (s.hub.accepting r).map fun _ => ⟨s.mode, r⟩

/-- The state after a record of this library, and the record if it was accepted. -/
def log (s : Session) (level : Level) (message : Text) (bs : Bindings) : Session × List Written :=
  let s := s.ensure
  (s, s.emit ⟨level, message, LogRecord.ownBindings bs⟩)

/-- The bound fields of a record that names an action. -/
def action (name : String) : Bindings := [(LogRecord.actionKey, .text name.toList)]

/-- The state in which the recognition pattern is prepared (`fqn_pattern`), and the records that
were accepted. -/
def prepare (s : Session) : Session × List Written :=
  if s.prepared then (s, [])
  else
    let message := "compiling fqn recognition pattern: ".toList ++ Grammar.dottedName.source
    let (s, written) := s.log .debug message (action "compile_fqn_pattern")
    ({ s with prepared := true }, written)

/-- Whether two uses of the recognition pattern in a row have the same one: the first use leaves it
prepared for the second. -/
def sharesPattern (s : Session) : Bool := s.prepare.1.prepared

/-! ## Recognition and scanning with their records -/

/-- The dotted name at the start of a datum (`recognize`). -/
def recognize (s : Session) (text : Datum) :
    Session × List Written × Except Fault (Option Text) :=
  let (s, written) := s.prepare
  (s, written, DottedNames.recognize text (.int 0))

/-- The tokens of a datum (`iter_fqn_tokens`). -/
def tokens (s : Session) (text : Datum) : Session × List Written × Except Fault (List Token) :=
  let (s, written) := s.prepare
  (s, written, text.tokens)

/-- The size of what was scanned: the number of characters of a text, and of items otherwise. -/
def sizeOf (d : Datum) : Nat := (Operand.datum d).length.toOption.getD 0

/-- The names in a datum (`find_fqns`). -/
def find (s : Session) (text : Datum) : Session × List Written × Except Fault (List QualName) :=
  let (s, written, found) := s.tokens text
  match found with
  | .error f => (s, written, .error f)
  | .ok tokens =>
    let message := "found ".toList ++ Text.ofNat tokens.length ++ " fqn token(s) in ".toList ++
      Text.ofNat (sizeOf text) ++ " character(s)".toList
    let (s, more) := s.log .debug message (action "find_fqns")
    (s, written ++ more, namesOfTokens tokens)

/-! ## Steps -/

/-- What can happen in a session. -/
inductive Step where
  /-- A mode is set (`set_log_mode`). -/
  | set (mode : Datum)
  /-- A mode is set, or the one that the environment asks for (`configure_cli_logger`). -/
  | configure (mode : Option Datum)
  /-- The variable of the environment changes. -/
  | environment (value : Option Text)
  /-- The logger is fetched (`get_logger`). -/
  | fetch
  /-- A record of this library, whose message is a datum. -/
  | emit (level : Level) (message : Datum) (bindings : Bindings)
  /-- A record of somebody else. -/
  | foreign (level : Level) (message : Datum) (bindings : Bindings)
  /-- The hub is emptied. -/
  | removeAll
  /-- A text is recognized. -/
  | recognize (text : Datum)
  /-- The names in a text are looked for. -/
  | find (text : Datum)

/-- What a step results in. -/
inductive Answer where
  /-- Nothing. -/
  | none
  /-- A recognized text, if there was one. -/
  | recognized (t : Option Text)
  /-- The names found. -/
  | names (qs : List QualName)

/-- The state after a step, the records that were accepted, and the result of the step. -/
def step (s : Session) : Step → Session × List Written × Except Fault Answer
  | .set mode =>
    match LogMode.parseDatum mode with
    | .ok m => (s.install m, [], .ok .none)
    | .error f => (s, [], .error f)
  | .configure (some mode) =>
    match LogMode.parseDatum mode with
    | .ok m => (s.install m, [], .ok .none)
    | .error f => (s, [], .error f)
  | .configure none => (s.install (.ofEnvironment s.environment), [], .ok .none)
  | .environment value => ({ s with environment := value }, [], .ok .none)
  | .fetch => (s.ensure, [], .ok .none)
  | .emit level message bs =>
    let (s, written) := s.log level message.inserted bs
    (s, written, .ok .none)
  | .foreign level message bs => (s, s.emit ⟨level, message.inserted, bs⟩, .ok .none)
  | .removeAll => ({ s with hub := s.hub.removeAll }, [], .ok .none)
  | .recognize text =>
    let (s, written, result) := s.recognize text
    (s, written, result.map .recognized)
  | .find text =>
    let (s, written, result) := s.find text
    (s, written, result.map .names)

/-- The state after each step, the records that were accepted in it, and its result. -/
def trace (s : Session) : List Step → List (Session × List Written × Except Fault Answer)
  | [] => []
  | t :: steps =>
    let (s, written, result) := s.step t
    (s, written, result) :: s.trace steps

/-- The state after a list of steps. -/
def run (s : Session) (steps : List Step) : Session := steps.foldl (fun s t => (s.step t).1) s

end Session

end DottedNames

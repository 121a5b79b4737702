import DottedNames.Command.Path
import DottedNames.Command.Report
import DottedNames.Command.Request
import DottedNames.Log.Session
import DottedNames.Text.Newline

/-!
# Running the program

From the arguments, the standard input, the environment and the files to an exit code and what is
written to the two output streams. What is reported goes to the standard output and depends neither
on the log mode nor on the environment; log lines, complaints and errors go to the error stream.

A flag for debugging is honoured wherever it stands among the arguments, which is why those flags
are taken out before the arguments are read. A scan reads its source completely before anything is
written, so it fails without any output or not at all.

Files and the standard input hold bytes, and both are taken as UTF-8; of the standard input this
assumes a locale that says so. The line ends of a file are unified, those of the standard input are
not.
-/

namespace DottedNames.Command

/-- What the program is started with. -/
structure Invocation where
  /-- The arguments. -/
  arguments : List Text
  /-- The bytes of the standard input. -/
  input : List UInt8
  /-- The variable of the environment that names a log mode. -/
  environment : Option Text
  /-- What the clock shows. -/
  moment : Moment
  /-- Whether the data of an installation are there. -/
  installed : Bool
  /-- The bytes of the file that a path leads to. -/
  read : Text → Except ReadFault (List UInt8)

/-- What the program leaves behind. -/
structure Outcome where
  /-- The exit code. -/
  exit : Nat
  /-- What was written to the standard output. -/
  output : Text
  /-- What was written to the error stream. -/
  errors : Text
deriving DecidableEq

/-! ## Sources -/

/-- Why a source cannot be scanned. -/
inductive SourceFault where
  /-- The file cannot be read. -/
  | unreadable (path : Text) (f : ReadFault)
  /-- The bytes of the source are no UTF-8. -/
  | undecodable (e : Utf8.DecodeError)
deriving DecidableEq

/-- The message about a file that cannot be read. -/
def unreadableMessage (path : Text) : ReadFault → Text
  | .nullCharacter => "embedded null byte".toList
  | .missing => numbered "[Errno 2] No such file or directory: "
  | .notDirectory => numbered "[Errno 20] Not a directory: "
  | .isDirectory => numbered "[Errno 21] Is a directory: "
  | .nameTooLong => numbered "[Errno 36] File name too long: "
where
  /-- The words for a fault, and the path. -/
  numbered (words : String) : Text := words.toList ++ (Path.normalize path).quoted

/-- The message about a source that cannot be scanned. -/
def SourceFault.message : SourceFault → Text
  | .unreadable path f => unreadableMessage path f
  | .undecodable e => e.message

/-- The text of the standard input: its bytes as UTF-8. -/
def textOfInput (bytes : List UInt8) : Except SourceFault Text :=
  (Utf8.decode bytes).mapError .undecodable

/-- The text of a file: its bytes as UTF-8, with unified line ends. -/
def textOfFile (bytes : List UInt8) : Except SourceFault Text :=
  match Utf8.decode bytes with
  | .ok t => .ok t.unifyNewlines
  | .error e => .error (.undecodable e)

/-- The text to scan: the standard input if no path or a dash is given, and otherwise the file
(`_read_source`). -/
def Invocation.source (i : Invocation) : Option Text → Except SourceFault Text
  | none => textOfInput i.input
  | some path =>
    if path = ['-'] then textOfInput i.input
    else
      match i.read path with
      | .ok bytes => textOfFile bytes
      | .error f => .error (.unreadable path f)

/-! ## The commands -/

/-- The words before the message of an error. -/
def errorLine (message : Text) : Text := "fqnkit error: ".toList ++ message ++ ['\n']

/-- The log message about an invalid name. -/
def rejection (raw : Text) (report : InvalidIdentifier) : Text :=
  "rejected ".toList ++ raw.quoted ++ ": ".toList ++ report.message

/-- What is logged about the names that are invalid. -/
def logRejections (s : Session) : List CheckEntry → List Written
  | [] => []
  | e :: es =>
    match e.verdict with
    | .ok _ => logRejections s es
    | .error report =>
      let (s, written) := s.log .info (rejection e.raw report) (Session.action "check")
      written ++ logRejections s es

/-- Validate names (`_cmd_check`). -/
def runCheck (m : Moment) (s : Session) (names : List Text) (json : Bool) : Outcome :=
  let entries := names.map CheckEntry.ofText
  { exit := if entries.all CheckEntry.isValid then 0 else 1
    output :=
      if json then jsonReport (entries.map CheckEntry.record)
      else entries.flatMap CheckEntry.line
    errors := Written.lines m (logRejections s.ensure entries) }

/-- The log message about a scan. -/
def scanSummary (text : Text) (entries : List ScanEntry) : Text :=
  "scanned ".toList ++ Text.ofNat text.length ++ " character(s), ".toList ++
    Text.ofNat entries.length ++ " token(s)".toList

/-- List the names in a text (`_cmd_scan`). -/
def runScan (m : Moment) (s : Session) (text : Text) (unique json : Bool) : Outcome :=
  let (s, prepared) := s.prepare
  let entries := ScanEntry.ofTokens unique text (Token.scan text)
  let (_, summary) := s.log .info (scanSummary text entries) (Session.action "scan")
  { exit := 0
    output :=
      if json then jsonReport (entries.map ScanEntry.record)
      else entries.flatMap ScanEntry.line
    errors := Written.lines m (prepared ++ summary) }

/-- The log mode that a job was asked to run in. -/
def Job.logMode : Job → Option LogMode
  | .check _ _ m => m
  | .scan _ _ _ m => m
  | .help => none

/-- The session that a job runs in: in the mode that is asked for, or else in that of the
environment (`configure_cli_logger`). -/
def Invocation.session (i : Invocation) (mode : Option LogMode) : Session :=
  (Session.initial i.environment).install (mode.getD (.ofEnvironment i.environment))

/-- Run a job in a session. The third one is `_cmd_help`. -/
def Invocation.perform (i : Invocation) (s : Session) : Job → Outcome
  | .check names json _ => runCheck i.moment s names json
  | .scan path unique json _ =>
    match i.source path with
    | .ok text => runScan i.moment s text unique json
    | .error f => ⟨1, [], errorLine f.message⟩
  | .help => ⟨0, examplesCard, []⟩

/-! ## The whole program -/

/-- The flags that ask for debugging wherever they stand. -/
def debugFlags : List Text := ["-d".toList, "--debug".toList]

/-- Whether an argument asks for debugging. -/
def isDebugFlag (t : Text) : Bool := debugFlags.contains t

/-- The outcome when no command is run. -/
def Invocation.stopped (i : Invocation) : Stop → Outcome
  | .help l => ⟨0, l.help, []⟩
  | .version => ⟨0, versionText i.installed, []⟩
  | .misuse l complaint =>
    ⟨2, [], l.usage ++ l.program ++ ": error: ".toList ++ complaint ++ ['\n']⟩

/-- The arguments that are read: the flags for debugging are none of them. -/
def Invocation.ordinary (i : Invocation) : List Text := i.arguments.filter fun t => !isDebugFlag t

/-- What the arguments are read as. -/
def Invocation.request (i : Invocation) : Except Stop Request := parse .current i.ordinary

/-- The log mode that the arguments ask for. -/
def Invocation.requestedMode (i : Invocation) (t : Job) : Option LogMode :=
  if i.arguments.any isDebugFlag then some .debug else t.logMode

/-- Do what was requested. -/
def Invocation.conclude (i : Invocation) : Except Stop Request → Outcome
  | .error stop => i.stopped stop
  | .ok r =>
    match r.job with
    | none => ⟨0, startCard, []⟩
    | some t => i.perform (i.session (i.requestedMode t)) t

/-- Run the program (`main`). -/
def Invocation.run (i : Invocation) : Outcome := i.conclude i.request

/-! ## The earlier parser -/

/-- Whether an earlier release of the parser accepts the arguments with a log mode that is an empty
list, and no flag for debugging stands in for it. -/
def Invocation.losesMode (i : Invocation) : Bool :=
  !i.arguments.any isDebugFlag &&
    match readLevels .earlier i.ordinary with
    | .ok x => x.modeLost && x.leftovers.isEmpty
    | .error _ => false

/-- Run the program with an earlier release of the parser. What is refused is to start logging in a
mode that is an empty list. -/
def Invocation.runEarlier (i : Invocation) : Except Fault Outcome :=
  let outcome := i.conclude (parse .earlier i.ordinary)
  if i.losesMode then (LogMode.parseDatum (.list [])).map fun _ => outcome else .ok outcome

/-! ## What a run reads -/

/-- What a run reads besides its arguments. -/
inductive Need where
  /-- Nothing. -/
  | nothing
  /-- The standard input. -/
  | input
  /-- A file. -/
  | file (path : Text)
deriving DecidableEq

/-- What a run with these arguments reads. -/
def Invocation.need (i : Invocation) : Need :=
  match i.request with
  | .ok ⟨_, some (.scan path _ _ _)⟩ =>
    match path with
    | none => .input
    | some path => if path = ['-'] then .input else .file path
  | _ => .nothing

end DottedNames.Command

import DottedNames.Text

/-!
# The command line and its texts

The command line as `build_parser` declares it. The program has a root level and one level for each
command. A level has options and one positional argument: at the root the command, elsewhere what
the command works on. Each level also has a usage text, which is shown with an error, and a help
text that starts with it.
-/

namespace DottedNames.Command

/-- What an option asks for. -/
inductive Effect where
  /-- The help text. -/
  | help
  /-- The version. -/
  | version
  /-- The most talkative log mode. -/
  | debug
  /-- Output in JSON. -/
  | json
  /-- Each name once. -/
  | unique
  /-- A log mode, named by a value. -/
  | logMode
deriving DecidableEq

/-- Whether an option needs a value. -/
def Effect.takesValue : Effect → Bool
  | .logMode => true
  | _ => false

/-- An option of a level. -/
structure CommandOption where
  /-- The flags that ask for it. -/
  flags : List Text
  /-- What it asks for. -/
  effect : Effect
deriving DecidableEq

/-- The name of an option in an error message. -/
def CommandOption.label (o : CommandOption) : Text := Text.join ['/'] o.flags

/-- How many arguments a positional takes. -/
inductive Arity where
  /-- One argument and everything that follows it. -/
  | command
  /-- At least one argument, and all that follow up to the next option. -/
  | many
  /-- One argument or none. -/
  | optional
deriving DecidableEq

/-- The commands of the program. -/
inductive Verb where
  /-- Validate names. -/
  | check
  /-- List the names in a text. -/
  | scan
  /-- Show examples. -/
  | help
deriving DecidableEq

/-- The levels of the command line. -/
inductive CommandLevel where
  /-- The arguments up to the command. -/
  | root
  /-- The arguments behind a command. -/
  | of (v : Verb)
deriving DecidableEq

/-- All commands, in the order of the help text. -/
def Verb.all : List Verb := [.check, .scan, .help]

/-- The word for a command. -/
def Verb.word : Verb → Text
  | .check => "check".toList
  | .scan => "scan".toList
  | .help => "help".toList

/-- The command of a word. -/
def Verb.ofWord? (t : Text) : Option Verb := Verb.all.find? (·.word == t)

/-- The topics that there are examples for. -/
def topics : List Text := ["examples".toList]

namespace CommandLevel

/-- What the program is called at a level. -/
def program : CommandLevel → Text
  | .root => "fqnkit".toList
  | .of v => "fqnkit ".toList ++ v.word

/-- The option for the help text. -/
def helpOption : CommandOption := ⟨["-h".toList, "--help".toList], .help⟩

/-- The option for JSON. -/
def jsonOption : CommandOption := ⟨["--json".toList], .json⟩

/-- The option for the log mode (`_add_log_mode_arg`). -/
def logModeOption : CommandOption := ⟨["--log-mode".toList], .logMode⟩

/-- The options of a level, in the order in which they are declared. -/
def options : CommandLevel → List CommandOption
  | .root => [helpOption, ⟨["-v".toList, "--version".toList], .version⟩,
      ⟨["-d".toList, "--debug".toList], .debug⟩]
  | .of .check => [helpOption, jsonOption, logModeOption]
  | .of .scan => [helpOption, ⟨["--unique".toList], .unique⟩, jsonOption, logModeOption]
  | .of .help => [helpOption]

/-- How many arguments the positional of a level takes. -/
def arity : CommandLevel → Arity
  | .root => .command
  | .of .check => .many
  | .of .scan => .optional
  | .of .help => .optional

/-- The name of the positional of a level in an error message. -/
def positional : CommandLevel → Text
  | .root => "command".toList
  | .of .check => "names".toList
  | .of .scan => "path".toList
  | .of .help => "topic".toList

/-- The values that the positional of a level is restricted to, if it is. -/
def choices? : CommandLevel → Option (List Text)
  | .root => some (Verb.all.map Verb.word)
  | .of .help => some topics
  | _ => none

end CommandLevel

/-! ## Texts -/

/-- The text of some lines. -/
def textOfLines (lines : List String) : Text := lines.flatMap fun l => l.toList ++ ['\n']

/-- How a level is used. -/
def usageLines : CommandLevel → List String
  | .root => ["usage: fqnkit [-h] [-v] [-d] \x7bcheck,scan,help\x7d ..."]
  | .of .check => [
      "usage: fqnkit check [-h] [--json] [--log-mode \x7bwarning,info,debug\x7d]",
      "                    names [names ...]"]
  | .of .scan => [
      "usage: fqnkit scan [-h] [--unique] [--json] [--log-mode \x7bwarning,info,debug\x7d]",
      "                   [path]"]
  | .of .help => ["usage: fqnkit help [-h] [\x7bexamples\x7d]"]

/-- What the help text of a level says behind the usage. -/
def helpLines : CommandLevel → List String
  | .root => [
      "fqnkit CLI",
      "Validate fully-qualified names and find them in text.",
      "",
      "options:",
      "  -h, --help         show this help message and exit",
      "  -v, --version      Show fqnkit version and exit.",
      "  -d, --debug        Enable debug logging (equivalent to --log-mode debug).",
      "",
      "commands:",
      "      check          Validate dotted names",
      "      scan           List FQN tokens found in text",
      "      help           Show quick examples",
      "",
      "Use 'fqnkit help examples' for copy-paste examples."]
  | .of .check => [
      "positional arguments:",
      "  names                 Dotted names, e.g. a.b.Type",
      "",
      "options:",
      "  -h, --help            show this help message and exit",
      "  --json                Output JSON",
      "  --log-mode \x7bwarning,info,debug\x7d",
      "                        Logging verbosity (default: FQNKIT_LOG_MODE or",
      "                        warning)."]
  | .of .scan => [
      "positional arguments:",
      "  path                  File to scan. Reads stdin when omitted or '-'.",
      "",
      "options:",
      "  -h, --help            show this help message and exit",
      "  --unique              Report each distinct name once, at its first",
      "                        occurrence.",
      "  --json                Output JSON",
      "  --log-mode \x7bwarning,info,debug\x7d",
      "                        Logging verbosity (default: FQNKIT_LOG_MODE or",
      "                        warning)."]
  | .of .help => [
      "positional arguments:",
      "  \x7bexamples\x7d  Help topic",
      "",
      "options:",
      "  -h, --help  show this help message and exit"]

/-- The usage text of a level. -/
def CommandLevel.usage (l : CommandLevel) : Text := textOfLines (usageLines l)

/-- The help text of a level. -/
def CommandLevel.help (l : CommandLevel) : Text := textOfLines (usageLines l ++ "" :: helpLines l)

/-- What is shown when no command is given (`_root_card`). -/
def startCard : Text := textOfLines [
  "fqnkit CLI",
  "",
  "Start here:",
  "  fqnkit check package.module.Type",
  "  fqnkit scan ./source.txt",
  "  cat notes.md | fqnkit scan --unique",
  "",
  "Use 'fqnkit --help' for full options, 'fqnkit help examples' for copy-paste examples."]

/-- The examples (`_examples_card`). -/
def examplesCard : Text := textOfLines [
  "Quick examples:",
  "  fqnkit check a.b.c.Name",
  "  fqnkit check alpha beta.gamma --json",
  "  fqnkit check a..b",
  "  fqnkit scan ./module.src",
  "  fqnkit scan ./module.src --json",
  "  fqnkit scan - --unique < ./module.src"]

/-- The version of the program; without the data of an installation it is a development version
(`_resolve_version`). -/
def versionText (installed : Bool) : Text :=
  if installed then "fqnkit 0.1.0\n".toList else "fqnkit dev\n".toList

end DottedNames.Command

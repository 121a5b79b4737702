import DottedNames.Command.Argument
import DottedNames.Log.Mode

/-!
# Requests

The arguments of the command line become a request: what the user wants done (`parse_args`). The
arguments are taken from left to right, first those of the root level and then, behind a command,
those of the command. An option takes effect where it stands, so a help text that is asked for is
shown even if what follows makes no sense. What no level knows what to do with is left over, and
leftovers are refused at the end, all at once.

Two releases of the parser of arguments (`argparse`) are in use. They differ in what becomes of a
text that is attached to an option and that the option has no use for. The current release, which
the program is about, refuses a value that is none of the choices, whatever it is, and leaves over
the letters of a cluster that are no option. An earlier release loses a value that is the separator
before it looks at the choices, so that the log mode is an empty list, and refuses a cluster as a
whole.
-/

namespace DottedNames.Command

/-- Why no command is run. -/
inductive Stop where
  /-- The help text of a level was asked for. -/
  | help (l : CommandLevel)
  /-- The version was asked for. -/
  | version
  /-- The arguments of a level make no sense. -/
  | misuse (l : CommandLevel) (complaint : Text)
deriving DecidableEq

/-- The releases of the parser of arguments. -/
inductive ParserRelease where
  /-- The release that the program is run with. -/
  | current
  /-- A release before it. -/
  | earlier
deriving DecidableEq

/-- What the arguments of a level amount to. -/
structure Settings where
  /-- Whether debugging was asked for. -/
  debug : Bool := false
  /-- Whether JSON was asked for. -/
  json : Bool := false
  /-- Whether each name should be reported once. -/
  unique : Bool := false
  /-- The log mode that was asked for. -/
  logMode : Option LogMode := none
  /-- Whether the option for the log mode lost its value, which only happens in an earlier
  release. -/
  modeLost : Bool := false
  /-- What the positional took. -/
  operands : Option (List Text) := none
  /-- What is left over. -/
  leftovers : List Text := []
deriving DecidableEq

/-- What a command is asked to do. -/
inductive Job where
  /-- Validate names. -/
  | check (names : List Text) (json : Bool) (logMode : Option LogMode)
  /-- List the names in a file or in the standard input. -/
  | scan (path : Option Text) (unique json : Bool) (logMode : Option LogMode)
  /-- Show examples. -/
  | help
deriving DecidableEq

/-- What the user wants done. -/
structure Request where
  /-- Whether debugging was asked for at the root level. -/
  debug : Bool
  /-- What is to be done, if anything. -/
  job : Option Job
deriving DecidableEq

/-! ## Complaints -/

/-- A complaint about an argument. -/
def complaintAbout (label complaint : Text) : Text :=
  "argument ".toList ++ label ++ ": ".toList ++ complaint

/-- The complaint about a value that is none of the choices. -/
def invalidChoice (value : Text) (choices : List Text) : Text :=
  "invalid choice: ".toList ++ value.quoted ++ " (choose from ".toList ++
    Text.join ", ".toList (choices.map Text.quoted) ++ ")".toList

/-- The complaint about a value that an option does not take. -/
def ignoredValue (value : Text) : Text := "ignored explicit argument ".toList ++ value.quoted

/-- The complaint about what is left over. -/
def unrecognized (leftovers : List Text) : Text :=
  "unrecognized arguments: ".toList ++ Text.join [' '] leftovers

/-! ## Options -/

/-- The settings after an option without a value took effect. -/
def applyEffect (l : CommandLevel) (s : Settings) : Effect → Except Stop Settings
  | .help => .error (.help l)
  | .version => .error .version
  | .debug => .ok { s with debug := true }
  | .json => .ok { s with json := true }
  | .unique => .ok { s with unique := true }
  | .logMode => .ok s

/-- The settings after several options without values took effect, in order. -/
def applyEffects (l : CommandLevel) (s : Settings) : List Effect → Except Stop Settings
  | [] => .ok s
  | w :: ws =>
    match applyEffect l s w with
    | .error stop => .error stop
    | .ok s => applyEffects l s ws

/-- The settings after the log mode option got its value. -/
def applyLogMode (r : ParserRelease) (l : CommandLevel) (s : Settings) (o : CommandOption)
    (value : Text) : Except Stop Settings :=
  if r = .earlier ∧ value = Argument.separatorText then
    .ok { s with logMode := none, modeLost := true }
  else
    match LogMode.ofName? value with
    | some m => .ok { s with logMode := some m, modeLost := false }
    | none =>
      .error (.misuse l
        (complaintAbout o.label (invalidChoice value (LogMode.all.map LogMode.name))))

/-- The refusal of a text that is attached to an option without a value. -/
def refuseAttached (l : CommandLevel) (o : CommandOption) (t : Text) : Stop :=
  .misuse l (complaintAbout o.label (ignoredValue t))

/-- What a cluster of short options amounts to. -/
structure Cluster where
  /-- The effects of its options, in order. -/
  effects : List Effect
  /-- What is left over of it. -/
  leftovers : List Text
deriving DecidableEq

/-- A cluster with an option in front. -/
def Cluster.behind (o : CommandOption) (k : Cluster) : Cluster :=
  { k with effects := o.effect :: k.effects }

/-- The cluster of the option `o` and those whose letters follow. A letter that is no option is left
over, together with what follows it; a dash and what is behind an equals sign are refused. -/
def cluster (l : CommandLevel) (o : CommandOption) : Text → Except Stop Cluster
  | [] => .ok ⟨[o.effect], []⟩
  | c :: rest =>
    if c = '-' then .error (refuseAttached l o (c :: rest))
    else
      match Argument.ofFlag? l ['-', c] with
      | none => .ok ⟨[o.effect], ['-' :: c :: rest]⟩
      | some next =>
        if rest.head? = some '=' then .error (refuseAttached l next rest.tail)
        else (cluster l next rest).map (.behind o)

/-- The cluster as an earlier release reads it: a letter that is no option is refused, together with
what follows it. -/
def clusterEarlier (l : CommandLevel) (o : CommandOption) : Text → Except Stop Cluster
  | [] => .ok ⟨[o.effect], []⟩
  | c :: rest =>
    match Argument.ofFlag? l ['-', c] with
    | none => .error (refuseAttached l o (c :: rest))
    | some next => (clusterEarlier l next rest).map (.behind o)

/-- The cluster that starts with an option and what is attached to its flag. An earlier release
makes no difference between a text behind an equals sign and further letters. -/
def clusterOf (r : ParserRelease) (l : CommandLevel) (o : CommandOption) (a : Attachment) :
    Except Stop Cluster :=
  match r with
  | .current => if a.behindEquals then .error (refuseAttached l o a.text) else cluster l o a.text
  | .earlier => clusterEarlier l o a.text

/-- The settings after an option with something attached to its flag. -/
def applyAttached (r : ParserRelease) (l : CommandLevel) (s : Settings) (o : CommandOption)
    (flag : Text) (a : Attachment) : Except Stop Settings :=
  if o.effect.takesValue then applyLogMode r l s o a.text
  else if a.text.isEmpty ∨ Argument.separatorText.isPrefixOf flag then
    .error (refuseAttached l o a.text)
  else
    match clusterOf r l o a with
    | .error stop => .error stop
    | .ok k => applyEffects l { s with leftovers := s.leftovers ++ k.leftovers } k.effects

/-! ## The positional -/

/-- Whether an argument is the separator. -/
def isSeparator (a : Argument) : Bool := a == .separator

/-- How many of the arguments ahead the positional of a level takes; none if it cannot be filled. -/
def taken : Arity → List Argument → Nat
  | .command, .plain _ :: rest => rest.length + 1
  | .command, .separator :: .plain _ :: rest => rest.length + 2
  | .command, _ => 0
  | .many, args =>
    let run := args.takeWhile fun a => !a.isOption
    if run.all isSeparator then 0 else run.length
  | .optional, args =>
    let leading := args.takeWhile isSeparator
    match args.drop leading.length with
    | .plain _ :: rest => leading.length + 1 + (rest.takeWhile isSeparator).length
    | _ => leading.length

/-- The values of a positional: a command keeps a separator, elsewhere the first one is dropped. -/
def valuesOf (l : CommandLevel) (texts : List Text) : List Text :=
  match l.arity with
  | .command => texts
  | _ => texts.erase Argument.separatorText

/-- The settings after the positional took some arguments. -/
def applyOperands (l : CommandLevel) (s : Settings) (texts : List Text) : Except Stop Settings :=
  let values := valuesOf l texts
  let ok := Except.ok { s with operands := some values }
  match l.choices?, values with
  | some choices, value :: _ =>
    if choices.contains value then ok
    else .error (.misuse l (complaintAbout l.positional (invalidChoice value choices)))
  | _, _ => ok

/-! ## A whole level -/

/-- The settings after the arguments of a level took effect from left to right. -/
def consume (r : ParserRelease) (l : CommandLevel) (s : Settings) :
    List Argument → Except Stop Settings
  | [] => .ok s
  | .unknown t :: rest => consume r l { s with leftovers := s.leftovers ++ [t] } rest
  | .option _ o flag (some attached) :: rest =>
    match applyAttached r l s o flag attached with
    | .error stop => .error stop
    | .ok s => consume r l s rest
  | .option _ o _ none :: rest =>
    if o.effect.takesValue then
      match rest with
      | .plain value :: rest =>
        match applyLogMode r l s o value with
        | .error stop => .error stop
        | .ok s => consume r l s rest
      | _ => .error (.misuse l (complaintAbout o.label "expected one argument".toList))
    else
      match applyEffect l s o.effect with
      | .error stop => .error stop
      | .ok s => consume r l s rest
  | a :: rest =>
    let n := if s.operands.isSome then 0 else taken l.arity (a :: rest)
    if n = 0 then consume r l { s with leftovers := s.leftovers ++ [a.typed] } rest
    else
      match applyOperands l s (((a :: rest).take n).map Argument.typed) with
      | .error stop => .error stop
      | .ok s => consume r l s (rest.drop (n - 1))
termination_by args => args.length
decreasing_by all_goals (simp only [List.length_drop, List.length_cons]; omega)

/-- The settings that the arguments of a level amount to. -/
def parseLevel (r : ParserRelease) (l : CommandLevel) (texts : List Text) : Except Stop Settings :=
  match Argument.readAll l texts with
  | .error complaint => .error (.misuse l complaint)
  | .ok args =>
    match consume r l {} args with
    | .error stop => .error stop
    | .ok s =>
      if l.arity = .many ∧ s.operands = none then
        .error (.misuse l ("the following arguments are required: ".toList ++ l.positional))
      else .ok s

/-! ## The whole command line -/

/-- What a command is asked to do by the settings of its level. -/
def Verb.job (v : Verb) (s : Settings) : Job :=
  let operands := s.operands.getD []
  match v with
  | .check => .check operands s.json s.logMode
  | .scan => .scan operands.head? s.unique s.json s.logMode
  | .help => .help

/-- What the arguments of the command line amount to, level by level. -/
structure CommandLine where
  /-- The settings of the root level. -/
  root : Settings
  /-- The command and the settings of its level, if there is a command. -/
  command : Option (Verb × Settings)
deriving DecidableEq

/-- What is left over at any level. -/
def CommandLine.leftovers (x : CommandLine) : List Text :=
  x.root.leftovers ++ (x.command.map fun c => c.2.leftovers).getD []

/-- Whether the option for the log mode lost its value. -/
def CommandLine.modeLost (x : CommandLine) : Bool := x.command.any fun c => c.2.modeLost

/-- The request that the settings amount to, unless something is left over. -/
def CommandLine.request (x : CommandLine) : Except Stop Request :=
  if x.leftovers.isEmpty then .ok ⟨x.root.debug, x.command.map fun c => c.1.job c.2⟩
  else .error (.misuse .root (unrecognized x.leftovers))

/-- What the arguments of the command line are read as, level by level. -/
def readLevels (r : ParserRelease) (texts : List Text) : Except Stop CommandLine :=
  match parseLevel r .root texts with
  | .error stop => .error stop
  | .ok root =>
    match root.operands with
    | some (word :: rest) =>
      match Verb.ofWord? word with
      | none => .ok ⟨root, none⟩
      | some v =>
        match parseLevel r (.of v) rest with
        | .error stop => .error stop
        | .ok s => .ok ⟨root, some (v, s)⟩
    | _ => .ok ⟨root, none⟩

/-- The request that the arguments of the command line amount to. -/
def parse (r : ParserRelease) (texts : List Text) : Except Stop Request :=
  match readLevels r texts with
  | .error stop => .error stop
  | .ok x => x.request

end DottedNames.Command

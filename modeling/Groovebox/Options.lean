import Groovebox.Step
import Groovebox.Text.Decimal

/-! Options that stand after the name of the program: `--name value`, `--name=value`,
`-n value`, `-nvalue`, and several letters after one dash. -/

namespace Groovebox

structure Options where
  song : Option String := none
  isQuiet : Bool := false
  padSteps : Option UInt32 := none
  commands : Option String := none
  script : Option String := none
  isWatching : Bool := false
  deriving DecidableEq

inductive OptionName where
  | song
  | quiet
  | padSteps
  | commands
  | script
  | watch
  | help
  deriving DecidableEq, Repr

namespace OptionName

def ofLong? : String → Option OptionName
  | "open" => some .song
  | "quiet" => some .quiet
  | "pad-steps" => some .padSteps
  | "exec" => some .commands
  | "script" => some .script
  | "watch" => some .watch
  | "help" => some .help
  | _ => none

def ofLetter? : Char → Option OptionName
  | 'o' => some .song
  | 'q' => some .quiet
  | 'e' => some .commands
  | 'w' => some .watch
  | 'h' => some .help
  | _ => none

def takesValue : OptionName → Bool
  | .song | .padSteps | .commands | .script => true
  | .quiet | .watch | .help => false

def long : OptionName → String
  | .song => "--open"
  | .quiet => "--quiet"
  | .padSteps => "--pad-steps"
  | .commands => "--exec"
  | .script => "--script"
  | .watch => "--watch"
  | .help => "--help"

end OptionName

inductive UsageFault where
  | unexpected (argument : String)
  | noValue (name : OptionName)
  | unwantedValue (name : OptionName)
  | badValue (name : OptionName) (value : String)
  | repeated (name : OptionName)
  | conflict (first second : OptionName)
  | needed (name : OptionName) (missing : OptionName)
  deriving DecidableEq

def UsageFault.message : UsageFault → String
  | .unexpected argument => "unexpected argument '" ++ argument ++ "'"
  | .noValue name => s!"{name.long} needs a value"
  | .unwantedValue name => s!"{name.long} takes no value"
  | .badValue name value => s!"{name.long} cannot be '" ++ value ++ "'"
  | .repeated name => s!"{name.long} is given twice"
  | .conflict first second => s!"{first.long} cannot stand with {second.long}"
  | .needed name missing => s!"{name.long} needs {missing.long}"

structure Setting where
  name : OptionName
  value : String := ""

namespace Options

/-- What one argument gives: settings, up to a fault or an option that still has to
get its value. -/
inductive Given where
  | done
  | fault (fault : UsageFault)
  | waiting (name : OptionName)

def ofLetters : List Char → List Setting × Given
  | [] => ([], .done)
  | c :: rest =>
    match OptionName.ofLetter? c with
    | none => ([], .fault (.unexpected (String.ofList ['-', c])))
    | some name =>
      if name.takesValue then
        match rest with
        | [] => ([], .waiting name)
        | '=' :: value | value => ([⟨name, String.ofList value⟩], .done)
      else
        let (settings, given) := ofLetters rest
        (⟨name, ""⟩ :: settings, given)

def ofLong (argument : List Char) : List Setting × Given :=
  let text := argument.takeWhile (· ≠ '=')
  match OptionName.ofLong? (String.ofList text), argument.drop text.length with
  | none, _ => ([], .fault (.unexpected (String.ofList ('-' :: '-' :: argument))))
  | some name, [] => if name.takesValue then ([], .waiting name) else ([⟨name, ""⟩], .done)
  | some name, _ :: value =>
    if name.takesValue then ([⟨name, String.ofList value⟩], .done)
    else ([], .fault (.unwantedValue name))

/-- Read an argument. Options begin with a dash and have more after it. -/
def ofArgument (argument : String) : List Setting × Given :=
  match argument.toList with
  | '-' :: '-' :: rest => ofLong rest
  | '-' :: c :: rest => ofLetters (c :: rest)
  | _ => ([], .fault (.unexpected argument))

/-- The settings in their order, each of which may be a fault instead. No option
follows two lone dashes. -/
def settings : List String → List (Except UsageFault Setting)
  | [] => []
  | "--" :: rest => rest.map fun argument => .error (.unexpected argument)
  | argument :: rest =>
    let (given, stop) := ofArgument argument
    given.map .ok ++
      match stop with
      | .done => settings rest
      | .fault fault => [.error fault]
      | .waiting name =>
        match rest with
        | [] => [.error (.noValue name)]
        | value :: rest =>
          if value.startsWith "-" ∧ value ≠ "-" then [.error (.noValue name)]
          else .ok ⟨name, value⟩ :: settings rest

/-- Put a setting into effect; none may come twice. -/
def set (o : Options) (s : Setting) : Except UsageFault Options :=
  match s.name with
  | .song => if o.song.isSome then again else .ok { o with song := some s.value }
  | .quiet => if o.isQuiet then again else .ok { o with isQuiet := true }
  | .padSteps =>
    if o.padSteps.isSome then again
    else
      match Text.readNumber maxStep s.value.toList with
      | .ok (n + 1) => .ok { o with padSteps := some (UInt32.ofNat (n + 1)) }
      | _ => .error (.badValue .padSteps s.value)
  | .commands => if o.commands.isSome then again else .ok { o with commands := some s.value }
  | .script => if o.script.isSome then again else .ok { o with script := some s.value }
  | .watch => if o.isWatching then again else .ok { o with isWatching := true }
  | .help => .ok o
where
  again : Except UsageFault Options := .error (.repeated s.name)

def follow (o : Options) : List (Except UsageFault Setting) → Except UsageFault (Option Options)
  | [] =>
    if o.commands.isSome ∧ o.script.isSome then .error (.conflict .script .commands)
    else if o.isWatching ∧ o.song.isNone then .error (.needed .watch .song)
    else .ok (some o)
  | .error fault :: _ => .error fault
  | .ok s :: rest => if s.name = .help then .ok none else do follow (← o.set s) rest

def ofArguments (arguments : List String) : Except UsageFault (Option Options) :=
  follow {} (settings arguments)

def help : String := "\n".intercalate [
  "Pad-loop pattern editor REPL",
  "",
  "Usage: padloop [OPTIONS]",
  "",
  "Options:",
  "  -o, --open <FILE>      Open a YAML or JSON song on start",
  "  -q, --quiet            Reduce startup banner output",
  "      --pad-steps <N>    Pad length for new tracks (overrides PADLOOP_DEFAULT_PAD_STEPS)",
  "  -e, --exec <COMMANDS>  Run `;`-separated commands and exit",
  "      --script <FILE>    Run commands from a file, one per line, and exit",
  "  -w, --watch            Reload the opened song when it changes on disk",
  "  -h, --help             Print help",
  ""]

end Options

end Groovebox

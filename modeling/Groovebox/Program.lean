import Groovebox.Config
import Groovebox.History
import Groovebox.Options
import Groovebox.Script
import Groovebox.Text.Backspace
import Groovebox.Variables

/-! The program as a whole: from the options it is started with to the code that it
ends with. It runs a script, or it talks with the person at the keyboard. -/

namespace Groovebox

open Text

structure Surroundings where
  arguments : List String
  environment : Variables := {}
  folder : Folder := {}

structure Talk where
  session : Session
  history : History := {}
  historyFile : Option String := none
  /-- The song that is read again when it changes. -/
  watched : Option String := none

namespace Talk

def prompt (t : Talk) : String :=
  Display.prompt t.session.editor.song.bpm t.session.editor.drag.isSome

/-- Answer a line as it was typed. The talk goes on unless the answer says that it is
over. -/
def enter (t : Talk) (typed : List Char) : Printed × Bool × Talk :=
  let line := String.ofList (applyBackspaces typed)
  if (trim line.toList).isEmpty then ({}, false, t)
  else
    let (outcome, after) := t.session.enter line
    let (messages, after) := after.takeLog
    let logged := Printed.log messages
    let t := { t with session := after, history := t.history.add line }
    match outcome with
    | .ok .silence => (logged, false, t)
    | .ok (.text shown) => (.outLine shown ++ logged, false, t)
    | .ok .quit => (.outLine Display.goodbye ++ logged, true, t)
    | .error fault => (.errLine s!"error: {fault.message}" ++ logged, false, t)

/-- Take note of the folder as it has become. A watched song that changed is read. -/
def refresh (t : Talk) (folder : Folder) : Printed × Talk :=
  let seen := { t with session.folder := folder }
  match t.watched with
  | none => ({}, seen)
  | some path =>
    if (folder.read path).toOption = (t.session.folder.read path).toOption then ({}, seen)
    else
      match Session.readSong folder path with
      | .error fault => (.log [warning s!"reload skipped: {fault.message}"], seen)
      | .ok song =>
        (.log [⟨.info, s!"reloaded: {path}"⟩],
          { seen with session.editor := seen.session.editor.replaceSong song })

/-- The folder at the end. A history without new lines is not written, and where it
cannot be written it is lost. -/
def finish (t : Talk) : Folder :=
  match t.historyFile with
  | none => t.session.folder
  | some path =>
    if t.history.isNew then
      match t.session.folder.write path t.history.write with
      | .error _ => t.session.folder
      | .ok folder => folder
    else t.session.folder

def run (t : Talk) : List (List Char) → Printed × Folder
  | [] => (.outLine Display.goodbye, t.finish)
  | line :: rest =>
    match t.enter line with
    | (printed, true, t) => (printed, t.finish)
    | (printed, false, t) =>
      let (more, folder) := t.run rest
      (printed ++ more, folder)

end Talk

inductive Launch where
  | exit (code : Nat) (folder : Folder)
  | talk (talk : Talk)

namespace Program

/-- The cause number `number` of a failure; a lone cause has no number. -/
def causeLine (number : Option Nat) (cause : String) : String :=
  match number with
  | none => s!"    {cause}"
  | some number => padLeft 5 (toString number) ++ s!": {cause}"

def failureReport : List String → String
  | [] => ""
  | [attempt] => s!"Error: {attempt}"
  | [attempt, cause] => s!"Error: {attempt}\n\nCaused by:\n{causeLine none cause}"
  | attempt :: causes =>
    let numbered := causes.zipIdx.map fun (cause, i) => causeLine (some i) cause
    "\n".intercalate ([s!"Error: {attempt}", "", "Caused by:"] ++ numbered)

def fail (chain : List String) (folder : Folder) : Printed × Launch :=
  (.errLine (failureReport chain), .exit 1 folder)

def runScript (s : Session) (text : String) : Printed × Launch :=
  let done := Script.run s text
  match done.fault with
  | none => (done.printed, .exit 0 done.session.folder)
  | some fault =>
    let (report, launch) := fail fault.chain done.session.folder
    (done.printed ++ report, launch)

def banner (e : Editor) (config : Config) : Printed :=
  let top := s!"PADLOOP REPL — bpm: {e.song.bpm.toNat} tracks: {e.song.tracks.length} " ++
    s!"pad steps: {e.padSteps.toNat} (type :help)"
  match config.history with
  | some _ => .outLine top
  | none => .outLine top ++ .outLine ("set " ++ Config.historyVariable ++ " to keep history")

def startTalk (o : Options) (config : Config) (s : Session) : Printed × Launch :=
  let history := match config.history.map s.folder.read with
    | some (.ok text) => History.read text
    | _ => {}
  let greeting : Printed := if o.isQuiet then {} else banner s.editor config
  let watched := if o.isWatching then o.song else none
  let watching : Printed := match watched with
    | some path => .outLine s!"watching: {path}"
    | none => {}
  (greeting ++ watching, .talk { session := s, history, historyFile := config.history, watched })

/-- The song that a program starts with: the one asked for, or an empty one where
that cannot be read. -/
def openSong (folder : Folder) : Option String → Printed × Song
  | none => ({}, {})
  | some path =>
    match Session.readSong folder path with
    | .ok song => ({}, song)
    | .error fault =>
      let text := s!"failed to open {path}: {fault.message}; starting new song"
      (.log [⟨.error, text⟩], {})

def configure (environment : Variables) (folder : Folder) : Config × List LogMessage :=
  let environment := match folder.read ".env" with
    | .ok text => environment.load text
    | .error _ => environment
  Config.ofVariables environment.get?

def startWith (o : Options) (environment : Variables) (folder : Folder) : Printed × Launch :=
  let (config, messages) := configure environment folder
  let (opening, song) := openSong folder o.song
  let editor : Editor := { song, padSteps := o.padSteps.getD config.padSteps }
  let session : Session := { editor, folder }
  let (printed, launch) := match o.commands, o.script with
    | some commands, _ => runScript session commands
    | none, some path =>
      match folder.read path with
      | .error fault => fail [s!"read script {path}", fault.message] folder
      | .ok text => runScript session text
    | none, none => startTalk o config session
  (.log messages ++ opening ++ printed, launch)

def start (s : Surroundings) : Printed × Launch :=
  match Options.ofArguments s.arguments with
  | .error fault => (.errLine s!"error: {fault.message}", .exit 2 s.folder)
  | .ok none => ({ out := Options.help }, .exit 0 s.folder)
  | .ok (some o) => startWith o s.environment s.folder

/-- The paths that lines of commands may follow. -/
def pathsOfLine (line : List Char) : List String :=
  (Command.splitLine (applyBackspaces line)).filterMap fun text =>
    match words? (trim text) with
    | some (name :: path :: _) =>
      if name = "open".toList ∨ name = "save".toList then some (String.ofList path) else none
    | _ => none

/-- The paths that matter at the start, as far as what is known of the folder tells. -/
def pathsAtStart (s : Surroundings) : List String :=
  match Options.ofArguments s.arguments with
  | .ok (some o) =>
    let script := match o.script.map s.folder.read with
      | some (.ok text) => text
      | _ => o.commands.getD ""
    [".env"] ++ o.song.toList ++ o.script.toList ++
      (configure s.environment s.folder).1.history.toList ++
      (lines script.toList).flatMap pathsOfLine
  | _ => []

/-- The variables that matter: the settings and what the file `.env` may refer to. -/
def variableNames (folder : Folder) : List String :=
  let text := match folder.read ".env" with
    | .ok text => text.toList
    | .error _ => []
  [Config.padStepsVariable, Config.historyVariable] ++
    (Variables.references text).map String.ofList

structure Ending where
  code : Nat
  printed : Printed
  folder : Folder

def run (s : Surroundings) (input : String) : Ending :=
  match start s with
  | (printed, .exit code folder) => ⟨code, printed, folder⟩
  | (printed, .talk talk) =>
    let (more, folder) := talk.run (lines input.toList)
    ⟨0, printed ++ more, folder⟩

end Program

end Groovebox

import Groovebox.Program

/-! The program at a terminal: it looks up on the disk what a line may ask for, lets
the library answer, and prints and stores what comes of it. -/

namespace Groovebox.Terminal

def pathOf : List String → String
  | "/" :: names => "/" ++ "/".intercalate names
  | names => "/".intercalate names

/-- What lies at a place. A folder can be opened but holds no text. -/
def look (names : List String) : IO (Option Entry) := do
  match ← (IO.FS.Handle.mk (pathOf names) .read).toBaseIO with
  | .error _ => return none
  | .ok handle =>
    match ← (handle.readToEnd).toBaseIO with
    | .error _ => return some .folder
    | .ok text => return some (.file text)

def lookUp (folder : Folder) (paths : List String) : IO Folder :=
  (paths.flatMap Folder.places).foldlM (fun folder names => do
    match ← look names with
    | none => return folder.remove names
    | some entry => return folder.put names entry) folder

def store (before after : Folder) : IO Unit :=
  (Folder.newTexts before after).forM fun (names, text) => do
    match ← (IO.FS.writeFile (pathOf names) text).toBaseIO with
    | .ok _ => return ()
    | .error fault => IO.eprintln s!"error: {fault}"

def print (printed : Printed) : IO Unit := do
  IO.print printed.out
  IO.eprint printed.err
  (← IO.getStdout).flush

def lookUpVariables (folder : Folder) : IO Variables :=
  (Program.variableNames folder).foldlM (fun found name => do
    match ← IO.getEnv name with
    | none => return found
    | some value => return found.add name value) {}

/-- Look around until the folder tells no more of what matters. -/
def surroundings (arguments : List String) : IO Surroundings := do
  let mut found : Surroundings := { arguments }
  for _ in [0, 1, 2] do
    let folder ← lookUp found.folder (Program.pathsAtStart found)
    found := { found with folder, environment := ← lookUpVariables folder }
  return found

partial def converse (input : IO.FS.Stream) (talk : Talk) : IO Unit := do
  let folder ← lookUp talk.session.folder talk.watched.toList
  let (news, talk) := talk.refresh folder
  print news
  if ← input.isTty then print { out := talk.prompt }
  let line ← input.getLine
  let folder ← lookUp talk.session.folder (Program.pathsOfLine line.toList)
  let talk := { talk with session.folder := folder }
  if line.isEmpty then
    print (.outLine Display.goodbye)
    store folder talk.finish
  else
    let (printed, isOver, talk) := talk.enter (Text.withoutEnd line.toList)
    print printed
    if isOver then store folder talk.finish
    else
      store folder talk.session.folder
      converse input talk

end Groovebox.Terminal

open Groovebox Terminal in
def main (arguments : List String) : IO UInt32 := do
  let found ← surroundings arguments
  let (printed, launch) := Program.start found
  print printed
  match launch with
  | .exit code folder =>
    store found.folder folder
    return UInt32.ofNat code
  | .talk talk =>
    converse (← IO.getStdin) talk
    return 0

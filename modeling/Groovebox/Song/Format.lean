import Groovebox.Json.Printer
import Groovebox.Json.Reader
import Groovebox.Yaml.Printer
import Groovebox.Yaml.Reader
import Groovebox.Folder

/-! Songs as text, in one of two formats. -/

namespace Groovebox

inductive Format where
  | yaml
  | json
  deriving DecidableEq, Repr

/-- Files named `.json` are JSON, in letters of either case; all others are YAML. -/
def Format.ofPath (path : String) : Format :=
  if (Path.extension? path).any fun e => e.map Char.toLower = "json" then .json else .yaml

inductive ReadError where
  | json (fault : Json.Fault)
  | yaml
  deriving DecidableEq, Repr

def ReadError.message : ReadError → String
  | .json .malformed => "malformed JSON"
  | .json .unfit => "JSON of another shape than a song"
  | .json .unfinished => "JSON that breaks off"
  | .yaml => "not a song in YAML"

def Song.write (song : Song) : Format → String
  | .yaml => Yaml.print song.toTree
  | .json => Json.print song.toTree

def Song.read (text : String) : Format → Except ReadError Song
  | .yaml =>
    match Yaml.readSong text with
    | some song => .ok song
    | none => .error .yaml
  | .json =>
    match Json.readSong text with
    | .ok song => .ok song
    | .error fault => .error (.json fault)

end Groovebox

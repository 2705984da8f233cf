/-! Paths of files, written with slashes, and the working folder: the texts and folders
that paths lead to from it. -/

namespace Groovebox

namespace Path

/-- The parts between slashes. Empty parts and dots add nothing. -/
def parts (path : String) : List String :=
  (path.splitOn "/").filter fun part => part ≠ "" ∧ part ≠ "."

/-- The last part, unless it leads back to the folder above. -/
def fileName? (path : String) : Option String :=
  (parts path).getLast?.bind fun name => if name = ".." then none else some name

/-- What stands behind the last dot of a name. A dot that begins the name does not
count. -/
def nameExtension? (name : List Char) : Option (List Char) :=
  let after := name.reverse.takeWhile (· ≠ '.')
  if name.length ≤ after.length + 1 then none else some after.reverse

def extension? (path : String) : Option String :=
  (fileName? path).bind fun name => (nameExtension? name.toList).map String.ofList

end Path

inductive Entry where
  | folder
  | file (text : String)
  deriving DecidableEq, Repr

inductive FileFault where
  | missing
  | isFolder
  | notFolder
  | nameTooLong
  | nulCharacter
  deriving DecidableEq, Repr

def FileFault.message : FileFault → String
  | .missing => "No such file or directory (os error 2)"
  | .isFolder => "Is a directory (os error 21)"
  | .notFolder => "Not a directory (os error 20)"
  | .nameTooLong => "File name too long (os error 36)"
  | .nulCharacter => "file name contained an unexpected NUL byte"

/-- What is known, by the names that lead there. Names `..` at the front lead out of
the working folder, and a name `/` leads to the root of all folders. -/
structure Folder where
  entries : List (List String × Entry) := []
  deriving Inhabited

inductive Place where
  | folder
  | file (names : List String) (text : String)
  | free (names : List String)
  | fileAsFolder
  | freeFolder
  deriving DecidableEq, Repr

namespace Folder

def entry? (f : Folder) (names : List String) : Option Entry :=
  if names.all fun name => name = ".." || name = "/" then some .folder
  else (f.entries.find? (·.1 = names)).map (·.2)

def above (names : List String) : List String :=
  if names = ["/"] then names
  else if names.all (· = "..") then names ++ [".."]
  else names.dropLast

def follow (f : Folder) (here : List String) : List String → Except FileFault Place
  | [] => .ok .folder
  | part :: rest =>
    if part = "" ∨ part = "." then f.follow here rest
    else if part = ".." then f.follow (above here) rest
    else if 255 < part.utf8ByteSize then .error .nameTooLong
    else
      let there := here ++ [part]
      match f.entry? there with
      | some .folder => f.follow there rest
      | some (.file text) =>
        if rest.isEmpty then .ok (.file there text)
        else if rest.all (· = "") then .ok .fileAsFolder
        else .error .notFolder
      | none =>
        if rest.isEmpty then .ok (.free there)
        else if rest.all (· = "") then .ok .freeFolder
        else .error .missing

/-- The length from which on no path is followed, in bytes. -/
def pathLimit : Nat := 4096

def locate (f : Folder) (path : String) : Except FileFault Place :=
  if path.toList.contains '\x00' then .error .nulCharacter
  else if path.isEmpty then .error .missing
  else if pathLimit ≤ path.utf8ByteSize then .error .nameTooLong
  else f.follow (if path.startsWith "/" then ["/"] else []) (path.splitOn "/")

def put (f : Folder) (names : List String) (entry : Entry) : Folder :=
  ⟨f.entries.filter (·.1 ≠ names) ++ [(names, entry)]⟩

def read (f : Folder) (path : String) : Except FileFault String := do
  match ← f.locate path with
  | .file _ text => return text
  | .folder => throw .isFolder
  | .fileAsFolder => throw .notFolder
  | .free _ | .freeFolder => throw .missing

def write (f : Folder) (path text : String) : Except FileFault Folder := do
  match ← f.locate path with
  | .file names _ | .free names => return f.put names (.file text)
  | .folder | .fileAsFolder | .freeFolder => throw .isFolder

def addFolder (f : Folder) (names : List String) : Folder :=
  (List.range names.length).foldl (fun f n => f.put (names.take (n + 1)) .folder) f

def add (f : Folder) (path text : String) : Folder :=
  let names := Path.parts path
  if path.endsWith "/" then f.addFolder names
  else (f.addFolder names.dropLast).put names (.file text)

def remove (f : Folder) (names : List String) : Folder := ⟨f.entries.filter (·.1 ≠ names)⟩

def places (path : String) : List (List String) :=
  let start := if path.startsWith "/" then ["/"] else []
  let parts := Path.parts path
  (List.range parts.length).map fun n => start ++ parts.take (n + 1)

def newTexts (before after : Folder) : List (List String × String) :=
  after.entries.filterMap fun
    | (names, .file text) =>
      if before.entry? names = some (.file text) then none else some (names, text)
    | _ => none

def files (f : Folder) : List (String × String) :=
  f.entries.filterMap fun
    | ([name], .file text) => some (name, text)
    | _ => none

def names (f : Folder) : List String :=
  f.entries.filterMap fun
    | ([name], _) => some name
    | _ => none

end Folder

end Groovebox

import Groovebox.Text.Alphanumeric
import Groovebox.Text.Lines
import Groovebox.Text.Decimal

/-! Named variables, and files of them: lines `NAME=value`, with comments, quotes and
references to other variables. A line goes on after its end while a quote is open. -/

namespace Groovebox

open Text

structure Variables where
  entries : List (String × String) := []
  deriving Inhabited

namespace Variables

def get? (v : Variables) (name : String) : Option String := v.entries.lookup name

def add (v : Variables) (name value : String) : Variables :=
  if (v.get? name).isSome then v else ⟨v.entries ++ [(name, value)]⟩

inductive LineMode where
  | plain
  | escape
  | blank
  | comment
  | quoted (quote : Char) (escaped : Bool)
  deriving DecidableEq, Repr

def lineStep : LineMode → Char → LineMode
  | .plain, c =>
    if isBlank c ∧ c ≠ '\n' ∧ c ≠ '\r' then .blank else opening c
  | .blank, c => if c = '#' then .comment else opening c
  | .escape, _ => .plain
  | .comment, _ => .comment
  | .quoted quote true, _ => .quoted quote false
  | .quoted quote false, c =>
    if c = '\\' then .quoted quote true else if c = quote then .plain else .quoted quote false
where
  opening (c : Char) : LineMode :=
    if c = '\\' then .escape else if c = '"' ∨ c = '\'' then .quoted c false else .plain

def scanLine (mode : LineMode) : List Char → LineMode × List Char
  | [] => (mode, [])
  | c :: rest =>
    match lineStep mode c with
    | .comment => (.comment, [])
    | next =>
      let (stop, kept) := scanLine next rest
      (stop, c :: kept)

/-- Join lines until each is complete. One that is not at the end of the text counts
as none. -/
def joinLines : LineMode → List Char → List (List Char) → List (Option (List Char))
  | mode, _, [] => if mode = .plain then [] else [none]
  | mode, before, line :: rest =>
    if (trimStart (before ++ line)).head? = some '#' then some [] :: joinLines .plain [] rest
    else
      match scanLine mode line with
      | (.comment, kept) => some (before ++ kept) :: joinLines .plain [] rest
      | (.plain, _) => some (withoutEnd (before ++ line)) :: joinLines .plain [] rest
      | (next, _) => joinLines next (before ++ line) rest

def splitName? (line : List Char) : Option (List Char × List Char) :=
  match line with
  | c :: _ =>
    if c.isAlpha ∨ c = '_' then
      let name := line.takeWhile fun c => c.isAlphanum || c = '_' || c = '.'
      some (name, line.drop name.length)
    else none
  | [] => none

def dropEqual? : List Char → Option (List Char)
  | '=' :: rest => some rest
  | _ => none

/-- Split a line into a name and the text of a value. The word `export` may stand
before the name. -/
def splitLine? (line : List Char) : Option (List Char × List Char) := do
  let (name, rest) ← splitName? line
  match dropEqual? (trimStart rest) with
  | some value => return (name, trimStart value)
  | none =>
    if name = "export".toList then
      let (name, rest) ← splitName? (trimStart rest)
      return (name, trimStart (← dropEqual? (trimStart rest)))
    else none

structure ValueReader where
  value : List Char := []
  quote : Option Char := none
  escaped : Bool := false
  ended : Bool := false
  /-- The name of a reference that is being read, and whether braces enclose it. -/
  reference : Option (Bool × List Char) := none

namespace ValueReader

def push (r : ValueReader) (text : List Char) : ValueReader := { r with value := r.value ++ text }

def resolve (v : Variables) (name : List Char) : List Char :=
  ((v.get? (String.ofList name)).getD "").toList

def escape? (c : Char) : Option Char :=
  if c = '\\' ∨ c = '\'' ∨ c = '"' ∨ c = '$' ∨ c = ' ' then some c
  else if c = 'n' then some '\n'
  else none

def stepReference (v : Variables) (r : ValueReader) (braced : Bool) (name : List Char)
    (c : Char) : ValueReader :=
  if isAlphanumeric c then { r with reference := some (braced, name ++ [c]) }
  else if braced then
    if c = '\x7d' then { r.push (resolve v name) with reference := none }
    else { r with reference := some (true, name ++ [c]) }
  else if c = '\x7b' ∧ name = [] then { r with reference := some (true, []) }
  else
    let r := r.push (resolve v name)
    if c = '$' then { r with reference := some (false, []) }
    else { r.push [c] with reference := none }

def stepPlain (r : ValueReader) (c : Char) : ValueReader :=
  if c = '$' then { r with reference := some (false, []) }
  else if c = '\\' then { r with escaped := true }
  else
    match r.quote with
    | some quote => if c = quote then { r with quote := none } else r.push [c]
    | none =>
      if c = '\'' ∨ c = '"' then { r with quote := some c }
      else if c = ' ' ∨ c = '\t' then { r with ended := true }
      else r.push [c]

def read? (v : Variables) (r : ValueReader) : List Char → Option (List Char)
  | [] =>
    match r.reference with
    | some (true, _) => none
    | some (false, name) => if r.quote.isSome then none else some (r.value ++ resolve v name)
    | none => if r.quote.isSome then none else some r.value
  | c :: rest =>
    if r.ended then
      if c = ' ' ∨ c = '\t' then read? v r rest else if c = '#' then some r.value else none
    else if r.escaped then
      (escape? c).bind fun c => read? v { r.push [c] with escaped := false } rest
    else if r.quote = some '\'' then
      read? v (if c = '\'' then { r with quote := none } else r.push [c]) rest
    else
      match r.reference with
      | some (braced, name) => read? v (r.stepReference v braced name c) rest
      | none => read? v (r.stepPlain c) rest

end ValueReader

/-- The names that references in a text may have, with and without braces. -/
def references : List Char → List (List Char)
  | [] => []
  | '$' :: rest =>
    let braced := match rest with
      | '\x7b' :: rest => [rest.takeWhile (· ≠ '\x7d')]
      | _ => []
    rest.takeWhile isAlphanumeric :: braced ++ references rest
  | _ :: rest => references rest

/-- What a complete line does. No answer means that it cannot be read. -/
def loadLine (v : Variables) (line : List Char) : Option Variables :=
  let line := trim line
  if line.isEmpty ∨ line.head? = some '#' then some v
  else do
    let (name, text) ← splitLine? line
    let value ← if text.head? = some '#' then some [] else ValueReader.read? v {} text
    return v.add (String.ofList name) (String.ofList value)

def loadLines (v : Variables) : List (Option (List Char)) → Variables
  | [] => v
  | none :: _ => v
  | some line :: rest =>
    match loadLine v line with
    | none => v
    | some v => loadLines v rest

/-- Add what a file says of variables that are not there yet. -/
def load (v : Variables) (text : String) : Variables :=
  let characters := match text.toList with
    | '\uFEFF' :: rest => rest
    | all => all
  v.loadLines (joinLines .plain [] (endedLines characters))

end Variables

end Groovebox

import Groovebox.Text.Lines

/-! Lines of commands. Semicolons outside quotes stand between commands. Blanks, tabs and
line ends stand between the words of a command, a `#` where a word could begin opens a
comment, and quotes and backslashes keep characters from having such a meaning. -/

namespace Groovebox

namespace Command

def quoteAfter : Option Char → Char → Option Char
  | none, c => if c = '"' ∨ c = '\'' then some c else none
  | some quote, c => if c = quote then none else some quote

/-- The pieces between separating semicolons, of which there is at least one. -/
def pieces : Option Char → List Char → List (List Char)
  | _, [] => [[]]
  | quote, c :: rest =>
    if quote = none ∧ c = ';' then [] :: pieces none rest
    else (pieces (quoteAfter quote c) rest).modifyHead (c :: ·)

def splitLine (line : List Char) : List (List Char) :=
  (pieces none line).filter fun piece => !piece.all Text.isBlank

theorem pieces_ne_nil (quote : Option Char) (line : List Char) : pieces quote line ≠ [] := by
  induction line generalizing quote with
  | nil => simp [pieces]
  | cons c rest ih =>
    simp only [pieces]
    split
    · simp
    · cases h : pieces (quoteAfter quote c) rest with
      | nil => exact absurd h (ih _)
      | cons => simp

end Command

namespace Text

inductive WordMode where
  | gap
  | comment
  | bare
  | bareEscape
  | single
  | double
  | doubleEscape
  deriving DecidableEq, Repr

def isSeparator (c : Char) : Bool := c = ' ' || c = '\t' || c = '\n'

def bareStep (c : Char) : WordMode × List Char :=
  if isSeparator c then (.gap, [])
  else if c = '\'' then (.single, [])
  else if c = '"' then (.double, [])
  else if c = '\\' then (.bareEscape, [])
  else (.bare, [c])

/-- Where a character leads, and what it adds to the word. Between double quotes a
backslash has a meaning only before the characters that have one there. -/
def wordStep : WordMode → Char → WordMode × List Char
  | .gap, c => if c = '#' then (.comment, []) else bareStep c
  | .comment, c => (if c = '\n' then .gap else .comment, [])
  | .bare, c => bareStep c
  | .bareEscape, c => (.bare, if c = '\n' then [] else [c])
  | .single, c => if c = '\'' then (.bare, []) else (.single, [c])
  | .double, c =>
    if c = '"' then (.bare, []) else if c = '\\' then (.doubleEscape, []) else (.double, [c])
  | .doubleEscape, c =>
    if c = '\n' then (.double, [])
    else if c = '$' || c = '\x60' || c = '"' || c = '\\' then (.double, [c])
    else (.double, ['\\', c])

/-- Read on in a word that begins with `word`. A text must not end within quotes or
right after a backslash. -/
def wordsFrom : WordMode → List Char → List Char → Option (List (List Char))
  | .gap, _, [] => some []
  | .comment, _, [] => some []
  | .bare, word, [] => some [word]
  | _, _, [] => none
  | mode, word, c :: rest =>
    let (next, added) := wordStep mode c
    if mode = .bare ∧ next = .gap then (wordsFrom .gap [] rest).map (word :: ·)
    else wordsFrom next (word ++ added) rest

def words? (text : List Char) : Option (List (List Char)) := wordsFrom .gap [] text

end Text

end Groovebox

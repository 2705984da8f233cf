/-! What a YAML text is made of: classes of characters, places, and the tokens that are read
from it. Blocks begin and end with tokens of their own. -/

namespace Groovebox.Yaml

def isBreak (c : Char) : Bool := c = '\n' || c = '\x0d' || c = '\x85' || c = '\u2028' || c = '\u2029'

def isBlankOrEnd : Option Char → Bool
  | none => true
  | some c => c = ' ' || c = '\t' || isBreak c || c = '\x00'

def isPrintable (c : Char) : Bool :=
  let n := c.toNat
  n = 0x0a || (0x20 ≤ n && n ≤ 0x7e) || (0xa0 ≤ n && n ≤ 0xd7ff) ||
    (0xe000 ≤ n && n ≤ 0xfffd && n ≠ 0xfeff) || 0x10000 ≤ n

def isBlank (c : Char) : Bool := c = ' ' || c = '\t'

/-- Characters that a text may hold at all. -/
def isAllowed (c : Char) : Bool :=
  isPrintable c || c = '\t' || c = '\x0d' || c = '\x85' || c = '\ufeff'

/-- Write each break of a line as one newline. The separators of lines and
paragraphs stay. -/
def unifyBreaks : List Char → List Char
  | [] => []
  | '\x0d' :: '\n' :: rest => '\n' :: unifyBreaks rest
  | c :: rest => (if c = '\x0d' || c = '\x85' then '\n' else c) :: unifyBreaks rest

/-- A place in a text: what follows, and how far in its line it is. -/
structure Cursor where
  rest : List Char
  index : Nat := 0
  line : Nat := 0
  column : Nat := 0

namespace Cursor

def next (c : Cursor) : Cursor :=
  match c.rest with
  | [] => c
  | ch :: rest =>
    if isBreak ch then ⟨rest, c.index + ch.utf8Size, c.line + 1, 0⟩
    else ⟨rest, c.index + ch.utf8Size, c.line, c.column + 1⟩

def skip : Nat → Cursor → Cursor
  | 0, c => c
  | n + 1, c => skip n c.next

def skipWhile (p : Char → Bool) (c : Cursor) : Cursor := c.skip (c.rest.takeWhile p).length

def isBlankAt (c : Cursor) (n : Nat) : Bool := isBlankOrEnd c.rest[n]?

def isAtMark (c : Cursor) (mark : Char) : Bool :=
  c.column = 0 && c.rest.take 3 = [mark, mark, mark] && c.isBlankAt 3

def isAtBoundary (c : Cursor) : Bool := c.isAtMark '-' || c.isAtMark '.'

end Cursor

inductive Style where
  | plain
  | quoted
  | literal
  | folded
  deriving DecidableEq, Repr

inductive Token where
  | documentStart
  | documentEnd
  | version (major minor : Nat)
  | tagPrefix (handle uri : String)
  | blockSequence
  | blockMapping
  | blockEnd
  | flowSequence
  | flowSequenceEnd
  | flowMapping
  | flowMappingEnd
  | blockEntry
  | flowEntry
  | key
  | value
  | alias (name : String)
  | anchor (name : String)
  | tag (handle suffix : String)
  | scalar (style : Style) (text : String)
  deriving DecidableEq, Repr

end Groovebox.Yaml

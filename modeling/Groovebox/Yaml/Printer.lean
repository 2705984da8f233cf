import Groovebox.Document
import Groovebox.Yaml.Token
import Groovebox.Yaml.Plain

/-! The YAML text of a tree in block style. A text is plain where it can be, and
quoted where it would read as something else. -/

namespace Groovebox.Yaml

def openers : List Char :=
  ['#', ',', '[', ']', '\x7b', '\x7d', '&', '*', '!', '|', '>', '\'', '"', '%', '@', '\x60']

/-- Inside a plain scalar no comment begins and no value follows. -/
def isPlainInside : Option Char → List Char → Bool
  | _, [] => true
  | before, c :: rest =>
    !(c = ':' && isBlankOrEnd rest.head?) && !(c = '#' && isBlankOrEnd before) &&
      isPlainInside (some c) rest

def isPlainStart : List Char → Bool
  | [] => true
  | c :: rest =>
    c ∉ openers && !((c = '?' || c = '-') && isBlankOrEnd rest.head?)

/-- A space beside a break, in this order. -/
def hasPair (first second : Char → Bool) : List Char → Bool
  | a :: b :: rest => (first a && second b) || hasPair first second (b :: rest)
  | _ => false

def isMarked (text : List Char) : Bool :=
  text.take 3 = ['-', '-', '-'] || text.take 3 = ['.', '.', '.']

def isSpace (c : Char) : Bool := c = ' '

def hasSpecial (text : List Char) : Bool :=
  hasPair isSpace isBreak text || !text.all isPrintable

def isPlainAllowed (text : List Char) : Bool :=
  isPlainStart text && isPlainInside none text && !isMarked text && !text.any isBreak &&
    text.head? ≠ some ' ' && text.getLast? ≠ some ' ' && !hasSpecial text

def isSingleQuotedAllowed (text : List Char) : Bool :=
  !hasPair isBreak isSpace text && !hasSpecial text

def isLiteralAllowed (text : List Char) : Bool :=
  !text.isEmpty && text.getLast? ≠ some ' ' && !hasSpecial text

def spaces (n : Nat) : List Char := List.replicate n ' '

/-- The text between single quotes. Behind a break comes the indent. -/
def singleQuoted (indent : Nat) : Bool → List Char → List Char
  | atBreak, [] => if atBreak then spaces indent else []
  | atBreak, c :: rest =>
    if isBreak c then c :: singleQuoted indent true rest
    else
      (if atBreak then spaces indent else []) ++ (if c = '\'' then ['\'', '\''] else [c]) ++
        singleQuoted indent false rest

def hexDigits : Nat → Nat → List Char
  | 0, _ => []
  | width + 1, n => hexDigits width (n / 16) ++ [Nat.digitChar (n % 16) |>.toUpper]

def doubleQuoted (c : Char) : List Char :=
  match c with
  | '\x00' => ['\\', '0']
  | '\x07' => ['\\', 'a']
  | '\x08' => ['\\', 'b']
  | '\t' => ['\\', 't']
  | '\n' => ['\\', 'n']
  | '\x0b' => ['\\', 'v']
  | '\x0c' => ['\\', 'f']
  | '\x0d' => ['\\', 'r']
  | '\x1b' => ['\\', 'e']
  | '"' => ['\\', '"']
  | '\\' => ['\\', '\\']
  | '\x85' => ['\\', 'N']
  | '\u2028' => ['\\', 'L']
  | '\u2029' => ['\\', 'P']
  | _ =>
    if isPrintable c then [c]
    else if c.toNat ≤ 0xff then '\\' :: 'x' :: hexDigits 2 c.toNat
    else if c.toNat ≤ 0xffff then '\\' :: 'u' :: hexDigits 4 c.toNat
    else '\\' :: 'U' :: hexDigits 8 c.toNat

/-- The lines of a literal block, each one that is not empty behind the indent. -/
def literalLines (indent : Nat) : Bool → List Char → List Char
  | _, [] => []
  | atBreak, c :: rest =>
    if isBreak c then c :: literalLines indent true rest
    else (if atBreak then spaces indent else []) ++ c :: literalLines indent false rest

/-- What follows the bar of a literal block: the indent where the text does not show
it, and what becomes of the breaks at the end. -/
def literalHints (text : List Char) : List Char :=
  let indent := if text.head?.any (fun c => c = ' ' || isBreak c) then ['2'] else []
  let ending := match text.reverse with
    | [] => ['-']
    | last :: before =>
      if !isBreak last then ['-']
      else
        match before with
        | [] => ['+']
        | c :: _ => if isBreak c then ['+'] else []
  indent ++ ending

def scalar (indent : Nat) (s : String) : List Char :=
  let text := s.toList
  if '\n' ∈ text && isLiteralAllowed text then
    '|' :: literalHints text ++ '\n' :: literalLines indent true text
  else if '\n' ∉ text && meaning text = .text && !isZeroPadded text && isPlainAllowed text then text
  else if '\n' ∉ text && isSingleQuotedAllowed text then
    '\'' :: singleQuoted indent false text ++ ['\'']
  else '"' :: text.flatMap doubleQuoted ++ ['"']

def isSimpleKey (key : String) : Bool := key.utf8ByteSize ≤ 128 && !key.toList.any isBreak

def endLine (text : List Char) : List Char :=
  if text.getLast?.any isBreak then text else text ++ ['\n']

def flat (indent : Nat) : Tree → List Char
  | .null => "null".toList
  | .bool true => "true".toList
  | .bool false => "false".toList
  | .number n => (toString n).toList
  | .text s => scalar indent s
  | .list _ => ['[', ']']
  | .record _ => ['\x7b', '\x7d']

/-- What stands between a simple key and the text of its value. Lists begin at the
column of the key and records two columns on. -/
def valueGap (indent : Nat) : Tree → List Char
  | .list (_ :: _) => '\n' :: spaces indent
  | .record (_ :: _) => '\n' :: spaces (indent + 2)
  | _ => [' ']

def valueIndent (indent : Nat) : Tree → Nat
  | .list (_ :: _) => indent
  | _ => indent + 2

def keyPart (indent : Nat) (key : String) (value : Tree) : List Char :=
  if isSimpleKey key then scalar (indent + 2) key ++ ':' :: valueGap indent value
  else '?' :: ' ' :: endLine (scalar (indent + 2) key) ++ spaces indent ++ [':', ' ']

mutual

def printBlock (indent : Nat) : Tree → List Char
  | .list (item :: rest) => '-' :: ' ' :: printBlock (indent + 2) item ++ printItems indent rest
  | .record ((key, value) :: rest) =>
    keyPart indent key value ++
      printBlock (if isSimpleKey key then valueIndent indent value else indent + 2) value ++
      printEntries indent rest
  | tree => endLine (flat indent tree)

def printItems (indent : Nat) : List Tree → List Char
  | [] => []
  | item :: rest =>
    spaces indent ++ '-' :: ' ' :: printBlock (indent + 2) item ++ printItems indent rest

def printEntries (indent : Nat) : List (String × Tree) → List Char
  | [] => []
  | (key, value) :: rest =>
    spaces indent ++ keyPart indent key value ++
      printBlock (if isSimpleKey key then valueIndent indent value else indent + 2) value ++
      printEntries indent rest

end

def print (tree : Tree) : String := String.ofList (printBlock 0 tree)

end Groovebox.Yaml

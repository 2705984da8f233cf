import Groovebox.Document

/-! The JSON text of a tree: two blanks for each level, one entry per line, and
`[]` and `\x7b\x7d` for what is empty. -/

namespace Groovebox.Json

def hexDigit (n : Nat) : Char := if n < 10 then Char.ofNat (48 + n) else Char.ofNat (87 + n)

/-- Quotes, backslashes and control characters are escaped, all else stands as it is. -/
def escaped (c : Char) : List Char :=
  if c = '"' then ['\\', '"']
  else if c = '\\' then ['\\', '\\']
  else if c = '\x08' then ['\\', 'b']
  else if c = '\t' then ['\\', 't']
  else if c = '\n' then ['\\', 'n']
  else if c = '\x0c' then ['\\', 'f']
  else if c = '\x0d' then ['\\', 'r']
  else if c.toNat < 32 then ['\\', 'u', '0', '0', hexDigit (c.toNat / 16), hexDigit (c.toNat % 16)]
  else [c]

def quoted (s : String) : List Char := '"' :: s.toList.flatMap escaped ++ ['"']

def newLine (depth : Nat) : List Char := '\n' :: List.replicate (2 * depth) ' '

mutual

def printed (depth : Nat) : Tree → List Char
  | .null => "null".toList
  | .bool true => "true".toList
  | .bool false => "false".toList
  | .number n => (toString n).toList
  | .text s => quoted s
  | .list [] => ['[', ']']
  | .list (item :: rest) =>
    '[' :: newLine (depth + 1) ++ printed (depth + 1) item ++ printedItems (depth + 1) rest ++
      newLine depth ++ [']']
  | .record [] => ['\x7b', '\x7d']
  | .record ((key, value) :: rest) =>
    '\x7b' :: newLine (depth + 1) ++ quoted key ++ [':', ' '] ++ printed (depth + 1) value ++
      printedEntries (depth + 1) rest ++ newLine depth ++ ['\x7d']

def printedItems (depth : Nat) : List Tree → List Char
  | [] => []
  | item :: rest => ',' :: newLine depth ++ printed depth item ++ printedItems depth rest

def printedEntries (depth : Nat) : List (String × Tree) → List Char
  | [] => []
  | (key, value) :: rest =>
    ',' :: newLine depth ++ quoted key ++ [':', ' '] ++ printed depth value ++
      printedEntries depth rest

end

theorem printed_list_cons (depth : Nat) (item : Tree) (rest : List Tree) :
    printed depth (.list (item :: rest)) =
      '[' :: newLine (depth + 1) ++ printed (depth + 1) item ++ printedItems (depth + 1) rest ++
        newLine depth ++ [']'] :=
  rfl

theorem printed_record_cons (depth : Nat) (key : String) (value : Tree)
    (rest : List (String × Tree)) :
    printed depth (.record ((key, value) :: rest)) =
      '\x7b' :: newLine (depth + 1) ++ quoted key ++ [':', ' '] ++ printed (depth + 1) value ++
        printedEntries (depth + 1) rest ++ newLine depth ++ ['\x7d'] :=
  rfl

def print (tree : Tree) : String := String.ofList (printed 0 tree)

end Groovebox.Json

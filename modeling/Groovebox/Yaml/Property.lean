import Groovebox.Yaml.Scalar

/-! Reading anchors, tags and directives of a YAML text. -/

namespace Groovebox.Yaml

open Text

def isWordChar (c : Char) : Bool :=
  isDigit c || ('a' ≤ c && c ≤ 'z') || ('A' ≤ c && c ≤ 'Z') || c = '-' || c = '_'

def word (c : Cursor) : List Char := c.rest.takeWhile isWordChar

def readAnchor (c : Cursor) : Option (String × Cursor) :=
  let name := word c
  let behind := c.skip name.length
  let ends := behind.isBlankAt 0 ||
    behind.rest.head?.any (· ∈ ['?', ':', ',', ']', '\x7d', '%', '@', '\x60'])
  if name.isEmpty || !ends then none else some (String.ofList name, behind)

def isUriChar (c : Char) : Bool :=
  isWordChar c ||
    c ∈ [';', '/', '?', ':', '@', '&', '=', '+', '$', '.', '!', '~', '*', '\'', '(', ')']

def percentByte? : List Char → Option Nat
  | '%' :: a :: b :: _ => do return (← hexValue? a) * 16 + (← hexValue? b)
  | _ => none

def byteWidth? (byte : Nat) : Option Nat :=
  if byte < 0x80 then some 1
  else if 0xc0 ≤ byte && byte < 0xe0 then some 2
  else if 0xe0 ≤ byte && byte < 0xf0 then some 3
  else if 0xf0 ≤ byte && byte < 0xf8 then some 4
  else none

def isNextByte (byte : Nat) : Bool := 0x80 ≤ byte && byte < 0xc0

/-- Read `more` further bytes of a character; the answer has one character a byte. -/
def percentBytes? : Nat → List Char → Option (List Char)
  | 0, _ => some []
  | more + 1, text => do
    let byte ← percentByte? text
    if isNextByte byte then return Char.ofNat byte :: (← percentBytes? more (text.drop 3))
    else none

def readUri (brackets : Bool) : Nat → Cursor → Scan
  | 0, _ => none
  | fuel + 1, c =>
    match c.rest with
    | '%' :: _ => do
      let byte ← percentByte? c.rest
      let width ← byteWidth? byte
      let more ← percentBytes? (width - 1) (c.rest.drop 3)
      (readUri brackets fuel (c.skip (3 * width))).before (Char.ofNat byte :: more)
    | ch :: _ =>
      if isUriChar ch || (brackets && ch ∈ [',', '[', ']']) then
        (readUri brackets fuel c.next).before [ch]
      else some ([], c)
    | [] => some ([], c)

/-- Read the handle of a tag: an exclamation mark, a word, and a second mark if there
is one. -/
def readHandle (c : Cursor) : Scan :=
  match c.rest with
  | '!' :: _ =>
    let name := word c.next
    let behind := c.next.skip name.length
    if behind.rest.head? = some '!' then some ('!' :: name ++ ['!'], behind.next)
    else some ('!' :: name, behind)
  | _ => none

def isHandle (text : List Char) : Bool := 1 < text.length && text.getLast? = some '!'

/-- The part of a tag that counts, which ends before a NUL. -/
def tagText (uri : List Char) : List Char := uri.takeWhile (· ≠ '\x00')

def readTag (flow : Bool) (c : Cursor) : Option (Token × Cursor) := do
  let fuel := c.rest.length + 1
  let (token, c) ← (do
    if c.rest.take 2 = ['!', '<'] then
      let (uri, c) ← readUri true fuel (c.skip 2)
      if uri.isEmpty || c.rest.head? ≠ some '>' then failure
      return (Token.tag "" (String.ofList (tagText uri)), c.next)
    else
      let (handle, c) ← readHandle c
      let (uri, c) ← readUri false fuel c
      if isHandle handle then
        if uri.isEmpty then failure
        return (.tag (String.ofList handle) (String.ofList (tagText uri)), c)
      else
        let suffix := tagText (handle.drop 1 ++ uri)
        if suffix.isEmpty then return (.tag "" "!", c)
        else return (.tag "!" (String.ofList suffix), c))
  if c.isBlankAt 0 || (flow && c.rest.head? = some ',') then return (token, c) else failure

def readVersionPart (c : Cursor) : Option (Nat × Cursor) :=
  let digits := c.rest.takeWhile isDigit
  if digits.isEmpty || 9 < digits.length then none
  else some (digitsValue digits, c.skip digits.length)

def readDirectiveValue (name : List Char) (c : Cursor) : Option (Token × Cursor) := do
  let c := c.skipWhile isBlank
  if name = "YAML".toList then
    let (major, c) ← readVersionPart c
    if c.rest.head? ≠ some '.' then failure
    let (minor, c) ← readVersionPart c.next
    return (.version major minor, c)
  else if name = "TAG".toList then
    let (handle, c) ← readHandle c
    if handle ≠ ['!'] && !isHandle handle then failure
    if !(c.rest.head?.any isBlank) then failure
    let (uri, c) ← readUri true (c.rest.length + 1) (c.skipWhile isBlank)
    if uri.isEmpty || !c.isBlankAt 0 then failure
    return (.tagPrefix (String.ofList handle) (String.ofList (tagText uri)), c)
  else failure

def readDirective (c : Cursor) : Option (Token × Cursor) := do
  let name := word c
  let c := c.skip name.length
  if name.isEmpty || !c.isBlankAt 0 then failure
  let (token, c) ← readDirectiveValue name c
  let c := c.skipWhile isBlank
  let c := if c.rest.head? = some '#' then c.skipWhile (!isBreak ·) else c
  if c.rest.head?.all isBreak then return (token, c.next) else failure

end Groovebox.Yaml

import Groovebox.Item
import Groovebox.Step
import Groovebox.Text.Lines
import Groovebox.Text.Decimal

/-! The written form of sequences: `p0` is a pad, `~8` a pause, `[g1]` and `{s1}`
are calls. Bars and comments from `#` to the end of the line may stand between
items. Positions count the bytes before a character. -/

namespace Groovebox

open Text

inductive NotationError where
  | unexpectedEnd
  | unexpectedChar (position : Nat) (found : Char)
  | expectedNumber (position : Nat)
  | invalidNumber (position : Nat)
  | padOutOfRange (position index : Nat)
  | emptyPause (position : Nat)
  | emptyId (position : Nat)
  deriving DecidableEq, Repr

def NotationError.message : NotationError → String
  | .unexpectedEnd => "unexpected end of input"
  | .unexpectedChar position found =>
    "unexpected character '" ++ found.toString ++ "' at position " ++ toString position
  | .expectedNumber position => s!"expected number at position {position}"
  | .invalidNumber position => s!"invalid number at position {position}"
  | .padOutOfRange position index => s!"pad index {index} out of range at position {position}"
  | .emptyPause position => s!"pause length must be positive at position {position}"
  | .emptyId position => s!"empty container id at position {position}"

namespace Notation

/-- A place in a text: the bytes before it and the characters from it on. -/
structure Cursor where
  position : Nat
  rest : List Char
  deriving DecidableEq

/-- Go past white space and comments, and past bars if `bars` says so. -/
def skip (bars : Bool) (inComment : Bool) (position : Nat) : List Char → Cursor
  | [] => ⟨position, []⟩
  | c :: rest =>
    if inComment then skip bars (c ≠ '\n') (position + c.utf8Size) rest
    else if isBlank c || c = '#' || (bars && c = '|') then
      skip bars (c = '#') (position + c.utf8Size) rest
    else ⟨position, c :: rest⟩

theorem length_rest_skip_le (bars inComment : Bool) (position : Nat) (text : List Char) :
    (skip bars inComment position text).rest.length ≤ text.length := by
  induction text generalizing inComment position with
  | nil => simp [skip]
  | cons c rest ih =>
    simp only [skip]
    split
    · exact Nat.le_succ_of_le (ih _ _)
    · split
      · exact Nat.le_succ_of_le (ih _ _)
      · exact Nat.le_refl _

def isIdChar (c : Char) : Bool :=
  isDigit c || ('a' ≤ c && c ≤ 'z') || ('A' ≤ c && c ≤ 'Z') || c = '_' || c = '-'

/-- Numbers and lone pauses end at a blank, a bar, a comment or the end. -/
def checkEnd (position : Nat) : List Char → Except NotationError Unit
  | [] => .ok ()
  | c :: _ =>
    if c = '|' || c = '#' || isBlank c then .ok () else .error (.unexpectedChar position c)

def readStep (position : Nat) (digits : List Char) : Except NotationError Nat :=
  if digits.isEmpty then .error (.expectedNumber position)
  else if maxStep < digitsValue digits then .error (.invalidNumber position)
  else .ok (digitsValue digits)

/-- Read what follows the letter of a pad. The answer has the number of characters
read. -/
def readPad (position : Nat) (text : List Char) : Except NotationError (Item × Nat) := do
  let digits := text.takeWhile isDigit
  let index ← readStep position digits
  if padCount ≤ index then throw (.padOutOfRange position index)
  checkEnd (position + digits.length) (text.drop digits.length)
  return (.pad (UInt8.ofNat index), digits.length)

/-- Read what follows a tilde. Without digits the pause is one quantum. -/
def readPause (position : Nat) (text : List Char) : Except NotationError (Item × Nat) := do
  let digits := text.takeWhile isDigit
  let steps ← if digits.isEmpty then pure quantum else readStep position digits
  if steps = 0 then throw (.emptyPause position)
  checkEnd (position + digits.length) (text.drop digits.length)
  return (.pause (UInt32.ofNat steps), digits.length)

def readCall (kind : GroupKind) (close : Char) (position : Nat) (text : List Char) :
    Except NotationError (Item × Nat) :=
  let id := text.takeWhile isIdChar
  if id.isEmpty then .error (.emptyId position)
  else
    match text.drop id.length with
    | [] => .error .unexpectedEnd
    | c :: _ =>
      if c = close then .ok (.call ⟨kind, String.ofList id⟩, id.length + 1)
      else .error (.unexpectedChar (position + id.length) c)

def readItem (position : Nat) (c : Char) (text : List Char) : Except NotationError (Item × Nat) :=
  if c = 'p' || c = 'P' then readPad (position + 1) text
  else if c = '~' then readPause (position + 1) text
  else if c = '[' then readCall .group ']' (position + 1) text
  else if c = '\x7b' then readCall .super '\x7d' (position + 1) text
  else .error (.unexpectedChar position c)

def parseFrom (position : Nat) (text : List Char) : Except NotationError (List Item) :=
  match _h : skip true false position text with
  | ⟨_, []⟩ => .ok []
  | ⟨start, c :: rest⟩ =>
    match readItem start c rest with
    | .error e => .error e
    | .ok (item, used) =>
      (parseFrom (start + 1 + used) (rest.drop used)).map (item :: ·)
termination_by text.length
decreasing_by
  have := length_rest_skip_le true false position text
  simp only [_h, List.length_cons] at this
  simp only [List.length_drop]
  omega

end Notation

def parseSequence (text : String) : Except NotationError (List Item) :=
  Notation.parseFrom 0 text.toList

/-- Parse one item. Bars may stand before it but not behind. -/
def parseItem (text : String) : Except NotationError Item :=
  match Notation.skip true false 0 text.toList with
  | ⟨_, []⟩ => .error .unexpectedEnd
  | ⟨start, c :: rest⟩ =>
    match Notation.readItem start c rest with
    | .error e => .error e
    | .ok (item, used) =>
      match Notation.skip false false (start + 1 + used) (rest.drop used) with
      | ⟨_, []⟩ => .ok item
      | ⟨position, found :: _⟩ => .error (.unexpectedChar position found)

def Item.written : Item → String
  | .pad index => s!"p{index.toNat}"
  | .pause steps => s!"~{steps.toNat}"
  | .call ⟨.group, id⟩ => "[" ++ id ++ "]"
  | .call ⟨.super, id⟩ => "\x7b" ++ id ++ "\x7d"

def writeSequence (items : List Item) : String := " ".intercalate (items.map Item.written)

end Groovebox

import Groovebox.Text.Decimal

/-! The lexemes of a JSON text. A lexeme that is broken says what is wrong with
it; no lexeme follows. -/

namespace Groovebox.Json

open Text

inductive Fault where
  | malformed
  | unfit
  | unfinished
  deriving DecidableEq, Repr

inductive Number where
  /-- A number below `2 ^ 64` without a sign, a fraction or an exponent. -/
  | natural (n : Nat)
  /-- Any other number, up to its sign: `leading * 10 ^ exponent`, where `leading` is
  what the digits at the front make as long as that is below `2 ^ 64`. -/
  | other (leading : Nat) (exponent : Int)
  deriving DecidableEq, Repr

def Number.isFinite : Number → Bool
  | .natural _ => true
  | .other leading exponent => isFiniteProduct leading exponent

def leadingBound : Nat := Nat.pow 2 64

/-- Take the digits before the point behind `n`; the answer counts the digits from the
first that does not fit. -/
def takeWhole (n : Nat) : List Char → Nat × Nat
  | [] => (n, 0)
  | c :: rest =>
    let next := n * 10 + digitValue c
    if next < leadingBound then takeWhole next rest else (n, rest.length + 1)

/-- Take the digits behind the point up to the first that does not fit; the answer
counts those that were taken. -/
def takeFraction (n : Nat) : List Char → Nat × Nat
  | [] => (n, 0)
  | c :: rest =>
    let next := n * 10 + digitValue c
    if next < leadingBound then
      let (leading, taken) := takeFraction next rest
      (leading, taken + 1)
    else (n, 0)

def Number.ofDigits (whole fraction : List Char) (exponent : Int) : Number :=
  let (leading, left) := takeWhole 0 whole
  let (leading, taken) := takeFraction leading fraction
  .other leading (exponent + left - taken)

inductive Piece where
  | char (c : Char)
  | unit (n : Nat)
  deriving DecidableEq, Repr

inductive Lexeme where
  | mark (c : Char)
  | null
  | bool (b : Bool)
  | number (n : Number)
  | string (pieces : List Piece) (fault : Option Fault)
  /-- No lexeme: the fault for one who reads the value, and for one who skips it. -/
  | broken (read skipped : Fault)
  deriving DecidableEq, Repr

def isSpace (c : Char) : Bool := c = ' ' || c = '\n' || c = '\t' || c = '\x0d'

def unitValue? (a b c d : Char) : Option Nat := do
  return (← hexValue? a) * 4096 + (← hexValue? b) * 256 + (← hexValue? c) * 16 + (← hexValue? d)

def unescaped? (c : Char) : Option Char :=
  match c with
  | '"' => some '"'
  | '\\' => some '\\'
  | '/' => some '/'
  | 'b' => some '\x08'
  | 'f' => some '\x0c'
  | 'n' => some '\n'
  | 'r' => some '\x0d'
  | 't' => some '\t'
  | _ => none

def byteLength (text : List Char) : Nat := text.foldl (fun n c => n + c.utf8Size) 0

structure StringRest where
  pieces : List Piece
  fault : Option Fault
  rest : List Char

def StringRest.cons (p : Piece) (r : StringRest) : StringRest := { r with pieces := p :: r.pieces }

def readString : List Char → StringRest
  | [] => ⟨[], some .unfinished, []⟩
  | '"' :: rest => ⟨[], none, rest⟩
  | ['\\'] => ⟨[], some .unfinished, []⟩
  | '\\' :: 'u' :: a :: b :: c :: d :: rest =>
    match unitValue? a b c d with
    | some n => (readString rest).cons (.unit n)
    | none => ⟨[], some .malformed, []⟩
  | '\\' :: 'u' :: rest =>
    ⟨[], some (if byteLength rest < 4 then .unfinished else .malformed), []⟩
  | '\\' :: c :: rest =>
    match unescaped? c with
    | some c => (readString rest).cons (.char c)
    | none => ⟨[], some .malformed, []⟩
  | c :: rest =>
    if c.toNat < 32 then ⟨[], some .malformed, []⟩ else (readString rest).cons (.char c)

def readExponent (text : List Char) : Except Fault (Int × List Char) :=
  let (negative, text) := match text with
    | '-' :: rest => (true, rest)
    | '+' :: rest => (false, rest)
    | _ => (false, text)
  let digits := text.takeWhile isDigit
  if digits.isEmpty then .error (if text.isEmpty then .unfinished else .malformed)
  else
    let e : Int := digitsValue digits
    .ok (if negative then -e else e, text.drop digits.length)

def readNumber (negative : Bool) (text : List Char) : Except Fault (Number × List Char) := do
  let whole := text.takeWhile isDigit
  let rest := text.drop whole.length
  if whole.isEmpty then throw (if text.isEmpty then .unfinished else .malformed)
  if 1 < whole.length && whole.head? = some '0' then throw .malformed
  let (fraction, rest) ← match rest with
    | '.' :: rest =>
      let fraction := rest.takeWhile isDigit
      if fraction.isEmpty then throw (if rest.isEmpty then .unfinished else .malformed)
      pure (fraction, rest.drop fraction.length)
    | _ => pure ([], rest)
  let (exponent, rest) ← match rest with
    | 'e' :: rest | 'E' :: rest => do
      let (e, rest) ← readExponent rest
      pure (some e, rest)
    | _ => pure (none, rest)
  if !negative && fraction.isEmpty && exponent.isNone && digitsValue whole < leadingBound then
    return (.natural (digitsValue whole), rest)
  else return (.ofDigits whole fraction (exponent.getD 0), rest)

/-- Read the rest of a word; a text that ends within it is unfinished. -/
def readWord (word : List Char) (lexeme : Lexeme) (text : List Char) : Lexeme × List Char :=
  match word, text with
  | [], text => (lexeme, text)
  | _ :: _, [] => (.broken .unfinished .unfinished, [])
  | a :: word, c :: text =>
    if a = c then readWord word lexeme text else (.broken .malformed .malformed, [])

def readLexeme (c : Char) (rest : List Char) : Lexeme × List Char :=
  let number (negative : Bool) (text : List Char) : Lexeme × List Char :=
    match readNumber negative text with
    | .ok (n, rest) => (.number n, rest)
    | .error fault => (.broken fault .malformed, [])
  if c ∈ ['[', ']', '\x7b', '\x7d', ',', ':'] then (.mark c, rest)
  else if c = '"' then
    let s := readString rest
    (.string s.pieces s.fault, s.rest)
  else if c = 'n' then readWord ['u', 'l', 'l'] .null rest
  else if c = 't' then readWord ['r', 'u', 'e'] (.bool true) rest
  else if c = 'f' then readWord ['a', 'l', 's', 'e'] (.bool false) rest
  else if c = '-' then number true rest
  else if isDigit c then number false (c :: rest)
  else (.broken .malformed .malformed, [])

/-- The lexemes of a text, which is no longer than `length`. -/
def lexFrom : Nat → List Char → List Lexeme
  | 0, _ => []
  | _, [] => []
  | length + 1, c :: rest =>
    if isSpace c then lexFrom length rest
    else
      let (lexeme, rest) := readLexeme c rest
      lexeme :: lexFrom length rest

def lex (text : List Char) : List Lexeme := lexFrom text.length text

end Groovebox.Json

import Groovebox.Text.Decimal

/-! What a plain scalar stands for: nothing, a truth value, a number or text. -/

namespace Groovebox.Yaml

open Text

inductive Meaning where
  | null
  | bool (b : Bool)
  /-- A number below `2 ^ 64`. -/
  | natural (n : Nat)
  | negative (n : Nat)
  | wide
  | float
  | text
  deriving DecidableEq, Repr

def isNull (text : List Char) : Bool :=
  text ∈ ["null".toList, "Null".toList, "NULL".toList, "~".toList]

def bool? (text : List Char) : Option Bool :=
  if text ∈ ["true".toList, "True".toList, "TRUE".toList] then some true
  else if text ∈ ["false".toList, "False".toList, "FALSE".toList] then some false
  else none

def digit? (base : Nat) (c : Char) : Option Nat :=
  (hexValue? c).bind fun d => if d < base then some d else none

def digits? (base : Nat) : Nat → List Char → Option Nat
  | n, [] => some n
  | n, c :: rest => (digit? base c).bind fun d => digits? base (n * base + d) rest

def number? (base : Nat) (digits : List Char) : Option Nat :=
  if digits.isEmpty then none else digits? base 0 digits

def unsigned : List Char → List Char
  | '+' :: rest => rest
  | '-' :: rest => rest
  | text => text

/-- Digits that begin with a zero which is not the only one are text. -/
def isZeroPadded (text : List Char) : Bool :=
  match unsigned text with
  | '0' :: c :: rest => (c :: rest).all isDigit
  | _ => false

/-- An integer without a sign, in base 16, 8 or 2 where it says so. -/
def magnitude? : List Char → Option Nat
  | '0' :: 'x' :: digits => number? 16 digits
  | '0' :: 'o' :: digits => number? 8 digits
  | '0' :: 'b' :: digits => number? 2 digits
  | digits => number? 10 digits

def natural? (text : List Char) : Option Nat :=
  if isZeroPadded text then none
  else
    match text with
    | '+' :: rest => magnitude? rest
    | _ => magnitude? text

def negative? : List Char → Option Nat
  | '-' :: rest => if isZeroPadded rest then none else magnitude? rest
  | _ => none

def exponent? : List Char → Option Int
  | [] => some 0
  | c :: rest =>
    let digits := unsigned rest
    if (c ≠ 'e' ∧ c ≠ 'E') ∨ digits.isEmpty ∨ ¬ digits.all isDigit then none
    else if rest.head? = some '-' then some (-(digitsValue digits : Int))
    else some (digitsValue digits)

def isDecimal (text : List Char) : Bool :=
  let whole := text.takeWhile isDigit
  let rest := text.drop whole.length
  let (fraction, rest) := match rest with
    | '.' :: rest => (rest.takeWhile isDigit, rest.dropWhile isDigit)
    | _ => ([], rest)
  let digits := whole ++ fraction
  match exponent? rest with
  | none => false
  | some e => !digits.isEmpty && isFiniteDouble (digitsValue digits) (e - fraction.length)

def isFloat (text : List Char) : Bool :=
  let body := unsigned text
  body ∈ [".inf".toList, ".Inf".toList, ".INF".toList] ||
    text ∈ [".nan".toList, ".NaN".toList, ".NAN".toList] || isDecimal body

def meaning (text : List Char) : Meaning :=
  let other := if !isZeroPadded text && isFloat text then .float else .text
  if text.isEmpty || isNull text then .null
  else
    match bool? text with
    | some b => .bool b
    | none =>
      match natural? text, negative? text with
      | some n, _ =>
        if n < Nat.pow 2 64 then .natural n else if n < Nat.pow 2 128 then .wide else other
      | none, some n =>
        if n ≤ Nat.pow 2 63 then .negative n else if n ≤ Nat.pow 2 127 then .wide else other
      | none, none => other

end Groovebox.Yaml

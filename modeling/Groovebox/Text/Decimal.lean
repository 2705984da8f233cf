/-! Written numbers: natural numbers in decimal up to a limit, hexadecimal digits,
and which decimals are finite as doubles. -/

namespace Groovebox.Text

inductive NumberError where
  | empty
  | invalidDigit
  | tooLarge
  deriving DecidableEq, Repr

def NumberError.message : NumberError → String
  | .empty => "cannot parse integer from empty string"
  | .invalidDigit => "invalid digit found in string"
  | .tooLarge => "number too large to fit in target type"

def isDigit (c : Char) : Bool := '0' ≤ c && c ≤ '9'

def digitValue (c : Char) : Nat := c.toNat - '0'.toNat

def digitsValue (digits : List Char) : Nat := digits.foldl (fun n c => n * 10 + digitValue c) 0

/-- Read on from the value `n` of the digits before. The first character that is
no digit, or takes the value over the limit, decides. -/
def readDigits (limit : Nat) : Nat → List Char → Except NumberError Nat
  | n, [] => .ok n
  | n, c :: rest =>
    if !isDigit c then .error .invalidDigit
    else if limit < n * 10 + digitValue c then .error .tooLarge
    else readDigits limit (n * 10 + digitValue c) rest

def readNumber (limit : Nat) : List Char → Except NumberError Nat
  | [] => .error .empty
  | '+' :: c :: rest => readDigits limit 0 (c :: rest)
  | text => readDigits limit 0 text

def hexValue? (c : Char) : Option Nat :=
  if isDigit c then some (c.toNat - 48)
  else if 'a' ≤ c && c ≤ 'f' then some (c.toNat - 87)
  else if 'A' ≤ c && c ≤ 'F' then some (c.toNat - 55)
  else none

/-- Numbers from here on round to no finite double. -/
def doubleBound : Nat := Nat.pow 2 1024 - Nat.pow 2 970

/-- The double next to a natural number: 53 bits count, and of two doubles that are as
near the even one is taken. -/
def nearestDouble (n : Nat) : Nat :=
  let unit := Nat.pow 2 (n.log2 - 52)
  let below := n / unit
  let rest := n % unit
  if unit < 2 * rest || (2 * rest = unit && below % 2 = 1) then (below + 1) * unit
  else below * unit

/-- The number `digits * 10 ^ exponent` is finite as a double when both factors are
rounded first. The exponent must not be over 308. -/
def isFiniteProduct (digits : Nat) : Int → Bool
  | .ofNat e =>
    digits = 0 || (e ≤ 308 && nearestDouble digits * nearestDouble (Nat.pow 10 e) < doubleBound)
  | .negSucc _ => true

/-- The number `digits * 10 ^ exponent` rounds to a finite double. -/
def isFiniteDouble (digits : Nat) : Int → Bool
  | .ofNat e => digits = 0 || (e ≤ 400 && digits * Nat.pow 10 e < doubleBound)
  | .negSucc e =>
    digits < doubleBound || digits / Nat.pow 10 (min (e + 1) (digits.log2 + 1)) < doubleBound

end Groovebox.Text

import Groovebox.Json.Lexeme

/-! The value that a JSON text holds. A text that breaks off has one too, in which
each fault stands where the reading stops. -/

namespace Groovebox.Json

abbrev Content := Except Fault String

inductive Value where
  | null
  | bool (b : Bool)
  | number (n : Number)
  | string (content : Content)
  | list (items : List Value) (fault : Option Fault)
  | object (entries : List (Content × Value)) (fault : Option Fault)
  /-- The fault for one who reads the value, and for one who skips it. -/
  | broken (read skipped : Fault)

/-- Join the pieces of a string. A unit of the upper surrogates needs one of the
lower behind it. `fault` is what ends the pieces. -/
def joinPieces (fault : Option Fault) : List Piece → Except Fault (List Char)
  | [] =>
    match fault with
    | none => .ok []
    | some f => .error f
  | .char c :: rest => (joinPieces fault rest).map (c :: ·)
  | .unit n :: rest =>
    if n < 0xd800 ∨ 0xdfff < n then (joinPieces fault rest).map (Char.ofNat n :: ·)
    else if 0xdbff < n then .error .malformed
    else
      match rest with
      | [] => .error (fault.getD .malformed)
      | .unit low :: rest =>
        if 0xdc00 ≤ low ∧ low ≤ 0xdfff then
          let c := Char.ofNat (0x10000 + (n - 0xd800) * 1024 + (low - 0xdc00))
          (joinPieces fault rest).map (c :: ·)
        else .error .malformed
      | .char _ :: _ => .error .malformed

def content (pieces : List Piece) (fault : Option Fault) : Content :=
  (joinPieces fault pieces).map String.ofList

def Content.fault (c : Content) : Fault :=
  match c with
  | .ok _ => .unfit
  | .error f => f

/-- A value or another part of a text, and the lexemes behind it, if it is whole. -/
abbrev Reading (α : Type) := α × Option (List Lexeme)

def missing (lexemes : List Lexeme) : Value :=
  if lexemes.isEmpty then .broken .unfinished .unfinished else .broken .malformed .malformed

def stopFault (lexemes : List Lexeme) : Fault :=
  if lexemes.isEmpty then .unfinished else .malformed

mutual

/-- Read a value with at most `fuel` nested or following parts. -/
def readValue : Nat → List Lexeme → Reading Value
  | fuel + 1, lexeme :: rest =>
    match lexeme with
    | .null => (.null, some rest)
    | .bool b => (.bool b, some rest)
    | .number n => (.number n, some rest)
    | .string pieces none => (.string (content pieces none), some rest)
    | .string pieces (some f) => (.broken (content pieces (some f)).fault f, none)
    | .broken read skipped => (.broken read skipped, none)
    | .mark c =>
      if c = '[' then
        match rest with
        | .mark ']' :: rest => (.list [] none, some rest)
        | [] => (.list [] (some .unfinished), none)
        | rest =>
          let ((items, fault), rest) := readItems fuel rest
          (.list items fault, rest)
      else if c = '\x7b' then
        match rest with
        | .mark '\x7d' :: rest => (.object [] none, some rest)
        | rest =>
          let ((entries, fault), rest) := readEntries fuel rest
          (.object entries fault, rest)
      else (.broken .malformed .malformed, none)
  | _, lexemes => (missing lexemes, none)

def readItems : Nat → List Lexeme → Reading (List Value × Option Fault)
  | 0, lexemes => (([], some (stopFault lexemes)), none)
  | fuel + 1, lexemes =>
    match readValue fuel lexemes with
    | (item, none) => (([item], none), none)
    | (item, some (.mark ']' :: rest)) => (([item], none), some rest)
    | (item, some (.mark ',' :: rest)) =>
      let ((items, fault), rest) := readItems fuel rest
      ((item :: items, fault), rest)
    | (item, some rest) => (([item], some (stopFault rest)), none)

def readEntries : Nat → List Lexeme → Reading (List (Content × Value) × Option Fault)
  | fuel + 1, .string pieces none :: .mark ':' :: rest =>
    let key := content pieces none
    match readValue fuel rest with
    | (value, none) => (([(key, value)], none), none)
    | (value, some (.mark '\x7d' :: rest)) => (([(key, value)], none), some rest)
    | (value, some (.mark ',' :: rest)) =>
      let ((entries, fault), rest) := readEntries fuel rest
      (((key, value) :: entries, fault), rest)
    | (value, some rest) => (([(key, value)], some (stopFault rest)), none)
  | _ + 1, .string pieces none :: rest => (([(content pieces none, missing rest)], none), none)
  | _ + 1, .string pieces (some f) :: _ =>
    (([(content pieces (some f), .broken f f)], none), none)
  | _, lexemes => (([], some (stopFault lexemes)), none)

end

def readDocument (text : String) : Reading Value :=
  let lexemes := lex text.toList
  readValue (2 * lexemes.length + 1) lexemes

end Groovebox.Json

import Groovebox.Yaml.Token
import Groovebox.Yaml.Plain

/-! Reading the scalars of a YAML text: quoted, plain, and block scalars. A run of
blanks and breaks within a scalar is folded. -/

namespace Groovebox.Yaml

def isGap (c : Char) : Bool := isBlank c || isBreak c

/-- What a run of blanks and breaks stands for: the blanks when they are all, a space
for one newline, and otherwise the breaks without the first newline. Behind an
escaped break all breaks count. -/
def foldGap (escaped : Bool) (gap : List Char) : List Char :=
  match escaped, gap.filter isBreak with
  | true, breaks => breaks
  | false, [] => gap
  | false, ['\n'] => [' ']
  | false, '\n' :: breaks => breaks
  | false, breaks => breaks

abbrev Scan := Option (List Char × Cursor)

def Scan.before (text : List Char) (s : Scan) : Scan := s.map fun (more, c) => (text ++ more, c)

def escapeWidth? (c : Char) : Option Nat :=
  match c with
  | 'x' => some 2
  | 'u' => some 4
  | 'U' => some 8
  | _ => none

def escape? (c : Char) : Option Char :=
  match c with
  | '0' => some '\x00'
  | 'a' => some '\x07'
  | 'b' => some '\x08'
  | 't' | '\t' => some '\t'
  | 'n' => some '\n'
  | 'v' => some '\x0b'
  | 'f' => some '\x0c'
  | 'r' => some '\x0d'
  | 'e' => some '\x1b'
  | ' ' => some ' '
  | '"' => some '"'
  | '/' => some '/'
  | '\\' => some '\\'
  | 'N' => some '\x85'
  | '_' => some '\xa0'
  | 'L' => some '\u2028'
  | 'P' => some '\u2029'
  | _ => none

/-- The character of hexadecimal digits, which must be as many as `width`. -/
def hexChar? (width : Nat) (digits : List Char) : Option Char :=
  if digits.length < width then none
  else (number? 16 digits).bind fun n => if n.isValidChar then some (Char.ofNat n) else none

def readQuoted (quote : Char) : Nat → Cursor → Scan
  | 0, _ => none
  | fuel + 1, c =>
    if c.isAtBoundary then none
    else
      match c.rest with
      | [] => none
      | ch :: rest =>
        if isGap ch then
          let gap := c.rest.takeWhile isGap
          (readQuoted quote fuel (c.skip gap.length)).before (foldGap false gap)
        else if ch = quote then
          if quote = '\'' && rest.head? = some quote then
            (readQuoted quote fuel (c.skip 2)).before [quote]
          else some ([], c.next)
        else if ch = '\\' && quote = '"' then
          match rest with
          | [] => none
          | e :: rest =>
            if isBreak e then
              let gap := rest.takeWhile isGap
              (readQuoted quote fuel (c.skip (2 + gap.length))).before (foldGap true gap)
            else
              match escapeWidth? e with
              | some width =>
                (hexChar? width (rest.take width)).bind fun decoded =>
                  (readQuoted quote fuel (c.skip (2 + width))).before [decoded]
              | none =>
                (escape? e).bind fun decoded =>
                  (readQuoted quote fuel (c.skip 2)).before [decoded]
        else (readQuoted quote fuel c.next).before [ch]

def flowMarks : List Char := [',', '[', ']', '\x7b', '\x7d']

/-- The characters of a plain scalar up to a gap, a value or, between brackets, one
of their marks. There a colon must not touch a mark. -/
def plainChunk? (flow : Bool) : List Char → Option (List Char)
  | [] => some []
  | c :: rest =>
    if isGap c then some []
    else if c = ':' && flow && rest.head?.any (fun d => d = '?' || d ∈ flowMarks) then none
    else if c = ':' && isBlankOrEnd rest.head? then some []
    else if flow && c ∈ flowMarks then some []
    else (plainChunk? flow rest).map (c :: ·)

structure PlainScan where
  text : List Char
  brokenOff : Bool
  cursor : Cursor

/-- A tab stands in a gap at a column where the indent belongs. -/
def hasTabIndent (indent : Nat) : Cursor → List Char → Bool → Bool
  | _, [], _ => false
  | c, ch :: gap, behindBreak =>
    (behindBreak && ch = '\t' && c.column < indent) ||
      hasTabIndent indent c.next gap (behindBreak || isBreak ch)

/-- Read on in a plain scalar behind `gap`. Outside of brackets its lines stand at
`indent` or further in. -/
def readPlain (flow : Bool) (indent : Nat) : Nat → List Char → Cursor → Option PlainScan
  | 0, _, _ => none
  | fuel + 1, gap, c =>
    let stop : PlainScan := ⟨[], gap.any isBreak, c⟩
    if c.isAtBoundary || c.rest.head? = some '#' then some stop
    else
      match plainChunk? flow c.rest with
      | none => none
      | some [] => some stop
      | some chunk =>
        let text := foldGap false gap ++ chunk
        let c := c.skip chunk.length
        let gap := c.rest.takeWhile isGap
        if gap.isEmpty then some ⟨text, false, c⟩
        else if hasTabIndent indent c gap false then none
        else
          let behind := c.skip gap.length
          if !flow && behind.column < indent then some ⟨text, gap.any isBreak, behind⟩
          else
            (readPlain flow indent fuel gap behind).map fun s => { s with text := text ++ s.text }

inductive Ending where
  | strip
  | clip
  | keep
  deriving DecidableEq

def ending? (c : Char) : Option Ending :=
  if c = '+' then some .keep else if c = '-' then some .strip else none

def increment? (c : Char) : Option Nat := if Text.isDigit c then some (Text.digitValue c) else none

structure BlockHead where
  ending : Ending := .clip
  increment : Option Nat := none
  length : Nat := 0

def blockHead (text : List Char) : BlockHead :=
  match text with
  | a :: rest =>
    let second := rest.head?
    match ending? a, increment? a with
    | some ending, _ =>
      match second.bind increment? with
      | some n => ⟨ending, some n, 2⟩
      | none => ⟨ending, none, 1⟩
    | none, some n =>
      match second.bind ending? with
      | some ending => ⟨ending, some n, 2⟩
      | none => ⟨.clip, some n, 1⟩
    | none, none => {}
  | [] => {}

/-- Skip blank lines and the indent of the next line. The answer has their breaks,
and the widest indent that was seen. `none` as a limit takes all spaces. -/
def skipIndent (limit : Option Nat) : Nat → Nat → Cursor → Option (List Char × Nat × Cursor)
  | 0, _, _ => none
  | fuel + 1, widest, c =>
    let width := (c.rest.takeWhile (· = ' ')).length
    let c := c.skip (match limit with
      | none => width
      | some n => min width (n - c.column))
    let widest := max widest c.column
    match c.rest with
    | ch :: _ =>
      if ch = '\t' && limit.all (c.column < ·) then none
      else if isBreak ch then
        (skipIndent limit fuel widest c.next).map fun (breaks, r) => (ch :: breaks, r)
      else some ([], widest, c)
    | [] => some ([], widest, c)

structure BlockScan where
  text : List Char
  firstBreak : List Char
  breaks : List Char
  cursor : Cursor

/-- Read the lines at `indent`. Folding joins lines that do not begin with a blank. -/
def readLines (folds : Bool) (indent : Nat) :
    Nat → (firstBreak breaks : List Char) → (blankBefore : Bool) → Cursor → Option BlockScan
  | 0, _, _, _, _ => none
  | fuel + 1, firstBreak, breaks, blankBefore, c =>
    if c.column ≠ indent || c.rest.isEmpty then some ⟨[], firstBreak, breaks, c⟩
    else do
      let blank := c.rest.head?.any isBlank
      let joint :=
        if folds && firstBreak = ['\n'] && !blankBefore && !blank then
          if breaks.isEmpty then [' '] else breaks
        else firstBreak ++ breaks
      let line := c.rest.takeWhile (!isBreak ·)
      let stop := c.skip line.length
      let (following, _, c) ← skipIndent (some indent) fuel 0 stop.next
      let s ← readLines folds indent fuel (stop.rest.take 1) following blank c
      return { s with text := joint ++ line ++ s.text }

def readBlock (folds : Bool) (parent : Option Nat) (c : Cursor) : Scan := do
  let head := blockHead c.rest
  if head.increment = some 0 then failure
  let fuel := c.rest.length + 1
  let c := (c.skip head.length).skipWhile isBlank
  let c := if c.rest.head? = some '#' then c.skipWhile (!isBreak ·) else c
  if !(c.rest.head?.all isBreak) then failure
  let limit := head.increment.map (parent.getD 0 + ·)
  let (breaks, widest, c) ← skipIndent limit fuel 0 c.next
  let indent := limit.getD (max 1 (max widest ((parent.map (· + 1)).getD 0)))
  let s ← readLines folds indent fuel [] breaks false c
  let firstBreak := if head.ending = .strip then [] else s.firstBreak
  let breaks := if head.ending = .keep then s.breaks else []
  return (s.text ++ firstBreak ++ breaks, s.cursor)

end Groovebox.Yaml

import Groovebox.Yaml.Property

/-! From text to tokens. The columns of a text open and close its blocks. Where a
key may begin, a candidate is noted; a colon behind it on the same line confirms the
candidate, and a key then begins there. -/

namespace Groovebox.Yaml

structure Candidate where
  number : Nat
  required : Bool
  index : Nat
  line : Nat
  column : Nat

structure Layout where
  cursor : Cursor
  indents : List Nat := []
  /-- The candidate outside of brackets and in each open bracket, the innermost
  first. -/
  candidates : List (Option Candidate) := [none]
  keyAllowed : Bool := true
  /-- The candidates so far. -/
  count : Nat := 0

inductive Found where
  | token (token : Token)
  | candidate (number : Nat)
  /-- The candidate was a key; `opens` says that it opens a mapping. -/
  | confirmed (number : Nat) (opens : Bool)

abbrev Step := Option (List Found × Layout)

namespace Layout

def inFlow (s : Layout) : Bool := 1 < s.candidates.length

/-- The column is right of the innermost block. -/
def isDeeper (s : Layout) (column : Nat) : Bool := s.indents.head?.all (· < column)

/-- Go past blanks, comments and breaks. Where a key may begin tabs are no blanks. A
byte order mark may begin a line, in which it takes up a column. -/
def toNextToken : Nat → Layout → Layout
  | 0, s => s
  | fuel + 1, s =>
    let tabs := s.inFlow || !s.keyAllowed
    let c := if s.cursor.column = 0 && s.cursor.rest.head? = some '\ufeff' then s.cursor.next
      else s.cursor
    let c := c.skipWhile fun ch => ch = ' ' || (tabs && ch = '\t')
    let c := if c.rest.head? = some '#' then c.skipWhile (!isBreak ·) else c
    if c.rest.head?.any isBreak then
      toNextToken fuel { s with cursor := c.next, keyAllowed := s.keyAllowed || !s.inFlow }
    else { s with cursor := c }

/-- Candidates on earlier lines, or more than 1024 bytes back, are none any more. -/
def dropStale (s : Layout) : Option Layout := do
  let c := s.cursor
  let candidates ← s.candidates.mapM fun
    | none => some none
    | some k =>
      if k.line < c.line || k.index + 1024 < c.index then if k.required then none else some none
      else some (some k)
  return { s with candidates }

def closeBlocks (s : Layout) (column : Nat) : List Found × Layout :=
  if s.inFlow then ([], s)
  else
    let closed := s.indents.takeWhile (column < ·)
    (closed.map fun _ => .token .blockEnd, { s with indents := s.indents.drop closed.length })

def closeAll (s : Layout) : List Found × Layout :=
  if s.inFlow then ([], s)
  else (s.indents.map fun _ => .token .blockEnd, { s with indents := [] })

def dropCandidate (s : Layout) : Option Layout :=
  match s.candidates with
  | some k :: rest => if k.required then none else some { s with candidates := none :: rest }
  | _ => some s

def noteCandidate (s : Layout) : Step := do
  if !s.keyAllowed then return ([], s)
  let s ← s.dropCandidate
  let c := s.cursor
  let required := !s.inFlow && s.indents.head? = some c.column
  let k : Candidate := ⟨s.count, required, c.index, c.line, c.column⟩
  return ([.candidate s.count],
    { s with candidates := some k :: s.candidates.drop 1, count := s.count + 1 })

def openBlock (s : Layout) (token : Token) : List Found × Layout :=
  let column := s.cursor.column
  if !s.inFlow && s.isDeeper column then
    ([.token token], { s with indents := column :: s.indents })
  else ([], s)

def accept (s : Layout) (n : Nat) (token : Token) : Step :=
  some ([.token token], { s with cursor := s.cursor.skip n })

def andThen (first : Step) (second : Layout → Step) : Step := do
  let (found, s) ← first
  let (more, s) ← second s
  return (found ++ more, s)

def boundary (s : Layout) (n : Nat) (token : Token) : Step :=
  let (found, s) := s.closeAll
  andThen (some (found, s)) fun s => do
    let s ← s.dropCandidate
    { s with keyAllowed := false }.accept n token

def directive (s : Layout) : Step :=
  let (found, s) := s.closeAll
  andThen (some (found, s)) fun s => do
    let s ← s.dropCandidate
    let (token, cursor) ← readDirective s.cursor.next
    return ([.token token], { s with cursor, keyAllowed := false })

def openBracket (s : Layout) (token : Token) : Step :=
  andThen s.noteCandidate fun s =>
    { s with candidates := none :: s.candidates, keyAllowed := true }.accept 1 token

def closeBracket (s : Layout) (token : Token) : Step := do
  let s ← s.dropCandidate
  let candidates := if s.inFlow then s.candidates.drop 1 else s.candidates
  { s with candidates, keyAllowed := false }.accept 1 token

def comma (s : Layout) : Step := do
  let s ← s.dropCandidate
  { s with keyAllowed := true }.accept 1 .flowEntry

/-- A dash or a question mark, which open a block where they may stand. -/
def indicator (s : Layout) (block token : Token) (keyAllowed : Bool) : Step := do
  if !s.inFlow && !s.keyAllowed then failure
  andThen (some (s.openBlock block)) fun s => do
    let s ← s.dropCandidate
    { s with keyAllowed }.accept 1 token

def colon (s : Layout) : Step :=
  match s.candidates with
  | some k :: rest =>
    let opens := !s.inFlow && s.isDeeper k.column
    let indents := if opens then k.column :: s.indents else s.indents
    andThen (some ([.confirmed k.number opens],
        { s with indents, candidates := none :: rest, keyAllowed := false }))
      (·.accept 1 .value)
  | _ => do
    if !s.inFlow && !s.keyAllowed then failure
    andThen (some (s.openBlock .blockMapping)) fun s =>
      { s with keyAllowed := !s.inFlow }.accept 1 .value

def keyToken (s : Layout) (read : Cursor → Option (Token × Cursor)) : Step :=
  andThen s.noteCandidate fun s => do
    let (token, cursor) ← read s.cursor
    return ([.token token], { s with cursor, keyAllowed := false })

def anchor (s : Layout) (token : String → Token) : Step :=
  s.keyToken fun c => (readAnchor c.next).map fun (name, c) => (token name, c)

def quoted (s : Layout) (quote : Char) : Step :=
  s.keyToken fun c =>
    (readQuoted quote (c.rest.length + 1) c.next).map fun (text, c) =>
      (.scalar .quoted (String.ofList text), c)

def plain (s : Layout) : Step :=
  andThen s.noteCandidate fun s => do
    let c := s.cursor
    let indent := (s.indents.head?.map (· + 1)).getD 0
    let p ← readPlain s.inFlow indent (c.rest.length + 1) [] c
    return ([.token (.scalar .plain (String.ofList p.text))],
      { s with cursor := p.cursor, keyAllowed := p.brokenOff })

def blockScalar (s : Layout) (folds : Bool) : Step := do
  let s ← s.dropCandidate
  let (text, cursor) ← readBlock folds s.indents.head? s.cursor.next
  let style := if folds then Style.folded else .literal
  return ([.token (.scalar style (String.ofList text))], { s with cursor, keyAllowed := true })

def isPlainFirst (s : Layout) (c : Char) : Bool :=
  let next := s.cursor.rest[1]?
  (!isBlankOrEnd (some c) &&
      c ∉ ['-', '?', ':', ',', '[', ']', '\x7b', '\x7d', '#', '&', '*', '!', '|', '>', '\'', '"',
        '%', '@', '\x60']) ||
    (c = '-' && !next.any isBlank) ||
    (!s.inFlow && (c = '?' || c = ':') && !isBlankOrEnd next)

def fetch (s : Layout) (ch : Char) : Step :=
  let c := s.cursor
  let marks := s.inFlow || c.isBlankAt 1
  if c.column = 0 && ch = '%' then s.directive
  else if c.isAtMark '-' then s.boundary 3 .documentStart
  else if c.isAtMark '.' then s.boundary 3 .documentEnd
  else if ch = '[' then s.openBracket .flowSequence
  else if ch = '\x7b' then s.openBracket .flowMapping
  else if ch = ']' then s.closeBracket .flowSequenceEnd
  else if ch = '\x7d' then s.closeBracket .flowMappingEnd
  else if ch = ',' then s.comma
  else if ch = '-' && c.isBlankAt 1 then s.indicator .blockSequence .blockEntry true
  else if ch = '?' && marks then s.indicator .blockMapping .key (!s.inFlow)
  else if ch = ':' && marks then s.colon
  else if ch = '*' then s.anchor .alias
  else if ch = '&' then s.anchor .anchor
  else if ch = '!' then s.keyToken (readTag s.inFlow)
  else if ch = '|' && !s.inFlow then s.blockScalar false
  else if ch = '>' && !s.inFlow then s.blockScalar true
  else if ch = '\'' || ch = '"' then s.quoted ch
  else if s.isPlainFirst ch then s.plain
  else none

def scan : Nat → Layout → Option (List Found)
  | 0, _ => none
  | fuel + 1, s => do
    let s ← (s.toNextToken (s.cursor.rest.length + 1)).dropStale
    match s.cursor.rest with
    | [] =>
      let (closed, s) := s.closeAll
      let _ ← s.dropCandidate
      return closed
    | ch :: _ =>
      let (closed, s) := s.closeBlocks s.cursor.column
      let (found, s) ← s.fetch ch
      return closed ++ found ++ (← scan fuel s)

end Layout

/-- The tokens of what was found, from the back, with the confirmed candidates that
have not come yet. -/
def settle : List Found → List Token × List (Nat × Bool)
  | [] => ([], [])
  | .token t :: rest =>
    let (tokens, open_) := settle rest
    (t :: tokens, open_)
  | .confirmed n opens :: rest =>
    let (tokens, open_) := settle rest
    (tokens, (n, opens) :: open_)
  | .candidate n :: rest =>
    match settle rest with
    | (tokens, (m, opens) :: others) =>
      if m = n then ((if opens then [.blockMapping, .key] else [.key]) ++ tokens, others)
      else (tokens, (m, opens) :: others)
    | (tokens, []) => (tokens, [])

def tokens? (text : String) : Option (List Token) :=
  let chars := text.toList
  if chars.all isAllowed then
    let chars := unifyBreaks chars
    (Layout.scan (chars.length + 1) { cursor := { rest := chars } }).map fun found =>
      (settle found).1
  else none

end Groovebox.Yaml

import Groovebox.Diagnostics
import Groovebox.Drag
import Groovebox.Events
import Groovebox.Notation
import Groovebox.Song

/-! How answers look to the person at the keyboard. -/

namespace Groovebox.Display

def prompt (bpm : UInt32) (dragging : Bool) : String :=
  if dragging then s!"♪ {bpm.toNat} drag › " else s!"♪ {bpm.toNat} › "

def success (text : String) : String := s!"  ✓ {text}"

def unchanged (text : String) : String := s!"  🤔 {text}"

def tempo (bpm : UInt32) : String := s!"  ♪ {bpm.toNat}"

def saved (path : String) : String := s!"  💾 saved {path}"

def opened (path : String) : String := s!"  📂 opened {path}"

def goodbye : String := "👋 bye"

def headCell : Item → Char
  | .pad pad => if pad.toNat < 10 then Char.ofNat ('0'.toNat + pad.toNat) else '?'
  | .pause _ => '·'
  | .call ⟨.group, _⟩ => 'G'
  | .call ⟨.super, _⟩ => 'S'

def holdCell : Item → Char
  | .pause _ => '·'
  | _ => '─'

def tokenCells (t : Token) : List Char :=
  headCell t.item :: List.replicate (t.steps / quantum - 1) (holdCell t.item)

def strip (line : Timeline) : List Char := line.tokens.flatMap tokenCells

def tokenLine (selected : List Nat) (t : Token) : String :=
  let mark := if t.index ∈ selected then "*" else " "
  s!" {mark}" ++ padLeft 3 (toString t.index) ++ "  " ++ padRight 6 t.item.written ++ " " ++
    padLeft 4 (toString t.start) ++ ".." ++ padRight 4 (toString t.stop) ++ s!" ({t.steps})"

/-- The strip and a line for each token; the selected ones bear a star. -/
def timeline (label : String) (line : Timeline) (selected : List Nat) : String :=
  let top := [s!"  {label}  {line.steps} steps", s!"  |{String.ofList (strip line)}|"]
  "\n".intercalate (top ++ line.tokens.map (tokenLine selected))

def proposal (plan : MovePlan) : String :=
  match plan.placement with
  | some (.swap other) => s!"  → step {plan.target}: swap with #{other}"
  | some (.gap start stop) => s!"  → step {plan.target}: insert into gap {start}..{stop}"
  | some (.append gap) => s!"  → step {plan.target}: append after {gap} step gap"
  | none => s!"  ⚠ step {plan.target}: not a valid drop"

def event (e : PadEvent) : String :=
  s!"  p{e.pad.toNat} " ++ padLeft 4 (toString e.start) ++ s!"..{e.stop}"

def events (played : List PadEvent) : String :=
  if played.isEmpty then "  [no pad events]" else "\n".intercalate (played.map event)

def diagnostics (found : Diagnostics) : String :=
  if found.isClean then success "no dangling or cyclic references"
  else "\n".intercalate (found.dangling.map (fun name => s!"  ⚠ missing {name.id}") ++
    found.cyclic.map fun name => s!"  ⚠ cycle through {name.id}")

end Groovebox.Display

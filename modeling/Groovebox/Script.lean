import Groovebox.Session
import Groovebox.Text.Lines

/-! Scripts: lines of commands that run without a person at the keyboard. A script
stops at the first line that fails. -/

namespace Groovebox

open Text

structure Printed where
  out : String := ""
  err : String := ""
  deriving DecidableEq

instance : Append Printed := ⟨fun a b => ⟨a.out ++ b.out, a.err ++ b.err⟩⟩

namespace Printed

def outLine (line : String) : Printed := { out := line ++ "\n" }

def errLine (line : String) : Printed := { err := line ++ "\n" }

def log (messages : List LogMessage) : Printed :=
  { err := String.join (messages.map fun m => m.line ++ "\n") }

end Printed

/-- Where a script stopped on account of a fault. -/
structure ScriptFault where
  number : Nat
  line : String
  fault : CommandError

/-- The attempt in which the fault arose comes first. -/
def ScriptFault.chain (f : ScriptFault) : List String :=
  s!"line {f.number}: {f.line}" :: f.fault.chain

structure ScriptRun where
  printed : Printed := {}
  fault : Option ScriptFault := none
  session : Session

namespace Script

def isIdle (line : List Char) : Bool :=
  match trimStart line with
  | [] => true
  | c :: _ => c = '#'

def runFrom (number : Nat) (s : Session) : List (List Char) → ScriptRun
  | [] => { session := s }
  | line :: rest =>
    if isIdle line then runFrom (number + 1) s rest
    else
      let (outcome, after) := s.enter (String.ofList line)
      let (messages, after) := after.takeLog
      let logged := Printed.log messages
      match outcome with
      | .error fault =>
        { printed := logged, fault := some ⟨number, String.ofList (trim line), fault⟩,
          session := after }
      | .ok .quit => { printed := logged, session := after }
      | .ok .silence =>
        let more := runFrom (number + 1) after rest
        { more with printed := logged ++ more.printed }
      | .ok (.text shown) =>
        let more := runFrom (number + 1) after rest
        { more with printed := logged ++ Printed.outLine shown ++ more.printed }

def run (s : Session) (text : String) : ScriptRun := runFrom 1 s (lines text.toList)

end Script

end Groovebox

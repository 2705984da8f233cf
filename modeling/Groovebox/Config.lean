import Groovebox.Log
import Groovebox.Step
import Groovebox.Text.Lines
import Groovebox.Text.Decimal

/-! Settings from named variables. -/

namespace Groovebox

structure Config where
  padSteps : UInt32 := standardPadSteps
  history : Option String := none
  deriving DecidableEq, Inhabited

namespace Config

def padStepsVariable : String := "PADLOOP_DEFAULT_PAD_STEPS"
def historyVariable : String := "PADLOOP_HISTORY"

def parsePadSteps (text : String) : Option UInt32 :=
  match Text.readNumber maxStep (Text.trim text.toList) with
  | .ok (n + 1) => some (UInt32.ofNat (n + 1))
  | _ => none

def ofVariables (lookup : String → Option String) : Config × List LogMessage :=
  let history := (lookup historyVariable).bind fun raw =>
    let name := Text.trim raw.toList
    if name.isEmpty then none else some (String.ofList name)
  let fallback : Config := { history }
  match lookup padStepsVariable with
  | none => (fallback, [])
  | some raw =>
    match parsePadSteps raw with
    | some padSteps => ({ fallback with padSteps }, [])
    | none =>
      (fallback, [warning (padStepsVariable ++
        s!"={raw} is not a positive step count; using {fallback.padSteps.toNat}")])

end Config

end Groovebox

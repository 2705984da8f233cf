/-! Messages about what happened, and the queues of those who listen to them. -/

namespace Groovebox

inductive Level where
  | info
  | warn
  | error
  deriving DecidableEq, Repr

def Level.label : Level → String
  | .info => "info"
  | .warn => "warn"
  | .error => "error"

structure LogMessage where
  level : Level
  text : String
  deriving DecidableEq, Repr

def LogMessage.line (m : LogMessage) : String := s!"[{m.level.label}] {m.text}"

def warning (text : String) : LogMessage := ⟨.warn, text⟩

/-- The listeners by name, each with the messages it has not taken yet. -/
structure Log where
  listeners : List (String × List LogMessage) := []

namespace Log

/-- Listen from now on. A listener of the same name is replaced. -/
def listen (log : Log) (name : String) : Log :=
  ⟨log.listeners.filter (·.1 ≠ name) ++ [(name, [])]⟩

def isListening (log : Log) (name : String) : Bool := log.listeners.any (·.1 = name)

def leave (log : Log) (name : String) : Log := ⟨log.listeners.filter (·.1 ≠ name)⟩

def publish (log : Log) (m : LogMessage) : Log :=
  ⟨log.listeners.map fun (name, pending) => (name, pending ++ [m])⟩

def take (log : Log) (name : String) : Option (List LogMessage × Log) :=
  (log.listeners.lookup name).map fun pending =>
    (pending, ⟨log.listeners.map fun l => if l.1 = name then (name, []) else l⟩)

end Log

end Groovebox

set_option autoImplicit false

/-! # Events

What a run reports while it works, apart from its result: texts with a severity, in the order in
which they arise. Results and events are computed by separate functions, so that a result never
depends on what is reported.
-/

namespace AliasErasure

/-- How severe an event is. -/
inductive Level where
  | error
  | warn
  | info
  | debug
  | trace
  deriving DecidableEq, Repr

namespace Level

/-- The name of a level in a report. -/
def name : Level → String
  | .error => "ERROR"
  | .warn => "WARN"
  | .info => "INFO"
  | .debug => "DEBUG"
  | .trace => "TRACE"

/-- Levels by number, the most severe one first. -/
def rank : Level → Nat
  | .error => 0
  | .warn => 1
  | .info => 2
  | .debug => 3
  | .trace => 4

/-- The least severe level that is shown, by how often more reports were asked for. -/
def ofVerbosity : Nat → Level
  | 0 => .warn
  | 1 => .info
  | 2 => .debug
  | _ => .trace

end Level

/-- One report. -/
structure Event where
  level : Level
  text : String
  deriving DecidableEq, Repr

namespace Event

def error (text : String) : Event := ⟨.error, text⟩

def warn (text : String) : Event := ⟨.warn, text⟩

def info (text : String) : Event := ⟨.info, text⟩

def debug (text : String) : Event := ⟨.debug, text⟩

def trace (text : String) : Event := ⟨.trace, text⟩

/-- The line that shows an event. -/
def line (e : Event) : String := s!"{e.level.name} {e.text}"

/-- The events at least as severe as `least`. -/
def atLeast (least : Level) (events : List Event) : List Event :=
  events.filter fun e => e.level.rank ≤ least.rank

end Event

end AliasErasure

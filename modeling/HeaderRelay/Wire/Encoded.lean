import HeaderRelay.Event
import HeaderRelay.Wire.Error

/-!
# The outcome of writing

* `Encoded` — the bytes that stand for a value and the events of writing them, oldest first;
* `Encoded.append` — one outcome behind another;
* `Emitter` — a step that writes piece by piece behind what is already there;
* `Emitter.put`, `Emitter.report`, `Emitter.measured` — the pieces;
* `Writing` — a step with no other result than what it writes.
-/

namespace HeaderRelay

structure Encoded where
  bytes : List UInt8 := []
  events : List Event := []

namespace Encoded

def append (front back : Encoded) : Encoded where
  bytes := front.bytes ++ back.bytes
  events := front.events ++ back.events

end Encoded

/-- A step that writes behind what is already there. -/
abbrev Emitter (α : Type) : Type :=
  EStateM EncodeError Encoded α

namespace Emitter

variable {α : Type}

def put (bytes : List UInt8) : Emitter Unit :=
  modify fun output => output.append { bytes }

def putWhen (present : Bool) (bytes : List UInt8) : Emitter Unit :=
  if present then put bytes else pure ()

def report (event : Event) : Emitter Unit :=
  modify fun output => output.append { events := [event] }

/-- Runs a step and finds from the ends of the output how many bytes it has written. -/
def measured (step : Emitter α) : Emitter (α × Nat) := do
  let start := (← get).bytes.length
  let a ← step
  return (a, (← get).bytes.length - start)

end Emitter

abbrev Writing : Type :=
  Emitter Unit

/-- Writes a value behind the output. A value that has no written form leaves the output as it is. -/
def Writing.ofOutcome (outcome : Except EncodeError Encoded) : Writing := fun output =>
  match outcome with
  | .ok encoded => .ok () (output.append encoded)
  | .error e => .error e output

end HeaderRelay

import JavaAtlas.Text.Lines
import JavaAtlas.Text.Utf8

/-!
# Runs of tools

A tool writes octets and spends time until it ends by itself or is ended from
outside.  What a run is worth to others is its outcome: the number it exits with,
if it ended in time, and the text that it wrote.

Main definitions:

- `Outcome`: what is known about a run afterwards.
- `Breach`: why a call ends without an outcome.
- `Trace`: what happens during a run.
- `Trace.outcome`: the outcome of a run that may take only so long.
-/

namespace JavaAtlas.Tool

open Text.Utf8 (Bytes)

/-! ## Calls and outcomes -/

/-- A request to run a tool. -/
structure Call where
  /-- The name of the tool and its arguments. -/
  command : List String
  /-- The directory where it runs. -/
  directory : String
  /-- Seconds that it may take. -/
  timeout : Int
  deriving DecidableEq, Repr, Inhabited

/-- How a run ended. -/
structure Outcome where
  /-- The number of the exit; a signal counts as its negative number.  Missing if the
  tool never ran to its end. -/
  exit : Option Int
  output : String
  timedOut : Bool
  deriving DecidableEq, Repr, Inhabited

namespace Outcome

/-- The run was a success. -/
def isOk (o : Outcome) : Bool :=
  o.exit == some 0

/-- The tool could not be started. -/
def notStarted (reason : String) : Outcome :=
  ⟨none, reason, false⟩

theorem isOk_iff (o : Outcome) : o.isOk = true ↔ o.exit = some 0 := by
  simp [isOk]

end Outcome

/-- Why a call ends without an outcome. -/
inductive Breach where
  /-- A word of the command or the directory holds a null character. -/
  | nullCharacter
  /-- Nobody can wait for so many microseconds. -/
  | overlongTime (microseconds : Nat)
  deriving DecidableEq, Repr, Inhabited

namespace Breach

/-- Greatest number of microseconds that can be waited for. -/
def waitLimit : Nat := 2147483647000

/-- Number of microseconds from which on a time cannot be told. -/
def clockLimit : Nat := 9223372036854775

/-- Number of seconds from which on there is no number for a time. -/
def numberLimit : Nat := Nat.pow 2 1024

/-- The breach in words. -/
def message : Breach → String
  | nullCharacter => "embedded null byte"
  | overlongTime n =>
    if n ≤ clockLimit then "timeout is too large"
    else if n < numberLimit * 1000000 then "timestamp too large to convert to C _PyTime_t"
    else "int too large to convert to float"

end Breach

/-! ## Traces -/

/-- Something that a tool does while it runs. -/
inductive Event where
  | write (octets : Bytes)
  | wait (microseconds : Nat)
  deriving DecidableEq, Repr

/-- How a tool ends by itself. -/
inductive Ending where
  | exit (status : Nat)
  | killed (signal : Nat)
  deriving DecidableEq, Repr

/-- The number that tells an ending. -/
def Ending.number : Ending → Int
  | exit status => status
  | killed signal => -(signal : Int)

/-- All that a tool does, and its ending. -/
structure Trace where
  events : List Event
  ending : Ending
  deriving DecidableEq, Repr

namespace Trace

/-- A run that only exits. -/
def exits (status : Nat) : Trace :=
  ⟨[], .exit status⟩

/-- A run that writes a text and exits. -/
def writes (text : String) (status : Nat) : Trace :=
  ⟨[.write (Text.Utf8.encode text)], .exit status⟩

/-- Goes on with another run, unless the first one was killed. -/
def andThen (t : Trace) (next : Nat → Trace) : Trace :=
  match t.ending with
  | .killed _ => t
  | .exit status =>
    let u := next status
    ⟨t.events ++ u.events, u.ending⟩

/-- The run without what it writes. -/
def silenced (t : Trace) : Trace :=
  { t with events := t.events.filter fun
      | .write _ => false
      | .wait _ => true }

/-- The octets that are written while time is left, and whether the time runs out. -/
def within : Nat → List Event → Bytes × Bool
  | 0, _ => ([], true)
  | _ + 1, [] => ([], false)
  | left + 1, .write octets :: events =>
    let (later, out) := within (left + 1) events
    (octets ++ later, out)
  | left + 1, .wait n :: events => within (left + 1 - n) events

/-- The outcome of a run that may take so many microseconds.  The output of a run that
was in time has one kind of line end; cut output is left as it is. -/
def outcome (t : Trace) (limit : Nat) : Outcome :=
  match within limit t.events with
  | (octets, true) => ⟨none, Text.Utf8.decode octets, true⟩
  | (octets, false) =>
    ⟨some t.ending.number, Text.withLineFeeds (Text.Utf8.decode octets), false⟩

end Trace

end JavaAtlas.Tool

/-
  Controls — what can stop a run from outside.

  1. **Data** — a control holds a cancellation FLAG and perhaps a deadline.  Controls made from one
     another share the flag: whoever raises it stops all of them.

  2. **Narrowing** — `within` keeps the flag and takes the earlier of the deadline and the end of a
     budget.  A control can only become stricter.

  3. **Time** — an instant is a number of nanoseconds since the clock was started.  The clock ends:
     a deadline that it cannot show is no deadline.

  Core only.
-/

namespace Verdict.Run

/-! ## Time -/

/-- A point of time, in nanoseconds. -/
abbrev Instant := Nat

/-- A span of time, in nanoseconds. -/
abbrev Duration := Nat

namespace Duration

/-- How many nanoseconds a second has. -/
def second : Duration := 1000000000

/-- A span of so many milliseconds. -/
def milliseconds (n : Nat) : Duration := n * 1000000

/-- The longest span: 64 bits of seconds, and all nanoseconds below the next one. -/
def longest : Duration := UInt64.size * second - 1

end Duration

/-- The first instant that the clock cannot show: its seconds are signed and have 64 bits. -/
def Instant.beyond : Instant := UInt64.size / 2 * Duration.second

/-- The instant that lies a span ahead, if the clock can show it. -/
def Instant.after? (now : Instant) (span : Duration) : Option Instant :=
  if now + span < Instant.beyond then some (now + span) else none

/-! ## Controls -/

/-- Names a cancellation flag. -/
structure Flag where
  number : Nat
  deriving DecidableEq

/-- A cancellation flag, and the instant at which a run stops at the latest. -/
structure Control where
  flag : Flag
  deadline : Option Instant
  deriving DecidableEq

/-- Why a run was stopped from outside. -/
inductive Interruption where
  | cancelled
  | deadlineExceeded
  deriving DecidableEq, Repr

namespace Control

/-- The control of a flag, without a deadline. -/
def new (flag : Flag) : Control := ⟨flag, none⟩

/-- The control with another deadline. -/
def withDeadline (c : Control) (deadline : Instant) : Control := { c with deadline := deadline }

/-- The control with its deadline a span ahead; one that the clock cannot show is not set. -/
def withTimeout (c : Control) (now : Instant) (span : Duration) : Control :=
  match now.after? span with
  | some deadline => c.withDeadline deadline
  | none => c

/-- The control that also stops when a budget has run out. -/
def within (c : Control) (now : Instant) (budget : Duration) : Control :=
  match c.deadline, now.after? budget with
  | some deadline, some finish => c.withDeadline (min deadline finish)
  | none, some finish => c.withDeadline finish
  | _, none => c

/-- Has the deadline passed? -/
def isOverdue (c : Control) (now : Instant) : Bool :=
  match c.deadline with
  | some deadline => deadline ≤ now
  | none => false

end Control

end Verdict.Run

/-!
# Deadlines

A clock is a sequence of readings in nanoseconds: the first one is taken when a deadline is set, and
the others before the solving calls. Seconds are counted by signed words of 64 bits, so a time
limit may put the deadline beyond the last instant that a clock can show.
-/

namespace Argumentation

/-- The readings of a clock. -/
abbrev Clock := Nat -> Nat

/-- Whether the time is up before each solving call of an enumeration, counted from zero. -/
abbrev Deadline := Nat -> Bool

namespace Deadline

/-- The time is never up. -/
def never : Deadline := fun _ => false

/-- The time is up from the start. -/
def passed : Deadline := fun _ => true

/-- The number of nanoseconds in a second. -/
def second : Nat := 1000000000

/-- The deadline that lies a number of seconds after the first reading, unless it is out of the
range of the clock. -/
def after? (clock : Clock) (seconds : Nat) : Option Deadline :=
  if clock 0 / second + seconds < 1 <<< 63 then
    some fun check => clock 0 + seconds * second <= clock (check + 1)
  else none

end Deadline

end Argumentation

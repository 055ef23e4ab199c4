/-!
# Clocks

A clock is the sequence of its readings, in milliseconds, and how many of them have been taken.
Nothing is assumed of the readings: they may stand still, jump or go back.
-/

namespace ShardMerge

/-- A clock. -/
structure Clock where
  /-- Every reading that the clock will ever give. -/
  readings : Nat → UInt64
  /-- The number of readings taken. -/
  taken : Nat := 0

namespace Clock

/-- A clock that always reads zero, so that no scan ever uses up its time. -/
def still : Clock :=
  { readings := fun _ => 0 }

/-- A clock that gives the listed readings and then goes on in equal steps from the last of them,
modulo `2 ^ 64`. Without listed readings it starts at zero. -/
def program (times : List UInt64) (step : UInt64) : Clock :=
  let last := times.length - 1
  { readings := fun n => times[n]?.getD (times.getLastD 0 + step * (n - last).toUInt64) }

/-- The readings that are still to come. -/
def upcoming (c : Clock) (n : Nat) : UInt64 :=
  c.readings (c.taken + n)

/-- The clock after `n` further readings. -/
def advance (c : Clock) (n : Nat) : Clock :=
  { c with taken := c.taken + n }

end Clock

end ShardMerge

import HalfLink.Time.Ticks

/-! Tick sources: a counter that is advanced from outside, and a clock that cannot be written. -/
namespace HalfLink

/-- A free-running 32-bit tick counter that can be overwritten. -/
class TickSource (σ : Type) where
  readTicks : σ → Ticks 32
  /-- Counting goes on from the written value. -/
  writeTicks : Ticks 32 → σ → σ

export TickSource (readTicks writeTicks)

/-- A counter that is advanced from outside. -/
structure Counter where
  count : Ticks 32 := 0
deriving DecidableEq, Repr

namespace Counter

def advance (c : Counter) (n : Ticks 32) : Counter := ⟨c.count + n⟩

def tick (c : Counter) : Counter := c.advance 1

instance : TickSource Counter where
  readTicks c := c.count
  writeTicks ticks _ := ⟨ticks⟩

end Counter

/-- A clock that counts microseconds and cannot be written, seen as a counter: a write stores the
distance that every later read takes off. -/
structure DriverClock where
  micros : Nat := 0
  offset : Ticks 32 := 0
deriving DecidableEq, Repr

namespace DriverClock

def now (c : DriverClock) : Ticks 32 := BitVec.ofNat 32 c.micros

def advance (c : DriverClock) (micros : Nat) : DriverClock := { c with micros := c.micros + micros }

instance : TickSource DriverClock where
  readTicks c := Ticks.diff c.now c.offset
  writeTicks ticks c := { c with offset := Ticks.diff c.now ticks }

end DriverClock

end HalfLink

/-! Tick values of a fixed width and their modular arithmetic. A counter wraps, so two ticks are
never compared directly: a deadline counts as reached while it lies less than half the range behind.
-/
namespace HalfLink

abbrev Ticks (w : Nat) := BitVec w

namespace Ticks

variable {w : Nat}

/-- The low `w` bits of a 32-bit counter. -/
def view (w : Nat) (counter : Ticks 32) : Ticks w := counter.setWidth w

def maximum (w : Nat) : Ticks w := BitVec.allOnes w

/-- Half of the largest tick value, rounded down. -/
def half (w : Nat) : Ticks w := maximum w >>> 1

def diff (now past : Ticks w) : Ticks w := now - past

def offset (now delta : Ticks w) : Ticks w := now + delta

/-- Whether `deadline` has been reached at `now`. -/
def expired (now deadline : Ticks w) : Bool := decide (diff now deadline < half w)

end Ticks

end HalfLink

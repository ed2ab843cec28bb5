import HalfLink.Time.Timer
import Mathlib.Algebra.BigOperators.Group.List.Basic
import Mathlib.Data.BitVec
import Mathlib.Logic.Function.Iterate

/-! A clock that cannot be written, in the place of a counter. A timer over it answers as a timer over
a counter does, which shows at the beginning what the clock shows and on which the same time passes. -/
namespace HalfLink

/-- Tick sources on which time passes from outside. -/
class Passing (σ : Type) where
  pass : Nat → σ → σ

/-- On a counter each unit of time is one tick. -/
instance : Passing Counter where
  pass n := Counter.tick^[n]

instance : Passing DriverClock where
  pass n c := c.advance n

/-- A use of a timer or of its source, or time that passes. -/
inductive TimerUse
  | pass (n : Nat)
  | readTicks
  | write (ticks : Ticks 32)
  | read (w : Nat)
  | elapsed (w : Nat) (past : Ticks w)
  | deadline (after : Ticks 32)
  | hasExpired (deadline : Ticks 32)
  | clear
  | save
  | restore
deriving DecidableEq, Repr

namespace TimerUse

def passed : TimerUse → Nat
  | .pass n => n
  | _ => 0

inductive Answer
  | done
  | ticks (w : Nat) (value : Ticks w)
  | reached (yes : Bool)
deriving DecidableEq, Repr

end TimerUse

namespace Timer

variable {σ τ : Type} [TickSource σ] [TickSource τ] [Passing σ] [Passing τ]

def use (t : Timer σ) : TimerUse → TimerUse.Answer × Timer σ
  | .pass n => (.done, { t with source := Passing.pass n t.source })
  | .readTicks => (.ticks 32 (readTicks t.source), t)
  | .write ticks => (.done, { t with source := writeTicks ticks t.source })
  | .read w => (.ticks w (t.read w), t)
  | .elapsed w past => (.ticks w (t.elapsed past), t)
  | .deadline after => (.ticks 32 (t.deadline after), t)
  | .hasExpired deadline => (.reached (t.hasExpired deadline), t)
  | .clear => (.done, t.clear)
  | .save => (.done, t.save)
  | .restore => (.done, t.restore)

def useAll (t : Timer σ) : List TimerUse → List TimerUse.Answer × Timer σ
  | [] => ([], t)
  | u :: uses =>
    let (answer, t) := t.use u
    let (answers, t) := t.useAll uses
    (answer :: answers, t)

/-- The same timer over what stands for its source. -/
def map (f : σ → τ) (t : Timer σ) : Timer τ := ⟨f t.source, t.saved⟩

end Timer

/-- What `f` makes of a source can stand for the source: it shows the same ticks, is written in the
same way, and goes on in the same way as time passes. -/
structure StandsFor {σ τ : Type} [TickSource σ] [TickSource τ] [Passing σ] [Passing τ]
    (f : σ → τ) : Prop where
  reads : ∀ s, readTicks (f s) = readTicks s
  writes : ∀ ticks s, f (writeTicks ticks s) = writeTicks ticks (f s)
  passes : ∀ n s, f (Passing.pass n s) = Passing.pass n (f s)

namespace StandsFor

variable {σ τ : Type} [TickSource σ] [TickSource τ] [Passing σ] [Passing τ] {f : σ → τ}

theorem use_map (h : StandsFor f) (t : Timer σ) (u : TimerUse) :
    (t.map f).use u = ((t.use u).1, (t.use u).2.map f) := by
  have hread : ∀ w, (t.map f).read w = t.read w := fun w => congrArg (Ticks.view w) (h.reads _)
  cases u with
  | pass n => simp only [Timer.use, Timer.map, h.passes]
  | readTicks => simp only [Timer.use, Timer.map, h.reads]
  | write ticks => simp only [Timer.use, Timer.map, h.writes]
  | read w => simp only [Timer.use, hread]
  | elapsed w past => simp only [Timer.use, Timer.elapsed, hread]
  | deadline after => simp only [Timer.use, Timer.deadline, hread]
  | hasExpired deadline => simp only [Timer.use, Timer.hasExpired, hread]
  | clear => simp only [Timer.use, Timer.clear, Timer.map, h.writes]
  | save => simp only [Timer.use, Timer.save, Timer.map, h.reads]
  | restore => simp only [Timer.use, Timer.restore, Timer.map, h.writes]

theorem useAll_map (h : StandsFor f) (t : Timer σ) (uses : List TimerUse) :
    (t.map f).useAll uses = ((t.useAll uses).1, (t.useAll uses).2.map f) := by
  induction uses generalizing t with
  | nil => rfl
  | cons u uses ih => simp only [Timer.useAll, h.use_map, ih]

end StandsFor

theorem Counter.iterate_tick (c : Counter) (n : Nat) :
    Counter.tick^[n] c = c.advance (BitVec.ofNat 32 n) := by
  induction n with
  | zero => rw [Function.iterate_zero_apply, advance, BitVec.add_zero]
  | succ n ih =>
    rw [Function.iterate_succ_apply', ih, BitVec.ofNat_add, tick, advance, advance, advance,
      BitVec.add_assoc]
    rfl

namespace DriverClock

/-- The counter that shows what the clock shows. -/
def counter (c : DriverClock) : Counter := ⟨readTicks c⟩

theorem standsFor_counter : StandsFor counter where
  reads _ := rfl
  writes ticks c := congrArg Counter.mk (sub_sub_cancel c.now ticks)
  passes n c := by
    have hnow : BitVec.ofNat 32 (c.micros + n) - c.offset =
        BitVec.ofNat 32 c.micros - c.offset + BitVec.ofNat 32 n := by
      rw [BitVec.ofNat_add, add_sub_right_comm]
    exact (congrArg Counter.mk hnow).trans (c.counter.iterate_tick n).symm

theorem micros_use (t : Timer DriverClock) (u : TimerUse) :
    (t.use u).2.source.micros = t.source.micros + u.passed := by
  cases u <;> rfl

theorem micros_useAll (t : Timer DriverClock) (uses : List TimerUse) :
    (t.useAll uses).2.source.micros = t.source.micros + (uses.map TimerUse.passed).sum := by
  induction uses generalizing t with
  | nil => rfl
  | cons u uses ih =>
    rw [List.map_cons, List.sum_cons, ← Nat.add_assoc, ← micros_use, ← ih]
    rfl

/-- A timer over the clock gives every answer that a timer over a counter gives, which began at what
the clock showed; yet the clock itself goes on by just the time that passes. -/
theorem answers_as_counter (micros : Nat) (uses : List TimerUse) :
    let t : Timer DriverClock := ⟨{ micros }, 0⟩
    let plain : Timer Counter := ⟨⟨BitVec.ofNat 32 micros⟩, 0⟩
    (t.useAll uses).1 = (plain.useAll uses).1 ∧
      (t.useAll uses).2.source.micros = micros + (uses.map TimerUse.passed).sum := by
  intro t plain
  have hplain : plain = t.map counter := by
    rw [Timer.map, counter]
    exact congrArg (fun count => (⟨⟨count⟩, 0⟩ : Timer Counter)) (BitVec.sub_zero _).symm
  rw [hplain, standsFor_counter.useAll_map]
  exact ⟨rfl, micros_useAll t uses⟩

end DriverClock

end HalfLink

import HalfLink.Firmware.Forwarder
import HalfLink.Proofs.Call.Sharing

/-! The forward task at work, with a record of each report's way through it: what was written for the
report, what was told of it, how its transaction ended and how the link stood then. -/
namespace HalfLink.Firmware

/-- The states that differ from the one before them, `before` standing before the first. -/
def changes (before : Bool) : List Bool → List Bool
  | [] => []
  | state :: rest => if state = before then changes before rest else state :: changes state rest

theorem changes_concat (before : Bool) (states : List Bool) (state : Bool) :
    changes before (states ++ [state]) =
      changes before states ++ if state = states.getLast?.getD before then [] else [state] := by
  induction states generalizing before with
  | nil => rfl
  | cons first rest ih =>
    have hlast : (first :: rest).getLast?.getD before = rest.getLast?.getD first := by
      cases rest <;> simp [List.getLast?_cons]
    rw [List.cons_append, changes, changes, hlast]
    split
    · rename_i hsame
      rw [ih, hsame]
    · rw [ih, List.cons_append]

/-- The last change is to the last state. -/
theorem getLast_changes (before : Bool) (states : List Bool) :
    (changes before states).getLast?.getD before = states.getLast?.getD before := by
  induction states using List.reverseRecOn with
  | nil => rfl
  | append_singleton states state ih =>
    rw [changes_concat, List.getLast?_concat, Option.getD_some]
    split
    · rename_i hsame
      rw [List.append_nil, ih, hsame]
    · rw [List.getLast?_concat, Option.getD_some]

/-- Changes go to and fro. -/
theorem changes_alternate {before state : Bool} {states : List Bool} {i : Nat}
    (h : (changes before states)[i]? = some state) : state = (before ^^ decide (i % 2 = 0)) := by
  induction states generalizing before i with
  | nil => cases h
  | cons first rest ih =>
    rw [changes] at h
    split at h
    · exact ih h
    · rename_i hdiffers
      have hfirst : first = !before := by cases first <;> cases before <;> simp_all
      cases i with
      | zero =>
        obtain rfl : first = state := by simpa using h
        simpa using hfirst
      | succ i =>
        rw [List.getElem?_cons_succ] at h
        rw [ih h, hfirst]
        rcases Nat.mod_two_eq_zero_or_one i with hi | hi
        · have hnext : (i + 1) % 2 = 1 := by omega
          cases before <;> simp [hi, hnext]
        · have hnext : (i + 1) % 2 = 0 := by omega
          cases before <;> simp [hi, hnext]

/-- The state of the link that a record tells, if it tells one. -/
def LogRecord.link? (r : LogRecord) : Option Bool :=
  if r = linkRecord true then some true else if r = linkRecord false then some false else none

@[simp] theorem link?_linkRecord (connected : Bool) :
    (linkRecord connected).link? = some connected := by
  cases connected <;> decide

@[simp] theorem link?_outcomeRecord (elapsed : Ticks 32) (result : Except Failure Nat) :
    (outcomeRecord elapsed result).link? = none := by
  have hother : ∀ connected, outcomeRecord elapsed result ≠ linkRecord connected := by
    intro connected
    rcases result with e | n
    · cases e <;> cases connected <;> simp [outcomeRecord, linkRecord]
    · cases connected <;> simp [outcomeRecord, linkRecord]
  rw [LogRecord.link?, if_neg (hother true), if_neg (hother false)]

/-- A report's way through the task. -/
structure Passage where
  report : RawReport
  /-- What was written for it. -/
  written : List Bytes := []
  /-- What was told of it. -/
  told : List LogRecord := []
  /-- How its transaction ended, once it has. -/
  outcome : Option (Except Failure Nat) := none
  /-- The state of the link after the turn that was last concerned with it. -/
  connected : Bool := true
deriving DecidableEq, Repr

/-- A part of a turn that is concerned with the report. -/
def Passage.go {σ : Type} (p : Passage) (outcome : Option (Except Failure Nat))
    (before after : Forwarding (Tap σ)) : Passage where
  report := p.report
  written := p.written ++ (after.world.posts.drop before.world.posts.length).map Prod.snd
  told := p.told ++ after.log.drop before.log.length
  outcome := outcome
  connected := after.shared.isConnected

section

variable {σ : Type}

theorem Passage.go_written {before after : Forwarding (Tap σ)} {new : List (Nat × Bytes)}
    (h : after.world.posts = before.world.posts ++ new) (p : Passage)
    (outcome : Option (Except Failure Nat)) :
    (p.go outcome before after).written = p.written ++ new.map Prod.snd := by
  rw [go, h, List.drop_left]

theorem Passage.go_told {before after : Forwarding (Tap σ)} {new : List LogRecord}
    (h : after.log = before.log ++ new) (p : Passage) (outcome : Option (Except Failure Nat)) :
    (p.go outcome before after).told = p.told ++ new := by
  rw [go, h, List.drop_left]

variable [Link σ] [TickSource σ]

/-- What becomes of the next reports in one turn: the passages of those that end, and of the one that
has to wait for the link. -/
def Forwarding.passages (f : Forwarding (Tap σ)) (fast : Ticks 32) :
    List RawReport → List Passage × Option Passage
  | [] => ([], none)
  | report :: rest =>
    let (done, after) := f.begin fast report
    let call := Call.notify .hidSync report.toList
    let passage := ({ report } : Passage).go (call.poll f.shared f.world).outcome f after
    if done then
      let (ended, current) := after.passages fast rest
      (passage :: ended, current)
    else ([], some passage)

end

/-- The first record of the task. -/
def openingRecord : LogRecord := ⟨.info, "Forward task started", []⟩

/-- The task with the reports that the channel took and their passages. -/
structure Shift (σ : Type) where
  forwarding : Forwarding (Tap σ)
  accepted : List RawReport := []
  ended : List Passage := []
  current : Option Passage := none

/-- What can happen to the task. -/
inductive Shift.Event (σ : Type)
  /-- The host puts a report into the channel, which drops it when it is full. -/
  | host (report : RawReport)
  | turn (fast : Ticks 32)
  /-- The link and the clock get into another state. -/
  | pass (world : σ)

namespace Shift

variable {σ : Type}

def fresh (c : Caller) (w : σ) : Shift σ where
  forwarding := { task := {}, reports := [], shared := ⟨c, false⟩, world := { world := w } }

/-- All passages, in the order of their reports. -/
def passages (s : Shift σ) : List Passage := s.ended ++ s.current.toList

variable [Link σ] [TickSource σ]

/-- The passages that end in a turn, and the one that is left under way. -/
def turn (s : Shift σ) (fast : Ticks 32) : List Passage × Option Passage :=
  let f := s.forwarding
  match f.task.stage, s.current with
  | .unstarted, _ => ((f.say openingRecord).enter .receiving).passages fast f.reports
  | .receiving, _ => f.passages fast f.reports
  | .sending since call, some passage =>
    let (done, after) := f.advance fast since call
    let passage := passage.go (call.poll f.shared f.world).outcome f after
    if done then
      let (ended, current) := after.passages fast after.reports
      (passage :: ended, current)
    else ([], some passage)
  | _, current => ([], current)

def step (s : Shift σ) : Event σ → Shift σ
  | .host report =>
    match enqueue? s.forwarding.reports report with
    | some reports =>
      { s with forwarding := { s.forwarding with reports }, accepted := s.accepted ++ [report] }
    | none => s
  | .turn fast =>
    { s with
      forwarding := s.forwarding.poll fast
      ended := s.ended ++ (s.turn fast).1
      current := (s.turn fast).2 }
  | .pass world =>
    { s with forwarding := { s.forwarding with world := { s.forwarding.world with world } } }

def run (s : Shift σ) (events : List (Event σ)) : Shift σ := events.foldl step s

end Shift

end HalfLink.Firmware

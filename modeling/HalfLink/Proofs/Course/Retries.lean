import HalfLink.Proofs.Call.Sharing
import HalfLink.Proofs.Course.Basic
import HalfLink.Proofs.Line.Basic
import HalfLink.Proofs.Time.Basic
import Mathlib.Algebra.Group.Nat.Defs
import Mathlib.Order.Monotone.Defs

/-! What a caller sends while its link is down. An interval opens with the failure that takes the link
down and with each attempt after it, and no attempt is made before it is over. The caller sees ticks,
which wrap; the intervals are of time, which does not. -/
namespace HalfLink

namespace Health

variable {h health : Health} (now : Ticks 32)

/-- While the link is down, an attempt needs the interval to be over, and opens the next. -/
theorem attempt_down (hdown : h.isConnected = false) :
    h.attempt now =
      if h.retryInterval ≤ Ticks.diff now h.lastRetry then (true, { h with lastRetry := now })
      else (false, h) := by
  rw [attempt, hdown]
  rfl

variable {now}

theorem attempt_true (hattempt : h.attempt now = (true, health)) :
    (h.isConnected = true ∧ health = h) ∨
      (h.isConnected = false ∧ h.retryInterval ≤ Ticks.diff now h.lastRetry ∧
        health = { h with lastRetry := now }) := by
  cases hconnected : h.isConnected with
  | true =>
    rw [attempt, if_pos hconnected] at hattempt
    exact .inl ⟨rfl, (Prod.mk.inj hattempt).2.symm⟩
  | false =>
    rw [attempt_down now hconnected] at hattempt
    split at hattempt
    · rename_i hdue
      exact .inr ⟨rfl, hdue, (Prod.mk.inj hattempt).2.symm⟩
    · cases hattempt

variable (h now)

theorem isConnected_recordSuccess : h.recordSuccess.isConnected = true := by
  rw [isConnected, decide_eq_true_iff, recordSuccess, UInt8.lt_iff_toNat_lt, ← UInt8.toNat_inj]
  exact Nat.eq_zero_or_pos _

@[simp] theorem retryInterval_recordFailure :
    (h.recordFailure now).retryInterval = h.retryInterval := by
  unfold recordFailure
  dsimp only
  split <;> rfl

/-- A failure opens an interval if it takes the link down. -/
theorem lastRetry_recordFailure :
    (h.recordFailure now).lastRetry =
      if h.isConnected = true ∧ (h.recordFailure now).isConnected = false then now
      else h.lastRetry := by
  have hconnected : (h.recordFailure now).isConnected =
      { h with errors := h.nextErrors }.isConnected := by
    unfold recordFailure
    dsimp only
    split <;> rfl
  rw [hconnected, recordFailure]
  cases h.isConnected <;> cases { h with errors := h.nextErrors }.isConnected <;> rfl

end Health

namespace Tap

variable {σ ε : Type}

theorem posts_read [Link σ] (limit : Nat) (t : Tap σ) : (Link.read limit t).2.posts = t.posts := by
  change (t.read limit).2.posts = t.posts
  unfold read
  split <;> rfl

/-- What happens to the world behind a record of it. -/
def happen (happen : ε → σ → σ) (e : ε) (t : Tap σ) : Tap σ := { t with world := happen e t.world }

end Tap

namespace Caller.Deed

variable {σ : Type} [Link σ] [TickSource σ] (d : Deed (Tap σ))

/-- The act hands a request to the link. -/
def Writes : Prop := d.left.posts ≠ d.world.posts

/-- The act is an attempt with the link down. -/
def Probes : Prop := d.caller.isConnected = false ∧ d.Writes

/-- The act ends in the failure that takes the link down. -/
def Downs : Prop := d.caller.isConnected = true ∧ d.next.isConnected = false

/-- The act opens a retry interval. -/
def Opens : Prop := d.Probes ∨ d.Downs

instance : Decidable d.Writes := inferInstanceAs (Decidable (_ ≠ _))

instance : Decidable d.Probes := inferInstanceAs (Decidable (_ ∧ _))

instance : Decidable d.Downs := inferInstanceAs (Decidable (_ ∧ _))

instance : Decidable d.Opens := inferInstanceAs (Decidable (_ ∨ _))

theorem writes_iff : d.Writes ↔ d.query?.isSome := by
  cases hquery : d.query? with
  | none =>
    have hsame := (unasked hquery (P := fun t : Tap σ => t.posts = d.world.posts)
      (fun t ht => (Tap.posts_read _ t).trans ht) rfl).1
    simpa [Writes] using hsame
  | some q =>
    obtain ⟨-, -, hleft, -⟩ := asked hquery
    rw [Writes, hleft, Tap.posts_write]
    simp

variable {d}

theorem Probes.due (h : d.Probes) :
    d.caller.health.retryInterval ≤ Ticks.diff d.tick d.caller.health.lastRetry := by
  obtain ⟨hdown, hwrites⟩ := h
  obtain ⟨q, hquery⟩ := Option.isSome_iff_exists.mp (d.writes_iff.mp hwrites)
  obtain ⟨⟨health, hattempt⟩, -⟩ := asked hquery
  rcases Health.attempt_true hattempt with ⟨hup, -⟩ | ⟨-, hdue, -⟩
  · rw [isConnected, hup] at hdown
    cases hdown
  · exact hdue

/-- A small request goes out when the caller is idle and the interval is over. -/
theorem writes_of_due {id : TransactionId} {request : Bytes} (hact : d.act = .start id request)
    (hsize : request.length ≤ maxPayloadSize) (hidle : d.caller.state = .idle)
    (hdown : d.caller.isConnected = false)
    (hdue : d.caller.health.retryInterval ≤ Ticks.diff d.tick d.caller.health.lastRetry) :
    d.Writes := by
  rw [writes_iff]
  have htick : d.tick = readTicks d.world := by rw [tick, hact]
  have hattempt := Health.attempt_down d.tick hdown
  rw [if_pos hdue, htick] at hattempt
  simp only [query?, hact, isBusy, hidle, Buffer.ofList?, dif_pos hsize, hattempt]
  rfl

variable (d)

/-- What an act does to the interval. -/
structure Times : Prop where
  interval : d.next.health.retryInterval = d.caller.health.retryInterval
  opens : d.next.isConnected = false → d.Opens → d.next.health.lastRetry = d.tick
  waits : d.next.isConnected = false → ¬ d.Opens →
    d.caller.isConnected = false ∧ d.next.health.lastRetry = d.caller.health.lastRetry

variable {d}

theorem Times.of_same (hquery : d.query? = none) (hnext : d.next.health = d.caller.health) :
    d.Times := by
  have hsame : d.next.isConnected = d.caller.isConnected := by rw [isConnected, hnext, isConnected]
  refine ⟨by rw [hnext], fun hdown hopens => ?_, fun hdown _ => ⟨hsame ▸ hdown, by rw [hnext]⟩⟩
  rcases hopens with ⟨-, hwrites⟩ | ⟨hup, -⟩
  · rw [writes_iff, hquery] at hwrites
    cases hwrites
  · rw [hsame, hup] at hdown
    cases hdown

/-- A failure of a caller that had `health` before it. -/
theorem Times.of_failure {health : Health} (hnext : d.next.health = health.recordFailure d.tick)
    (hinterval : health.retryInterval = d.caller.health.retryInterval)
    (hconnected : health.isConnected = d.caller.isConnected)
    (hdown : d.caller.isConnected = false → (d.Opens → health.lastRetry = d.tick) ∧
      (¬ d.Opens → health.lastRetry = d.caller.health.lastRetry)) : d.Times := by
  have hlast := health.lastRetry_recordFailure d.tick
  rw [← hnext, hconnected] at hlast
  refine ⟨by rw [hnext, Health.retryInterval_recordFailure, hinterval], ?_, ?_⟩
  · intro hfails hopens
    rw [hlast]
    split
    · rfl
    · rename_i hkeeps
      refine (hdown ?_).1 hopens
      exact Bool.eq_false_iff.mpr fun hup => hkeeps ⟨hup, hfails⟩
  · intro hfails hnot
    have hwas : d.caller.isConnected = false :=
      Bool.eq_false_iff.mpr fun hup => hnot (.inr ⟨hup, hfails⟩)
    rw [if_neg (by simp [hwas])] at hlast
    exact ⟨hwas, hlast.trans ((hdown hwas).2 hnot)⟩

theorem times (d : Deed (Tap σ)) : d.Times := by
  have hprobes : d.query?.isSome → d.caller.isConnected = false → d.Opens :=
    fun hquery hdown => .inl ⟨hdown, d.writes_iff.mpr hquery⟩
  cases d.comes with
  | refused e refusal query outcome next left => exact .of_same query (by rw [next])
  | sent q health query attempt outcome next left =>
    replace hprobes := hprobes (by rw [query]; rfl)
    rcases Health.attempt_true attempt with ⟨hup, rfl⟩ | ⟨hdown, -, rfl⟩
    · have hnever : d.next.isConnected ≠ false := by
        rw [isConnected, next, Bool.ne_false_iff]
        exact hup
      exact ⟨by rw [next], fun hfails => absurd hfails hnever, fun hfails => absurd hfails hnever⟩
    · exact ⟨by rw [next], fun _ _ => by rw [next], fun _ hnot => absurd (hprobes hdown) hnot⟩
  | unsent q health e query attempt outcome next left =>
    replace hprobes := hprobes (by rw [query]; rfl)
    have hnext : d.next.health = health.recordFailure d.tick := by rw [next]
    rcases Health.attempt_true attempt with ⟨hup, rfl⟩ | ⟨hdown, -, rfl⟩
    · refine .of_failure hnext rfl rfl fun hdown => ?_
      rw [isConnected, hup] at hdown
      cases hdown
    · exact .of_failure hnext rfl rfl fun hdown =>
        ⟨fun _ => rfl, fun hnot => absurd (hprobes hdown) hnot⟩
  | answered response parser act query outcome next =>
    have hnever : d.next.isConnected ≠ false := by
      rw [isConnected, next, Bool.ne_false_iff]
      exact d.caller.health.isConnected_recordSuccess
    exact ⟨by rw [next]; rfl, fun hfails => absurd hfails hnever, fun hfails => absurd hfails hnever⟩
  | timedOut response act query outcome next =>
    refine .of_failure (by rw [next]) rfl rfl fun hdown => ⟨fun hopens => ?_, fun _ => rfl⟩
    rcases hopens with ⟨-, hwrites⟩ | ⟨hup, -⟩
    · rw [writes_iff, query] at hwrites
      cases hwrites
    · rw [hdown] at hup
      cases hup
  | pending response parser act query outcome next => exact .of_same query (by rw [next])
  | abandoned query outcome next left => exact .of_same query (by rw [next]; rfl)

end Caller.Deed

namespace Course

open Caller

variable {σ ε : Type} [TickSource σ]

/-- Time never goes back, and the tick that an act reads is its time as far as a counter shows it. -/
structure OnTime [Link σ] (time : Nat → Nat) (deeds : List (Deed σ)) : Prop where
  mono : Monotone time
  shows : ∀ i d, deeds[i]? = some d → d.tick = BitVec.ofNat 32 (time i)

variable [Link σ] {s : Settings} {c : Caller}

/-- The last act that opens an interval is `d`, at place `i`. -/
structure LastOpens (deeds : List (Deed (Tap σ))) (i : Nat) (d : Deed (Tap σ)) : Prop where
  deed : deeds[i]? = some d
  opens : d.Opens
  last : ∀ k e, i < k → deeds[k]? = some e → ¬ e.Opens

/-- While the link is down, the health has the tick at which the last interval opened. -/
structure Dated (s : Settings) (r : Course (Tap σ)) : Prop where
  interval : r.caller.health.retryInterval = s.retryInterval
  opened : r.caller.isConnected = false →
    ∃ i d, LastOpens r.deeds i d ∧ d.tick = r.caller.health.lastRetry

theorem LastOpens.self {deeds : List (Deed (Tap σ))} {d : Deed (Tap σ)} (h : d.Opens) :
    LastOpens (deeds ++ [d]) deeds.length d := by
  refine ⟨List.getElem?_concat_length, h, fun k e hk he => ?_⟩
  rw [List.getElem?_eq_none (by simpa [Nat.succ_le_iff] using hk)] at he
  cases he

theorem LastOpens.concat {deeds : List (Deed (Tap σ))} {i : Nat} {d e : Deed (Tap σ)}
    (h : LastOpens deeds i d) (he : ¬ e.Opens) : LastOpens (deeds ++ [e]) i d := by
  have hi : i < deeds.length := (List.getElem?_eq_some_iff.mp h.deed).1
  refine ⟨(List.getElem?_append_left hi).trans h.deed, h.opens, fun k e' hk he' => ?_⟩
  rcases Nat.lt_trichotomy k deeds.length with hlt | rfl | hgt
  · exact h.last k e' hk ((List.getElem?_append_left hlt).symm.trans he')
  · rw [List.getElem?_concat_length] at he'
    exact Option.some.inj he' ▸ he
  · rw [List.getElem?_eq_none (by simpa [Nat.succ_le_iff] using hgt)] at he'
    cases he'

theorem LastOpens.of_take {deeds : List (Deed (Tap σ))} {i j : Nat} {d : Deed (Tap σ)}
    (h : LastOpens (deeds.take j) i d) : i < j ∧ deeds[i]? = some d := by
  have hi : i < j :=
    (List.length_take_le j deeds).trans_lt' (List.getElem?_eq_some_iff.mp h.deed).1
  exact ⟨hi, by rw [← h.deed, List.getElem?_take, if_pos hi]⟩

theorem kept_dated (happen : ε → Tap σ → Tap σ) (s : Settings) : Kept happen (Dated (σ := σ) s) := by
  refine ⟨fun r a h => ?_, fun r e h => ⟨h.interval, h.opened⟩⟩
  have htimes := (⟨r.caller, r.world, a⟩ : Deed (Tap σ)).times
  refine ⟨htimes.interval.trans h.interval, fun hdown => ?_⟩
  by_cases hopens : (⟨r.caller, r.world, a⟩ : Deed (Tap σ)).Opens
  · exact ⟨_, _, .self hopens, (htimes.opens hdown hopens).symm⟩
  · obtain ⟨hwas, hlast⟩ := htimes.waits hdown hopens
    obtain ⟨i, d, hd, htick⟩ := h.opened hwas
    exact ⟨i, d, hd.concat hopens, htick.trans hlast.symm⟩

theorem dated_fresh (h : Caller.ofSettings s = .ok c) (w : Tap σ) : Dated s (fresh c w) := by
  obtain rfl := Caller.eq_of_ofSettings h
  refine ⟨rfl, fun hdown => ?_⟩
  have hup : (Health.ofSettings s).isConnected = true :=
    (Health.ofSettings s).isConnected_recordSuccess
  exact absurd (hup.symm.trans hdown) Bool.true_eq_false.mp

/-- All that a caller does over a link whose writes are recorded. -/
def tapped (happen : ε → σ → σ) (c : Caller) (w : σ) (ops : List (Op ε)) : List (Deed (Tap σ)) :=
  ((fresh c ({ world := w } : Tap σ)).run (Tap.happen happen) ops).deeds

variable {happen : ε → σ → σ} {w : σ} {ops : List (Op ε)} {time : Nat → Nat}

/-- The ticks that the health compares with the interval are the time since the last act that opened
one, as far as a counter shows it. -/
theorem ticks_since_opens (h : Caller.ofSettings s = .ok c)
    (htime : OnTime time (tapped happen c w ops)) {j : Nat} {e : Deed (Tap σ)}
    (he : (tapped happen c w ops)[j]? = some e) (hdown : e.caller.isConnected = false) :
    ∃ i d, LastOpens ((tapped happen c w ops).take j) i d ∧
      e.caller.health.retryInterval = s.retryInterval ∧
      (Ticks.diff e.tick e.caller.health.lastRetry).toNat = (time j - time i) % 2 ^ 32 := by
  have hdated := (kept_dated (Tap.happen happen) s).before_place (dated_fresh h _) ops he
  obtain ⟨i, d, hlast, htick⟩ := hdated.opened hdown
  obtain ⟨hi, hd⟩ := hlast.of_take
  refine ⟨i, d, hlast, hdated.interval, ?_⟩
  rw [← htick, htime.shows i d hd, htime.shows j e he]
  exact Ticks.toNat_diff_of_le (htime.mono hi.le)

/-- Whatever the operations, the link and the settings: an attempt that is made while the link is
down lies at least one retry interval behind each earlier one and behind each failure that took the
link down, however often the ticks wrapped. Whenever the link is down there is a last such act, and
once the interval has passed since, and the ticks have not come round, an idle caller sends a small
request. -/
theorem run_spaces_retries (h : Caller.ofSettings s = .ok c)
    (htime : OnTime time (tapped happen c w ops)) :
    let deeds := tapped happen c w ops
    (∀ i j d e, i < j → deeds[i]? = some d → deeds[j]? = some e → d.Opens → e.Probes →
        time i + s.retryInterval.toNat ≤ time j) ∧
      ∀ j e, deeds[j]? = some e → e.caller.isConnected = false →
        ∃ i d, LastOpens (deeds.take j) i d ∧
          ∀ id request, e.act = .start id request → request.length ≤ maxPayloadSize →
            e.caller.state = .idle → s.retryInterval.toNat ≤ time j - time i →
            time j - time i < 2 ^ 32 → e.Writes := by
  intro deeds
  refine ⟨fun i j d e hij hd he hopens hprobes => ?_, fun j e he hdown => ?_⟩
  · obtain ⟨k, d', hlast, hinterval, hdiff⟩ := ticks_since_opens h htime he hprobes.1
    have hik : i ≤ k := by
      by_contra hlt
      refine hlast.last i d (Nat.not_le.mp hlt) ?_ hopens
      rw [List.getElem?_take, if_pos hij, hd]
    have hdue := BitVec.le_def.mp hprobes.due
    rw [hinterval, hdiff] at hdue
    have hmod := Nat.mod_le (time j - time k) (2 ^ 32)
    have hbefore := htime.mono hik
    have hafter := htime.mono hlast.of_take.1.le
    omega
  · obtain ⟨i, d, hlast, hinterval, hdiff⟩ := ticks_since_opens h htime he hdown
    refine ⟨i, d, hlast, fun id request hact hsize hidle hover hround => ?_⟩
    refine Deed.writes_of_due hact hsize hidle hdown (BitVec.le_def.mpr ?_)
    rw [hinterval, hdiff, Nat.mod_eq_of_lt hround]
    exact hover

/-- With one failure allowed, a timeout shortly before the ticks wrap takes the link down. A start
that comes half an interval later is refused; one that comes after the interval goes out. -/
theorem retry_across_wrap :
    let s : Settings := { maxErrors := 1 }
    let c : Caller := ⟨s, .ofSettings s, .idle, .idle, 0⟩
    let time (i : Nat) : Nat := 2 ^ 32 - 300 + 250 * i
    let clock (i : Nat) : Op LineEnd := .event (.silent (BitVec.ofNat 32 (time i)))
    let ops : List (Op LineEnd) :=
      [clock 0, .start ⟨0x10⟩ [0x01], clock 1, .poll [], clock 2, .start ⟨0x10⟩ [0x02],
        clock 3, .start ⟨0x10⟩ [0x02]]
    let deeds := tapped (fun w _ => w) c (.silent 0) ops
    Caller.ofSettings s = .ok c ∧ OnTime time deeds ∧
      ∃ d e, deeds[1]? = some d ∧ deeds[3]? = some e ∧ d.Opens ∧ e.Probes ∧
        time 1 + s.retryInterval.toNat ≤ time 3 := by
  intro s c time clock ops deeds
  have hsettings : Caller.ofSettings s = .ok c := rfl
  have hticks : deeds.map Deed.tick = (List.range 4).map fun i => BitVec.ofNat 32 (time i) := by
    decide +kernel
  have hlength : deeds.length = 4 := by simpa using congrArg List.length hticks
  have htime : OnTime time deeds := by
    refine ⟨fun i j h => ?_, fun i d hd => ?_⟩
    · dsimp only [time]
      omega
    · have hi := (List.getElem?_eq_some_iff.mp hd).1
      have htick := congrArg (·[i]?) hticks
      simpa [hd, hlength ▸ hi] using htick
  obtain ⟨hspaced, hallowed⟩ := run_spaces_retries hsettings htime
  have hopens : deeds.map (fun d => decide d.Opens) = [false, true, false, true] := by
    decide +kernel
  have hplace : ∀ {i : Nat}, i < 4 → ∃ d, deeds[i]? = some d := by
    intro i hi
    rw [← hlength] at hi
    exact ⟨_, List.getElem?_eq_getElem hi⟩
  obtain ⟨d, hd⟩ := hplace (i := 1) (by decide)
  obtain ⟨e, he⟩ := hplace (i := 3) (by decide)
  have hstart : deeds[3]?.map (fun e => (e.act, e.caller.state, e.caller.isConnected)) =
      some (.start ⟨0x10⟩ [0x02], .idle, false) := by decide +kernel
  have hopensAt : ∀ {i : Nat} {d : Deed (Tap LineEnd)}, deeds[i]? = some d →
      [false, true, false, true][i]? = some (decide d.Opens) := by
    intro i d hd
    rw [← hopens, List.getElem?_map, hd]
    rfl
  have hdopens : d.Opens := of_decide_eq_true (Option.some.inj (hopensAt hd)).symm
  rw [he] at hstart
  obtain ⟨hact, hrest⟩ := Prod.mk.inj (Option.some.inj hstart)
  obtain ⟨hidle, hdown⟩ := Prod.mk.inj hrest
  obtain ⟨i, d', hlast, hallows⟩ := hallowed 3 e he hdown
  have hi : i = 1 := by
    obtain ⟨hlt, hd'⟩ := hlast.of_take
    have hat := hopensAt hd'
    rw [decide_eq_true hlast.opens] at hat
    have honly : ∀ i < 3, [false, true, false, true][i]? = some true → i = 1 := by decide
    exact honly i hlt hat
  have hwrites : e.Writes :=
    hallows _ _ hact (by decide) hidle (by rw [hi]; decide) (by rw [hi]; decide)
  exact ⟨hsettings, htime, d, e, hd, he, hdopens, ⟨hdown, hwrites⟩,
    hspaced 1 3 d e (by decide) hd he hdopens ⟨hdown, hwrites⟩⟩

end Course

end HalfLink

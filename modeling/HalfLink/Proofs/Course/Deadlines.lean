import HalfLink.Proofs.Call.Acceptance
import HalfLink.Proofs.Course.Retries

/-! When a transaction times out. A deadline is a sum of ticks, which wraps, and it counts as come
while it lies less than half the range behind. With a timeout below half the range that is exact: a
caller gives up at the first look at the clock that comes at the deadline or after it, unless the look
comes more than half the range late. -/
namespace HalfLink

namespace Ticks

/-- Ticks compare as the times do that they show, up to half the range behind the deadline. -/
theorem expired_offset {start now : Nat} {timeout : Ticks 32} (hle : start ≤ now)
    (htimeout : timeout.toNat < 2 ^ 31 - 1)
    (hnear : now - start < timeout.toNat + (2 ^ 31 - 1)) :
    expired (BitVec.ofNat 32 now) (offset (BitVec.ofNat 32 start) timeout) =
      decide (timeout.toNat ≤ now - start) := by
  rw [offset_eq_ofNat, Bool.eq_iff_iff, expired_ofNat, decide_eq_true_iff]
  push_cast
  omega

end Ticks

/-- The times that settings may give to a response. -/
theorem Settings.timeout_of_check {s : Settings} (h : s.check = .ok ()) :
    0 < s.responseTimeout.toNat ∧ s.responseTimeout.toNat < 2 ^ 31 - 1 := by
  unfold check at h
  split at h
  · cases h
  · rename_i hrange
    obtain ⟨hzero, hhalf⟩ := not_or.mp hrange
    have hne : s.responseTimeout.toNat ≠ 0 := fun he => hzero (BitVec.eq_of_toNat_eq he)
    rw [BitVec.le_def, Ticks.toNat_half] at hhalf
    omega

namespace Caller

theorem check_of_ofSettings {s : Settings} {c : Caller} (h : ofSettings s = .ok c) :
    s.check = .ok () := by
  unfold ofSettings at h
  split at h
  · cases h
  · assumption

namespace Deed

variable {σ : Type} [Link σ] [TickSource σ] {d : Deed σ}

theorem settings_next (d : Deed σ) : d.next.settings = d.caller.settings := by
  cases d.comes with
  | refused e refusal query outcome next => rw [next]
  | sent q health query attempt outcome next => rw [next]
  | unsent q health e query attempt outcome next => rw [next]
  | answered response parser act query outcome next => rw [next]
  | timedOut response act query outcome next => rw [next]
  | pending response parser act query outcome next => rw [next]
  | abandoned query outcome next => rw [next]; rfl

/-- An act leaves a transaction in flight as it is, or ends it. -/
theorem state_of_busy (hbefore : d.caller.isBusy = true) (hafter : d.next.isBusy = true) :
    d.next.state = d.caller.state := by
  have hasked : ∀ {q}, d.query? ≠ some q := by
    intro q hquery
    unfold query? at hquery
    split at hquery
    · rw [if_pos hbefore] at hquery
      cases hquery
    · cases hquery
    · cases hquery
  cases d.comes with
  | refused e refusal query outcome next => rw [next]
  | sent q health query => exact absurd query hasked
  | unsent q health e query => exact absurd query hasked
  | answered response parser act query outcome next =>
    rw [next] at hafter
    cases hafter
  | timedOut response act query outcome next =>
    rw [next] at hafter
    cases hafter
  | pending response parser act query outcome next => rw [next]
  | abandoned query outcome next =>
    rw [next] at hafter
    cases hafter

/-- A start that succeeds lays down the deadline from the tick that it reads. -/
theorem state_of_sent {id : TransactionId} {request : Bytes} (hact : d.act = .start id request)
    (hsent : d.outcome = none) :
    d.next.state = .awaiting id d.caller.nextSeq
      (Ticks.offset d.tick d.caller.settings.responseTimeout) := by
  obtain ⟨c, w, act⟩ := d
  obtain rfl : act = .start id request := hact
  simp only [outcome, run] at hsent
  have hok : (c.start id request w).1 = .ok () := by
    cases hresult : (c.start id request w).1 with
    | ok => rfl
    | error e =>
      rw [hresult] at hsent
      cases hsent
  obtain ⟨health, hstart⟩ := start_ok hok
  simp only [next, run, tick, hstart]

/-- A poll that is offered no answer times out if the deadline has come, and else changes nothing of
the transaction. -/
theorem poll_unanswered {id : TransactionId} {seq : UInt8} {deadline : Ticks 32} {response : Bytes}
    (hact : d.act = .poll response) (hstate : d.caller.state = .awaiting id seq deadline)
    (hnone : Parser.answerIn id seq d.caller.parser (Link.offer d.world) = none) :
    if Ticks.expired d.tick deadline then
      d.outcome = some (.error .timeout) ∧ d.next.state = .idle ∧ d.next.parser = .idle ∧
        d.next.health = d.caller.health.recordFailure d.tick
    else d.outcome = none ∧ d.next.state = d.caller.state ∧ d.next.health = d.caller.health := by
  obtain ⟨c, w, act⟩ := d
  obtain rfl : act = .poll response := hact
  obtain ⟨bytes, w', hreads, hend⟩ := poll_awaiting hstate response w
  cases hanswer : Parser.answerIn id seq c.parser bytes with
  | some found =>
    obtain ⟨f, rest⟩ := found
    rw [hreads.offer_eq, Parser.answerIn_append_some hanswer] at hnone
    cases hnone
  | none =>
    rw [hanswer] at hend
    have hpoll := hend.1
    have htick : (⟨c, w, .poll response⟩ : Deed σ).tick = readTicks (c.poll response w).world := rfl
    simp only [htick, outcome, next, run, hpoll, checkDeadline]
    by_cases hexpired : Ticks.expired (readTicks (Link.read readSize w').2) deadline
    · simp [hexpired]
    · simp [hexpired]

end Deed

end Caller

namespace Course

open Caller

variable {σ ε : Type} [Link σ] [TickSource σ] {s : Settings} {c : Caller}

/-- The act `d` at place `i` starts a transaction, and no later act ends it. -/
structure Underway (deeds : List (Deed σ)) (i : Nat) (d : Deed σ) : Prop where
  deed : deeds[i]? = some d
  start : ∃ id request, d.act = .start id request
  sent : d.outcome = none
  busy : ∀ k e, i < k → deeds[k]? = some e → e.next.isBusy = true

theorem Underway.of_concat {deeds : List (Deed σ)} {i : Nat} {d e : Deed σ}
    (h : Underway (deeds ++ [e]) i d) : i = deeds.length ∧ d = e ∨ Underway deeds i d := by
  have hlength := (List.getElem?_eq_some_iff.mp h.deed).1
  rw [List.length_append, List.length_singleton] at hlength
  rcases Nat.lt_succ_iff_lt_or_eq.mp hlength with hi | rfl
  · refine .inr ⟨(List.getElem?_append_left hi).symm.trans h.deed, h.start, h.sent, ?_⟩
    intro k e' hk he'
    have hlt := (List.getElem?_eq_some_iff.mp he').1
    exact h.busy k e' hk ((List.getElem?_append_left hlt).trans he')
  · have hlast := List.getElem?_concat_length (l := deeds) (a := e)
    exact .inl ⟨rfl, Option.some.inj (h.deed.symm.trans hlast)⟩

/-- The settings stay, and a caller is in the state that the start of the transaction under way left
behind. -/
theorem kept_underway (happen : ε → σ → σ) (s : Settings) : Kept happen fun r : Course σ =>
    r.caller.settings = s ∧ ∀ i d, Underway r.deeds i d → r.caller.state = d.next.state := by
  refine ⟨fun r a ⟨hsettings, hstate⟩ => ?_, fun r e h => h⟩
  refine ⟨(Deed.settings_next _).trans hsettings, fun i d hd => ?_⟩
  rcases hd.of_concat with ⟨-, rfl⟩ | hbefore
  · rfl
  · have hi := (List.getElem?_eq_some_iff.mp hbefore.deed).1
    have hsame := hstate i d hbefore
    obtain ⟨id, request, hact⟩ := hbefore.start
    have hbusy : r.caller.isBusy = true := by
      rw [isBusy, hsame, Deed.state_of_sent hact hbefore.sent]
    have hafter : (⟨r.caller, r.world, a⟩ : Deed σ).next.isBusy = true :=
      hd.busy r.deeds.length _ hi List.getElem?_concat_length
    exact (Deed.state_of_busy hbusy hafter).trans hsame

variable {happen : ε → σ → σ} {w : σ} {ops : List (Op ε)} {time : Nat → Nat}

/-- In any course of a caller, a poll that is offered no answer to the transaction under way times out
exactly when the response's time is over, however often the ticks wrapped, as long as it is not over
by half the range. A timeout is one failure and leaves nothing of the transaction; before it, polls
change neither state nor health. -/
theorem run_times_out (h : Caller.ofSettings s = .ok c)
    (htime : OnTime time ((fresh c w).run happen ops).deeds) {i j : Nat} {d e : Deed σ}
    {id : TransactionId} {request response : Bytes}
    (hd : Underway (((fresh c w).run happen ops).deeds.take j) i d)
    (hstart : d.act = .start id request)
    (he : ((fresh c w).run happen ops).deeds[j]? = some e) (hpoll : e.act = .poll response)
    (hnone : Parser.answerIn id d.caller.nextSeq e.caller.parser (Link.offer e.world) = none)
    (hnear : time j - time i < s.responseTimeout.toNat + (2 ^ 31 - 1)) :
    e.caller.state = .awaiting id d.caller.nextSeq (Ticks.offset d.tick s.responseTimeout) ∧
    if s.responseTimeout.toNat ≤ time j - time i then
      e.outcome = some (.error .timeout) ∧ e.next.state = .idle ∧ e.next.parser = .idle ∧
        e.next.health = e.caller.health.recordFailure e.tick
    else e.outcome = none ∧ e.next.state = e.caller.state ∧ e.next.health = e.caller.health := by
  have hkept := kept_underway happen s (σ := σ)
  have hfresh : (fresh c w).caller.settings = s ∧
      ∀ i d, Underway (fresh c w).deeds i d → (fresh c w).caller.state = d.next.state := by
    obtain rfl := Caller.eq_of_ofSettings h
    exact ⟨rfl, fun i d hd => by cases hd.deed⟩
  have hij : i < j :=
    (List.length_take_le j _).trans_lt' (List.getElem?_eq_some_iff.mp hd.deed).1
  have hplace : ((fresh c w).run happen ops).deeds[i]? = some d := by
    rw [← hd.deed, List.getElem?_take, if_pos hij]
  have hsettings : d.caller.settings = s := (hkept.before_place hfresh ops hplace).1
  have hstate : e.caller.state =
      .awaiting id d.caller.nextSeq (Ticks.offset d.tick s.responseTimeout) := by
    rw [(hkept.before_place hfresh ops he).2 i d hd, Deed.state_of_sent hstart hd.sent, hsettings]
  have hend := Deed.poll_unanswered hpoll hstate hnone
  have hexpired := Ticks.expired_offset (htime.mono hij.le)
    (Settings.timeout_of_check (check_of_ofSettings h)).2 hnear
  rw [← htime.shows i d hplace, ← htime.shows j e he] at hexpired
  simp only [hexpired, decide_eq_true_eq] at hend
  exact ⟨hstate, hend⟩

/-- The ticks wrap between the start and the first poll, which comes one tick early. The second comes
as late as it may. -/
theorem timeout_across_wrap :
    let time (k : Nat) : Nat :=
      2 ^ 32 - 5 + if k = 0 then 0 else if k = 1 then 19 else 20 + (2 ^ 31 - 2)
    let clock (k : Nat) : Op LineEnd := .event (.silent (BitVec.ofNat 32 (time k)))
    let ops : List (Op LineEnd) :=
      [clock 0, .start ⟨0x10⟩ [0x01], clock 1, .poll [], clock 2, .poll []]
    let deeds := ((fresh plain (.silent 0)).run (fun w _ => w) ops).deeds
    Caller.ofSettings {} = .ok plain ∧ OnTime time deeds ∧
      ∃ d e f, deeds = [d, e, f] ∧ Underway (deeds.take 2) 0 d ∧ e.outcome = none ∧
        f.outcome = some (.error .timeout) := by
  intro time clock ops deeds
  have hticks : deeds.map Deed.tick = (List.range 3).map fun k => BitVec.ofNat 32 (time k) := by
    decide +kernel
  have hlength : deeds.length = 3 := by simpa using congrArg List.length hticks
  obtain ⟨d, e, f, hdeeds⟩ := List.length_eq_three.mp hlength
  have htime : OnTime time deeds := by
    refine ⟨fun i j h => ?_, fun i d hd => ?_⟩
    · dsimp only [time]
      split_ifs <;> omega
    · have hi := (List.getElem?_eq_some_iff.mp hd).1
      have htick := congrArg (·[i]?) hticks
      simpa [hd, hlength ▸ hi] using htick
  have hacts : deeds.map Deed.act = [.start ⟨0x10⟩ [0x01], .poll [], .poll []] := by decide +kernel
  have hsent : (deeds.take 1).map Deed.outcome = [none] := by decide +kernel
  have hseq : (deeds.take 1).map (fun d => d.caller.nextSeq) = [0] := by decide +kernel
  have hbusy : (deeds.take 2).map (fun d => d.next.isBusy) = [true, true] := by decide +kernel
  have hheard : deeds.map (fun d => Parser.answerIn ⟨0x10⟩ 0 d.caller.parser (Link.offer d.world)) =
      [none, none, none] := by decide +kernel
  simp only [hdeeds, List.map_cons, List.map_nil, List.cons.injEq, List.take_succ_cons,
    List.take_zero, and_true] at hacts hsent hseq hbusy hheard
  obtain ⟨hstart, hpoll, hpoll'⟩ := hacts
  have hunder : ∀ {j : Nat}, 0 < j → j ≤ 2 → Underway (deeds.take j) 0 d := by
    intro j hpos hj
    refine ⟨by rw [List.getElem?_take, if_pos hpos, hdeeds]; rfl, ⟨_, _, hstart⟩, hsent, ?_⟩
    intro k g hk hg
    obtain rfl : k = 1 := by
      have hlt := (List.getElem?_eq_some_iff.mp hg).1
      rw [List.length_take] at hlt
      omega
    rw [List.getElem?_take, hdeeds] at hg
    split at hg
    · exact Option.some.inj hg ▸ hbusy.2
    · cases hg
  have hearly := run_times_out Caller.ofSettings_default htime (hunder Nat.one_pos (by decide)) hstart
    (show deeds[1]? = some e by rw [hdeeds]; rfl) hpoll (hseq ▸ hheard.2.1) (by decide)
  have hlate := run_times_out Caller.ofSettings_default htime (hunder Nat.two_pos le_rfl) hstart
    (show deeds[2]? = some f by rw [hdeeds]; rfl) hpoll' (hseq ▸ hheard.2.2) (by decide)
  rw [if_neg (by decide)] at hearly
  rw [if_pos (by decide)] at hlate
  exact ⟨Caller.ofSettings_default, htime, d, e, f, hdeeds, hunder Nat.two_pos le_rfl, hearly.2.1,
    hlate.2.1⟩

end Course

end HalfLink

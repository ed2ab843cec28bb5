import HalfLink.Proofs.Course.Basic
import HalfLink.Proofs.Line.Basic

/-! How the state of the connection follows from the failures: the health counts the transactions that
failed since the last one that was answered, up to the largest count that matters. -/
namespace HalfLink

namespace Health

variable (h : Health) (now : Ticks 32)

/-- The largest count that is kept. -/
def limit : Nat := if h.maxErrors = 0 then 255 else h.maxErrors.toNat

theorem toNat_nextErrors : h.nextErrors.toNat = min (h.errors.toNat + 1) h.limit := by
  have hlt := h.errors.toNat_lt
  have hmax := h.maxErrors.toNat_lt
  have hnext : (if h.errors = 255 then (255 : UInt8) else h.errors + 1).toNat =
      min (h.errors.toNat + 1) 255 := by
    split
    · rename_i hfull
      rw [hfull]
      rfl
    · rename_i hroom
      have hne : h.errors.toNat ≠ 255 := fun he => hroom (UInt8.toNat_inj.mp he)
      rw [UInt8.toNat_add, UInt8.toNat_one]
      omega
  by_cases hnever : h.maxErrors = 0
  · simp only [nextErrors, limit, hnever, if_true, hnext]
  · simp only [nextErrors, limit, hnever, if_false, UInt8.toNat_min, hnext]
    omega

@[simp] theorem errors_attempt : (h.attempt now).2.errors = h.errors := by
  unfold attempt
  split
  · rfl
  · split <;> rfl

@[simp] theorem maxErrors_attempt : (h.attempt now).2.maxErrors = h.maxErrors := by
  unfold attempt
  split
  · rfl
  · split <;> rfl

@[simp] theorem errors_recordFailure : (h.recordFailure now).errors = h.nextErrors := by
  unfold recordFailure
  dsimp only
  split <;> rfl

@[simp] theorem maxErrors_recordFailure : (h.recordFailure now).maxErrors = h.maxErrors := by
  unfold recordFailure
  dsimp only
  split <;> rfl

/-- With the count at hand, the link is up unless there is a largest count and it is reached. -/
theorem isConnected_of_errors {h : Health} {n : Nat} (hcount : h.errors.toNat = min n h.limit) :
    h.isConnected = true ↔ h.maxErrors = 0 ∨ n < h.maxErrors.toNat := by
  rw [isConnected, decide_eq_true_iff, UInt8.lt_iff_toNat_lt, hcount, limit]
  by_cases hnever : h.maxErrors = 0
  · simp only [hnever, true_or]
  · simp only [hnever, false_or, if_false]
    omega

end Health

namespace Caller.Deed

variable {σ : Type} [Link σ] [TickSource σ]

/-- Whether the act ends a transaction with its answer. -/
def answered (d : Deed σ) : Bool :=
  match d.outcome with
  | some (.ok _) | some (.error .responseTooLarge) => true
  | _ => false

/-- Whether the act ends a transaction that the other half did not answer. -/
def missed (d : Deed σ) : Bool :=
  match d.outcome with
  | some (.error .timeout) | some (.error .link) => true
  | _ => false

/-- How many transactions failed since the last one that was answered. -/
def misses (deeds : List (Deed σ)) : Nat :=
  (deeds.reverse.takeWhile fun d => !d.answered).countP missed

theorem misses_concat (deeds : List (Deed σ)) (d : Deed σ) :
    misses (deeds ++ [d]) =
      if d.answered then 0 else misses deeds + if d.missed then 1 else 0 := by
  rw [misses, List.reverse_concat, List.takeWhile_cons]
  cases d.answered with
  | true => rfl
  | false => exact List.countP_cons

/-- What an act that ends no transaction comes to. -/
def Uneventful (d : Deed σ) : Prop :=
  d.outcome = none ∨ ∃ e, (e = .busy ∨ e = .payloadTooLarge ∨ e = .disconnected ∨ e = .idle) ∧
    d.outcome = some (.error e)

theorem Uneventful.not_ends {d : Deed σ} (h : d.Uneventful) :
    d.answered = false ∧ d.missed = false := by
  unfold answered missed
  rcases h with h | ⟨e, rfl | rfl | rfl | rfl, h⟩ <;> rw [h] <;> exact ⟨rfl, rfl⟩

theorem Uneventful.misses_concat {d : Deed σ} (h : d.Uneventful) (deeds : List (Deed σ)) :
    misses (deeds ++ [d]) = misses deeds := by
  rw [Deed.misses_concat, h.not_ends.1, h.not_ends.2]
  rfl

/-- What an act does to the count of errors. -/
structure Tallies (d : Deed σ) : Prop where
  maxErrors : d.next.health.maxErrors = d.caller.health.maxErrors
  errors : d.next.health.errors =
    if d.answered then 0 else if d.missed then d.caller.health.nextErrors
    else d.caller.health.errors

theorem Uneventful.tallies {d : Deed σ} (h : d.Uneventful)
    (hmax : d.next.health.maxErrors = d.caller.health.maxErrors)
    (herrors : d.next.health.errors = d.caller.health.errors) : d.Tallies := by
  refine ⟨hmax, ?_⟩
  rw [h.not_ends.1, h.not_ends.2]
  exact herrors

theorem tallies (d : Deed σ) : d.Tallies := by
  have hattempt : ∀ {health}, d.caller.health.attempt d.tick = (true, health) →
      health.maxErrors = d.caller.health.maxErrors ∧ health.errors = d.caller.health.errors := by
    intro health h
    have hmax := d.caller.health.maxErrors_attempt d.tick
    have herrors := d.caller.health.errors_attempt d.tick
    rw [h] at hmax herrors
    exact ⟨hmax, herrors⟩
  cases d.comes with
  | refused e refusal query outcome next left =>
    exact Uneventful.tallies (.inr ⟨e, refusal, outcome⟩) (by rw [next]) (by rw [next])
  | sent q health query attempt outcome next left =>
    obtain ⟨hmax, herrors⟩ := hattempt attempt
    exact Uneventful.tallies (.inl outcome) (by rw [next, hmax]) (by rw [next, herrors])
  | unsent q health e query attempt outcome next left =>
    obtain ⟨hmax, herrors⟩ := hattempt attempt
    refine ⟨by rw [next, Health.maxErrors_recordFailure, hmax], ?_⟩
    simp only [answered, missed, outcome, next, Health.errors_recordFailure, Health.nextErrors, hmax,
      herrors]
    rfl
  | answered response parser act query outcome next =>
    have hanswered : d.answered = true := by
      unfold answered
      rcases outcome with ⟨n, outcome⟩ | outcome <;> rw [outcome]
    refine ⟨by rw [next]; rfl, ?_⟩
    rw [hanswered, next]
    rfl
  | timedOut response act query outcome next =>
    refine ⟨by rw [next, Health.maxErrors_recordFailure], ?_⟩
    simp only [answered, missed, outcome, next, Health.errors_recordFailure]
    rfl
  | pending response parser act query outcome next =>
    exact Uneventful.tallies (.inl outcome) (by rw [next]) (by rw [next])
  | abandoned query outcome next left =>
    exact Uneventful.tallies (.inl outcome) (by rw [next]; rfl) (by rw [next]; rfl)

end Caller.Deed

namespace Course

open Caller

variable {σ ε : Type} [Link σ] [TickSource σ] {s : Settings} {c : Caller}

/-- The count of errors, and the state of the connection, follow from what the caller has done. -/
structure Counted (s : Settings) (r : Course σ) : Prop where
  connected : r.caller.isConnected = true ↔
    s.maxErrors = 0 ∨ Deed.misses r.deeds < s.maxErrors.toNat
  errors : r.caller.health.errors.toNat =
    min (Deed.misses r.deeds) (if s.maxErrors = 0 then 255 else s.maxErrors.toNat)

theorem counted_of_errors {r : Course σ} (hmax : r.caller.health.maxErrors = s.maxErrors)
    (herrors : r.caller.health.errors.toNat = min (Deed.misses r.deeds) r.caller.health.limit) :
    r.Counted s := by
  refine ⟨?_, ?_⟩
  · rw [isConnected, Health.isConnected_of_errors herrors, hmax]
  · rw [herrors, Health.limit, hmax]

theorem kept_errors (happen : ε → σ → σ) (s : Settings) : Kept happen fun r : Course σ =>
    r.caller.health.maxErrors = s.maxErrors ∧
      r.caller.health.errors.toNat = min (Deed.misses r.deeds) r.caller.health.limit := by
  refine ⟨fun r a ⟨hmax, herrors⟩ => ?_, fun r e h => h⟩
  obtain ⟨hmaxNext, herrorsNext⟩ := (⟨r.caller, r.world, a⟩ : Deed σ).tallies
  have hlimit := r.caller.health.toNat_nextErrors
  have hsame : (r.act a).caller.health.limit = r.caller.health.limit := by
    rw [Health.limit, Health.limit, Course.act, hmaxNext]
  refine ⟨hmaxNext.trans hmax, ?_⟩
  rw [hsame]
  simp only [Course.act, Deed.misses_concat, herrorsNext]
  split
  · rfl
  · split <;> omega

theorem errors_fresh (h : Caller.ofSettings s = .ok c) (w : σ) :
    (fresh c w).caller.health.maxErrors = s.maxErrors ∧
      (fresh c w).caller.health.errors.toNat =
        min (Deed.misses (fresh c w).deeds) (fresh c w).caller.health.limit := by
  obtain rfl := Caller.eq_of_ofSettings h
  exact ⟨rfl, rfl⟩

/-- After any operations, and before each of the acts they are made of, the connection is up as long
as fewer transactions than the settings allow have failed since the last one that was answered, and
the count of errors is the number of these, cut at the largest count that is kept. Acts that end no
transaction leave both numbers as they are. -/
theorem run_counts_failures (h : Caller.ofSettings s = .ok c) (happen : ε → σ → σ) (w : σ)
    (ops : List (Op ε)) :
    let r := (fresh c w).run happen ops
    r.Counted s ∧
      ∀ front d back, r.deeds = front ++ d :: back →
        (⟨d.caller, d.world, front⟩ : Course σ).Counted s ∧
          (d.Uneventful → Deed.misses (front ++ [d]) = Deed.misses front ∧
            d.next.health.errors = d.caller.health.errors) := by
  intro r
  have hkept := kept_errors happen s (σ := σ)
  have hfresh := errors_fresh h w
  obtain ⟨hmax, herrors⟩ := hkept.run hfresh ops
  refine ⟨counted_of_errors hmax herrors, fun front d back hd => ?_⟩
  obtain ⟨hmaxBefore, herrorsBefore⟩ := hkept.before hfresh ops hd
  refine ⟨counted_of_errors hmaxBefore herrorsBefore, fun hquiet => ⟨hquiet.misses_concat front, ?_⟩⟩
  rw [d.tallies.errors, hquiet.not_ends.1, hquiet.not_ends.2]
  rfl

/-- Of three transactions the second is abandoned and the others time out: with two failures allowed
the link is down, and the next start is refused. -/
theorem down_after_two_timeouts :
    let s : Settings := { maxErrors := 2 }
    let c : Caller := ⟨s, .ofSettings s, .idle, .idle, 0⟩
    let ops : List (Op LineEnd) :=
      [.send 2 ⟨0x10⟩ [0x01] [], .event (.silent 20), .poll [], .start ⟨0x10⟩ [0x02], .abandon,
        .start ⟨0x10⟩ [0x03], .event (.silent 40), .poll [], .start ⟨0x10⟩ [0x04]]
    let r := (fresh c (.silent 0)).run (fun w _ => w) ops
    Caller.ofSettings s = .ok c ∧ r.caller.isConnected = false ∧
      r.caller.health.errors.toNat = 2 := by
  intro s c ops r
  have hsettings : Caller.ofSettings s = .ok c := rfl
  have hmisses : Deed.misses r.deeds = 2 := by decide +kernel
  have hcounted : r.Counted s :=
    (run_counts_failures hsettings (fun w _ => w) (LineEnd.silent 0) ops).1
  have herrors := hcounted.errors
  have hdown : ¬ r.caller.isConnected = true := by
    rw [hcounted.connected, hmisses]
    decide
  have htwo : min 2 (if s.maxErrors = 0 then 255 else s.maxErrors.toNat) = 2 := by decide
  rw [hmisses, htwo] at herrors
  exact ⟨hsettings, Bool.eq_false_iff.mpr hdown, herrors⟩

end Course

end HalfLink

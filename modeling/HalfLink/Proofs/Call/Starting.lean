import HalfLink.Call.Caller
import HalfLink.Proofs.Frame.Wire

/-! How a transaction starts: a start is refused without a trace, or it hands the whole request to the
link. -/
namespace HalfLink

theorem Health.attempt_false {h h' : Health} {now : Ticks 32} (e : h.attempt now = (false, h')) :
    h' = h := by
  unfold attempt at e
  split at e
  · cases e
  · split at e
    · cases e
    · exact (Prod.mk.inj e).2.symm

namespace Caller

/-- A fresh caller with the settings that hold unless others are given. -/
def plain : Caller := ⟨{}, .ofSettings {}, .idle, .idle, 0⟩

theorem ofSettings_default : ofSettings {} = .ok plain := rfl

variable {σ : Type} [Link σ] [TickSource σ]

/-- All that a start can do. The checks come one after the other, and what passes them is sent as one
frame with the next number. -/
theorem start_cases (c : Caller) (id : TransactionId) (request : Bytes) (w : σ) :
    (c.isBusy = true ∧ c.start id request w = (.error .busy, c, w)) ∨
    (c.isBusy = false ∧ maxPayloadSize < request.length ∧
      c.start id request w = (.error .payloadTooLarge, c, w)) ∨
    (c.isBusy = false ∧ request.length ≤ maxPayloadSize ∧
      (c.health.attempt (readTicks w)).1 = false ∧
      c.start id request w = (.error .disconnected, c, w)) ∨
    (c.isBusy = false ∧ ∃ payload : Payload, payload.toList = request ∧
      ∃ health, c.health.attempt (readTicks w) = (true, health) ∧
        c.start id request w =
          { c with health, nextSeq := c.nextSeq + 1 }.transmit (readTicks w) id c.nextSeq
            (Frame.encode ⟨.request, id, c.nextSeq, payload⟩) w) := by
  unfold start
  cases hbusy : c.isBusy with
  | true => exact .inl ⟨rfl, if_pos rfl⟩
  | false =>
    right
    rw [if_neg Bool.false_ne_true]
    by_cases hlarge : maxPayloadSize < request.length
    · exact .inl ⟨rfl, hlarge, if_pos hlarge⟩
    right
    rw [if_neg hlarge]
    have hsize := Nat.not_lt.mp hlarge
    rcases hattempt : c.health.attempt (readTicks w) with ⟨_ | _, health⟩
    · obtain rfl := Health.attempt_false hattempt
      exact .inl ⟨rfl, hsize, rfl, by simp only [hattempt]⟩
    · refine .inr ⟨rfl, ⟨request, hsize⟩, rfl, health, rfl, ?_⟩
      have hframe : Frame.request id c.nextSeq request =
          .ok ⟨.request, id, c.nextSeq, ⟨request, hsize⟩⟩ := by
        simp [Frame.request, Frame.make, Buffer.ofList?, hsize]
      simp only [hattempt, hframe, Frame.toBuffer_eq]

/-- A start that succeeds leaves the caller awaiting the answer to its number, with a fresh parser. -/
theorem start_ok {c : Caller} {id : TransactionId} {request : Bytes} {w : σ}
    (h : (c.start id request w).1 = .ok ()) :
    ∃ health, (c.start id request w).2.1 =
      { c with
        health
        parser := .idle
        state := .awaiting id c.nextSeq (Ticks.offset (readTicks w) c.settings.responseTimeout)
        nextSeq := c.nextSeq + 1 } := by
  rcases c.start_cases id request w with
    ⟨-, hstart⟩ | ⟨-, -, hstart⟩ | ⟨-, -, -, hstart⟩ | ⟨-, payload, -, health, -, hstart⟩
  · rw [hstart] at h
    cases h
  · rw [hstart] at h
    cases h
  · rw [hstart] at h
    cases h
  · refine ⟨health, ?_⟩
    rw [hstart, transmit] at h ⊢
    dsimp only at h ⊢
    split at h
    · cases h
    · rfl

end Caller

end HalfLink

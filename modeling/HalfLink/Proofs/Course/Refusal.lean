import HalfLink.Proofs.Course.Failures
import HalfLink.Proofs.Course.Retries

/-! What a start leaves behind. The checks come in a fixed order, and a start that one of them refuses
leaves everything as it was, the time of the last attempt included. Any other start makes one write,
and what the link makes of that decides the rest. -/
namespace HalfLink

namespace Health

variable (h : Health) (now : Ticks 32)

/-- An attempt is refused while the link is down and the interval since the last one is not over. -/
theorem attempt_eq_false_iff :
    (h.attempt now).1 = false ↔
      h.isConnected = false ∧ Ticks.diff now h.lastRetry < h.retryInterval := by
  cases hconnected : h.isConnected with
  | true => simp [attempt, hconnected]
  | false =>
    rw [attempt_down now hconnected, ← BitVec.not_le]
    split <;> simp [*]

/-- A failed attempt counts as one failure. -/
theorem errors_failed_attempt :
    ((h.attempt now).2.recordFailure now).errors.toNat = min (h.errors.toNat + 1) h.limit := by
  have hlimit : (h.attempt now).2.limit = h.limit := by
    rw [limit, maxErrors_attempt, ← limit]
  rw [errors_recordFailure, toNat_nextErrors, errors_attempt, hlimit]

end Health

/-- A write is recorded, whatever the link makes of it. -/
theorem Tap.write_eq {σ : Type} [Link σ] (bytes : Bytes) (t : Tap σ) :
    Link.write bytes t = ((Link.write bytes t.world).1,
      { t with
        world := (Link.write bytes t.world).2
        posts := t.posts ++ [(t.turn, bytes)]
        heard := [] }) := rfl

namespace Caller

variable {σ : Type} [Link σ] [TickSource σ]

/-- What a start comes to whose frame is written: the write is the only one, and it decides the rest. -/
structure Posted (c : Caller) (id : TransactionId) (f : Frame) (t : Tap σ)
    (after : Except Failure Unit × Caller × Tap σ) : Prop where
  posts : after.2.2.posts = t.posts ++ [(t.turn, f.encode)]
  world : after.2.2.world = (Link.write f.encode t.world).2
  settings : after.2.1.settings = c.settings
  nextSeq : after.2.1.nextSeq = c.nextSeq + 1
  parser : after.2.1.parser = .idle
  result : match (Link.write f.encode t.world).1 with
    | .ok _ => after.1 = .ok () ∧
        after.2.1.state =
          .awaiting id f.seq (Ticks.offset (readTicks t) c.settings.responseTimeout) ∧
        after.2.1.health = (c.health.attempt (readTicks t)).2
    | .error _ => after.1 = .error .link ∧ after.2.1.state = .idle ∧
        after.2.1.health = (c.health.attempt (readTicks t)).2.recordFailure (readTicks t) ∧
        after.2.1.health.errors.toNat = min (c.health.errors.toNat + 1) c.health.limit

theorem state_of_not_busy {c : Caller} (h : c.isBusy = false) : c.state = .idle := by
  cases hstate : c.state with
  | idle => rfl
  | awaiting id seq deadline =>
    rw [isBusy, hstate] at h
    cases h

theorem posted_transmit {c : Caller} (hidle : c.isBusy = false) (id : TransactionId) {f : Frame}
    (hseq : f.seq = c.nextSeq) (t : Tap σ) {health : Health}
    (hattempt : c.health.attempt (readTicks t) = (true, health)) :
    c.Posted id f t
      ({ c with health, nextSeq := c.nextSeq + 1 }.transmit (readTicks t) id c.nextSeq f.encode t) := by
  obtain rfl : (c.health.attempt (readTicks t)).2 = health := congrArg Prod.snd hattempt
  have herrors := c.health.errors_failed_attempt (readTicks t)
  rw [transmit, Tap.write_eq]
  cases hwrite : (Link.write f.encode t.world).1 with
  | error e =>
    constructor
    case result =>
      rw [hwrite]
      exact ⟨rfl, state_of_not_busy hidle, rfl, herrors⟩
    all_goals rfl
  | ok =>
    constructor
    case result =>
      rw [hwrite, hseq]
      exact ⟨rfl, rfl, rfl⟩
    all_goals rfl

theorem Posted.result_cases {c : Caller} {id : TransactionId} {f : Frame} {t : Tap σ}
    {after : Except Failure Unit × Caller × Tap σ} (h : c.Posted id f t after) :
    after.1 = .ok () ∨ after.1 = .error .link := by
  have hresult := h.result
  split at hresult
  · exact .inl hresult.1
  · exact .inr hresult.1

/-- What a start comes to, over all that can stand in its way. -/
structure Atomic (c : Caller) (id : TransactionId) (request : Bytes) (t : Tap σ) : Prop where
  busy : (c.start id request t).1 = .error .busy ↔ c.isBusy = true
  payloadTooLarge : c.isBusy = false →
    ((c.start id request t).1 = .error .payloadTooLarge ↔ maxPayloadSize < request.length)
  disconnected : c.isBusy = false → request.length ≤ maxPayloadSize →
    ((c.start id request t).1 = .error .disconnected ↔ c.isConnected = false ∧
      Ticks.diff (readTicks t) c.health.lastRetry < c.health.retryInterval)
  refused : ∀ e, e = .busy ∨ e = .payloadTooLarge ∨ e = .disconnected →
    (c.start id request t).1 = .error e → (c.start id request t).2 = (c, t)
  posted : (∀ e, e = .busy ∨ e = .payloadTooLarge ∨ e = .disconnected →
      (c.start id request t).1 ≠ .error e) →
    ∃ payload : Payload, payload.toList = request ∧
      c.Posted id ⟨.request, id, c.nextSeq, payload⟩ t (c.start id request t)

/-- A start is refused without a trace exactly when a check says so, the first of them that does, and
else makes one write. -/
theorem start_atomic (c : Caller) (id : TransactionId) (request : Bytes) (t : Tap σ) :
    c.Atomic id request t := by
  have hattempt := c.health.attempt_eq_false_iff (readTicks t)
  rcases c.start_cases id request t with
    ⟨hbusy, hstart⟩ | ⟨hidle, hlarge, hstart⟩ | ⟨hidle, hsize, hdown, hstart⟩ |
      ⟨hidle, payload, rfl, health, hpasses, hstart⟩
  · have hnot : c.isBusy ≠ false := fun hidle => Bool.noConfusion (hbusy.symm.trans hidle)
    constructor <;> rw [hstart]
    case busy => exact iff_of_true rfl hbusy
    case payloadTooLarge => exact fun hidle => absurd hidle hnot
    case disconnected => exact fun hidle => absurd hidle hnot
    case refused => exact fun _ _ _ => rfl
    case posted => exact fun hnone => absurd rfl (hnone .busy (.inl rfl))
  · constructor <;> rw [hstart]
    case busy => exact iff_of_false nofun (Bool.eq_false_iff.mp hidle)
    case payloadTooLarge => exact fun _ => iff_of_true rfl hlarge
    case disconnected => exact fun _ hsize => absurd hlarge (Nat.not_lt.mpr hsize)
    case refused => exact fun _ _ _ => rfl
    case posted => exact fun hnone => absurd rfl (hnone .payloadTooLarge (.inr (.inl rfl)))
  · constructor <;> rw [hstart]
    case busy => exact iff_of_false nofun (Bool.eq_false_iff.mp hidle)
    case payloadTooLarge => exact fun _ => iff_of_false nofun (Nat.not_lt.mpr hsize)
    case disconnected => exact fun _ _ => iff_of_true rfl (hattempt.mp hdown)
    case refused => exact fun _ _ _ => rfl
    case posted => exact fun hnone => absurd rfl (hnone .disconnected (.inr (.inr rfl)))
  · have hposted := posted_transmit hidle id (f := ⟨.request, id, c.nextSeq, payload⟩) rfl t hpasses
    rw [← hstart] at hposted
    have hother : ∀ e, e ≠ .link → (c.start id payload.toList t).1 ≠ .error e := by
      rintro e hne he
      rcases hposted.result_cases with h | h <;> rw [h] at he
      · cases he
      · exact hne (Except.error.inj he).symm
    constructor
    case busy => exact iff_of_false (hother _ (by decide)) (Bool.eq_false_iff.mp hidle)
    case payloadTooLarge =>
      exact fun _ => iff_of_false (hother _ (by decide)) (Nat.not_lt.mpr payload.length_le)
    case disconnected =>
      refine fun _ _ => iff_of_false (hother _ (by decide)) fun hdown => ?_
      have hfalse := hattempt.mpr hdown
      rw [hpasses] at hfalse
      cases hfalse
    case refused =>
      rintro e (rfl | rfl | rfl) he
      · exact absurd he (hother _ (by decide))
      · exact absurd he (hother _ (by decide))
      · exact absurd he (hother _ (by decide))
    case posted => exact fun _ => ⟨payload, rfl, hposted⟩

end Caller

end HalfLink

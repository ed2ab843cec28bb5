import HalfLink.Proofs.Frame.Delivery
import Mathlib.Computability.StateTransition

/-! The places that the plain reading comes to, one after the other. It comes to a given place unless a
frame that opens in front of the place ends behind it, or is undecided at the end of the bytes. -/
namespace HalfLink

open StateTransition

/-- The place that the reading comes to next, where a place is the bytes from it on. There is none
behind the end, and none behind a start byte whose frame is undecided. -/
def advance : Bytes → Option Bytes
  | [] => none
  | byte :: rest =>
    if byte = frameStart then
      match Opening.read rest with
      | .frame _ behind => some behind
      | .invalid _ => some rest
      | .undecided => none
    else some rest

theorem advance_frame {rest behind : Bytes} {f : Frame} (h : Opening.read rest = .frame f behind) :
    advance (frameStart :: rest) = some behind := by
  simp [advance, h]

theorem advance_invalid {rest : Bytes} {e : FrameError} (h : Opening.read rest = .invalid e) :
    advance (frameStart :: rest) = some rest := by
  simp [advance, h]

theorem advance_undecided {rest : Bytes} (h : Opening.read rest = .undecided) :
    advance (frameStart :: rest) = none := by
  simp [advance, h]

theorem advance_of_ne {byte : UInt8} (h : byte ≠ frameStart) (rest : Bytes) :
    advance (byte :: rest) = some rest := by
  simp [advance, h]

/-- All that one step of the reading can do. -/
theorem advance_cases {a b : Bytes} (h : advance a = some b) :
    (∃ rest f, a = frameStart :: rest ∧ Opening.read rest = .frame f b) ∨
      (∃ e, a = frameStart :: b ∧ Opening.read b = .invalid e) ∨
      ∃ byte, byte ≠ frameStart ∧ a = byte :: b := by
  cases a with
  | nil => cases h
  | cons byte rest =>
    by_cases hbyte : byte = frameStart
    · subst hbyte
      cases hread : Opening.read rest with
      | frame f behind =>
        rw [advance_frame hread] at h
        obtain rfl := Option.some.inj h
        exact .inl ⟨rest, f, rfl, hread⟩
      | invalid e =>
        rw [advance_invalid hread] at h
        obtain rfl := Option.some.inj h
        exact .inr (.inl ⟨e, rfl, hread⟩)
      | undecided =>
        rw [advance_undecided hread] at h
        cases h
    · rw [advance_of_ne hbyte] at h
      obtain rfl := Option.some.inj h
      exact .inr (.inr ⟨byte, hbyte, rfl⟩)

theorem scan_of_advance {a b : Bytes} (h : advance a = some b) :
    ∃ fs, scan a = (fs ++ (scan b).1, (scan b).2) := by
  rcases advance_cases h with ⟨rest, f, rfl, hread⟩ | ⟨e, rfl, hread⟩ | ⟨byte, hbyte, rfl⟩
  · exact ⟨[f], scan_frame hread⟩
  · exact ⟨[], scan_invalid hread⟩
  · exact ⟨[], scan_cons_of_ne hbyte b⟩

theorem suffix_of_advance {a b : Bytes} (h : advance a = some b) : b <:+ a := by
  rcases advance_cases h with ⟨rest, f, rfl, hread⟩ | ⟨e, rfl, hread⟩ | ⟨byte, hbyte, rfl⟩
  · rw [Opening.eq_encode_of_read hread]
    exact List.suffix_append _ _
  · exact List.suffix_cons _ _
  · exact List.suffix_cons _ _

theorem scan_of_reaches {a b : Bytes} (h : Reaches advance a b) :
    ∃ fs, scan a = (fs ++ (scan b).1, (scan b).2) := by
  induction h with
  | refl => exact ⟨[], rfl⟩
  | tail _ hstep ih =>
    obtain ⟨fs, hscan⟩ := ih
    obtain ⟨more, hmore⟩ := scan_of_advance hstep
    exact ⟨fs ++ more, by rw [hscan, hmore, List.append_assoc]⟩

theorem suffix_of_reaches {a b : Bytes} (h : Reaches advance a b) : b <:+ a := by
  induction h with
  | refl => exact List.suffix_rfl
  | tail _ hstep ih => exact (suffix_of_advance hstep).trans ih

/-- Of two places that the reading comes to, it comes from the longer to the shorter. -/
theorem reaches_of_length_le {bytes a b : Bytes} (ha : Reaches advance bytes a)
    (hb : Reaches advance bytes b) (hlength : b.length ≤ a.length) : Reaches advance a b := by
  rcases reaches_total ha hb with hab | hba
  · exact hab
  · obtain rfl : a = b := (suffix_of_reaches hba).eq_of_length_le hlength
    exact hba

/-- What is undecided at the end of the first part of the bytes is a place that the reading of all of
them comes to. -/
theorem reaches_undecided (a b : Bytes) : Reaches advance (a ++ b) ((scan a).2 ++ b) := by
  fun_induction scan a with
  | case1 => exact .refl
  | case2 rest f behind hread frames undecided hscan ih =>
    have hmore := Opening.read_append rest b (by simp [hread])
    rw [hread] at hmore
    rw [hscan] at ih
    exact .head (advance_frame hmore) ih
  | case3 rest e hread ih =>
    have hmore := Opening.read_append rest b (by simp [hread])
    rw [hread] at hmore
    exact .head (advance_invalid hmore) ih
  | case4 rest hread => exact .refl
  | case5 byte rest hbyte ih => exact .head (advance_of_ne hbyte _) ih

/-- In the reading of the bytes, a frame that opens in front of `tail` ends behind the place where
`tail` begins, or it is undecided at the end. -/
def Overrun (bytes tail : Bytes) : Prop :=
  ∃ rest, Reaches advance bytes (frameStart :: rest) ∧ tail.length ≤ rest.length ∧
    (Opening.read rest = .undecided ∨
      ∃ f behind, Opening.read rest = .frame f behind ∧ behind.length < tail.length)

theorem Overrun.of_advance {a b tail : Bytes} (hstep : advance a = some b) (h : Overrun b tail) :
    Overrun a tail := by
  obtain ⟨rest, hreach, hover⟩ := h
  exact ⟨rest, .head hstep hreach, hover⟩

theorem reaches_or_overrun {bytes tail : Bytes} (h : tail <:+ bytes) :
    Reaches advance bytes tail ∨ Overrun bytes tail := by
  -- One step of the reading keeps the place in front of it.
  have go : ∀ {a b : Bytes}, advance a = some b → (Reaches advance b tail ∨ Overrun b tail) →
      Reaches advance a tail ∨ Overrun a tail := fun hstep =>
    Or.imp (.head hstep) (.of_advance hstep)
  fun_induction scan bytes with
  | case1 =>
    obtain rfl := List.suffix_nil.mp h
    exact .inl .refl
  | case2 rest f behind hread frames undecided hscan ih =>
    rcases List.suffix_cons_iff.mp h with rfl | htail
    · exact .inl .refl
    by_cases hlength : tail.length ≤ behind.length
    · have hbehind := suffix_of_advance (advance_frame hread)
      exact go (advance_frame hread) (ih (List.suffix_of_suffix_length_le h hbehind hlength))
    · exact .inr ⟨rest, .refl, htail.length_le, .inr ⟨f, behind, hread, Nat.lt_of_not_le hlength⟩⟩
  | case3 rest e hread ih =>
    rcases List.suffix_cons_iff.mp h with rfl | htail
    · exact .inl .refl
    · exact go (advance_invalid hread) (ih htail)
  | case4 rest hread =>
    rcases List.suffix_cons_iff.mp h with rfl | htail
    · exact .inl .refl
    · exact .inr ⟨rest, .refl, htail.length_le, .inl hread⟩
  | case5 byte rest hbyte ih =>
    rcases List.suffix_cons_iff.mp h with rfl | htail
    · exact .inl .refl
    · exact go (advance_of_ne hbyte rest) (ih htail)

theorem not_reaches_of_overrun {bytes tail : Bytes} (h : Overrun bytes tail) :
    ¬ Reaches advance bytes tail := by
  intro htail
  obtain ⟨rest, hreach, hlength, hover⟩ := h
  have hfrom := reaches_of_length_le hreach htail (by rw [List.length_cons]; omega)
  rcases hfrom.cases_head with heq | ⟨next, hstep, hnext⟩
  · rw [← heq, List.length_cons] at hlength
    omega
  rcases hover with hread | ⟨f, behind, hread, hbehind⟩
  · rw [Option.mem_def, advance_undecided hread] at hstep
    cases hstep
  · rw [Option.mem_def, advance_frame hread] at hstep
    obtain rfl := Option.some.inj hstep
    have := (suffix_of_reaches hnext).length_le
    omega

theorem reaches_iff_not_overrun {bytes tail : Bytes} (h : tail <:+ bytes) :
    Reaches advance bytes tail ↔ ¬ Overrun bytes tail :=
  ⟨fun hreach hover => not_reaches_of_overrun hover hreach, (reaches_or_overrun h).resolve_right⟩

namespace Parser

/-- When the reading comes to the place of a frame, the frame's last byte settles the frame, and no
frame behind it. -/
theorem settled_of_reaches {g : Frame} {bytes front : Bytes} {byte : UInt8}
    (h : front ++ [byte] = g.encode) (hreach : Reaches advance (bytes ++ g.encode) g.encode) :
    ∃ others, scan ((scan (bytes ++ front)).2 ++ [byte]) = (others ++ [g], []) := by
  have hundecided := reaches_undecided (bytes ++ front) [byte]
  rw [List.append_assoc, h] at hundecided
  by_cases hlength : g.encode.length ≤ ((scan (bytes ++ front)).2 ++ [byte]).length
  · obtain ⟨others, hscan⟩ := scan_of_reaches (reaches_of_length_le hundecided hreach hlength)
    rw [scan_encode] at hscan
    exact ⟨others, hscan⟩
  · -- The reading is never undecided within the frame from a later place on.
    have hfrom := reaches_of_length_le hreach hundecided (Nat.le_of_not_le hlength)
    rcases hfrom.cases_head with heq | ⟨next, hstep, hnext⟩
    · rw [heq] at hlength
      exact absurd le_rfl hlength
    · have hread : Opening.read g.encode.tail = .frame g [] :=
        Opening.read_encode (by simp [Frame.encode])
      have hadvance : advance g.encode = some [] := advance_frame hread
      rw [Option.mem_def, hadvance] at hstep
      obtain rfl := Option.some.inj hstep
      have := (suffix_of_reaches hnext).length_le
      simp at this

theorem feed_of_reaches {g : Frame} {bytes front : Bytes} {byte : UInt8}
    (h : front ++ [byte] = g.encode) (hreach : Reaches advance (bytes ++ g.encode) g.encode)
    (halone : (settled (bytes ++ front) byte).length ≤ 1) :
    (idle.feedAll (bytes ++ front)).2.feed byte = (.ok (some g), idle) := by
  obtain ⟨others, hscan⟩ := settled_of_reaches h hreach
  rw [settled_eq, hscan, List.length_append, List.length_singleton] at halone
  obtain rfl : others = [] := List.length_eq_zero_iff.mp (by omega)
  rw [feedAll_idle, feed_behind (pending_scan _), verdict, hscan]
  rfl

end Parser

end HalfLink

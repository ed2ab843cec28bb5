import HalfLink.Proofs.Frame.Reaching
import HalfLink.Proofs.Frame.Segments
import HalfLink.Proofs.Frame.Wire

/-! Finding frames again behind noise. A start byte in the noise can hold no more than the longest
frame, so behind that many bytes of frames that show no other start byte the receiver is where the
frames are. -/
namespace HalfLink

open StateTransition

/-- The frame's wire form shows no start byte but its own. -/
def Frame.Plain (f : Frame) : Prop := frameStart ∉ f.encode.tail

instance (f : Frame) : Decidable f.Plain := inferInstanceAs (Decidable (frameStart ∉ f.encode.tail))

theorem scan_wire (fs : List Frame) : scan (wire fs) = (fs, []) := by
  induction fs with
  | nil => exact scan_of_quiet List.not_mem_nil
  | cons f fs ih => rw [wire_cons, scan_encode_append, ih]

/-- From any byte of plain frames on nothing is undecided at their end. -/
theorem scan_suffix_wire {fs : List Frame} (hplain : ∀ f ∈ fs, f.Plain) {bytes : Bytes}
    (h : bytes <:+ wire fs) : (scan bytes).2 = [] := by
  obtain ⟨taken, htaken⟩ := h
  have hbytes : bytes = (wire fs).drop taken.length := by rw [← htaken, List.drop_left]
  have hlength : taken.length ≤ (wire fs).length := by rw [← htaken, List.length_append]; omega
  obtain ⟨before, after, back, rfl, hdrop, hback⟩ := drop_wire hlength
  have hquiet : frameStart ∉ back := by
    rcases hback with rfl | ⟨earlier, f, front, rfl, hencode, hfront, -⟩
    · exact List.not_mem_nil
    · intro hmem
      obtain ⟨start, front, rfl⟩ := List.exists_cons_of_ne_nil hfront
      apply hplain f (by simp)
      rw [hencode]
      exact List.mem_append_right front hmem
  rw [hbytes, hdrop, scan_quiet_append hquiet, scan_wire]

/-- In front of plain frames noise leaves nothing undecided, unless it is still undecided from one of
its own bytes on. -/
theorem scan_noise (noise : Bytes) {fs : List Frame} (hplain : ∀ f ∈ fs, f.Plain) :
    (scan (noise ++ wire fs)).2 = [] ∨
      (wire fs).length < (scan (noise ++ wire fs)).2.length := by
  have hframes : wire fs <:+ noise ++ wire fs := List.suffix_append _ _
  rcases reaches_or_overrun hframes with hreach | ⟨rest, hreach, hlength, hover⟩
  · obtain ⟨earlier, hscan⟩ := scan_of_reaches hreach
    left
    rw [hscan, scan_wire]
  obtain ⟨earlier, hscan⟩ := scan_of_reaches hreach
  rcases hover with hread | ⟨f, behind, hread, hbehind⟩
  · right
    rw [hscan, scan_undecided hread, List.length_cons]
    omega
  · left
    have hrest : behind <:+ noise ++ wire fs :=
      (suffix_of_advance (advance_frame hread)).trans (suffix_of_reaches hreach)
    rw [hscan, scan_frame hread]
    exact scan_suffix_wire hplain (List.suffix_of_suffix_length_le hrest hframes hbehind.le)

namespace Parser

/-- A receiver that is idle behind some bytes gives the next frame at its last byte. -/
theorem feedAll_append_encode {bytes : Bytes} (h : (idle.feedAll bytes).2 = idle) (f : Frame) :
    idle.feedAll (bytes ++ f.encode) =
      ((idle.feedAll bytes).1 ++
        (List.replicate (f.encode.length - 1) (.ok none) ++ [.ok (some f)]), idle) := by
  rw [feedAll_append, h, feedAll_encode]

/-- Behind any noise, a receiver is idle after that many bytes of plain frames. -/
theorem idle_of_far (noise : Bytes) {fs : List Frame} (hplain : ∀ f ∈ fs, f.Plain)
    (hfar : 255 ≤ (wire fs).length) : (idle.feedAll (noise ++ wire fs)).2 = idle := by
  have hpending : (scan (noise ++ wire fs)).2.length ≤ 255 := (pending_scan _).length_le
  have hnothing : (scan (noise ++ wire fs)).2 = [] := by
    rcases scan_noise noise hplain with hnothing | hmore
    · exact hnothing
    · omega
  rw [feedAll_idle, hnothing, behind]

/-- Behind any noise and 255 bytes of plain frames, the bytes of the next frame give the frame at the
last of them and nothing before, and leave the receiver idle. -/
theorem resumes_behind_noise (noise : Bytes) (before : List Frame) (f : Frame) (after : List Frame)
    (hplain : ∀ g ∈ before, g.Plain) (hfar : 255 ≤ (wire before).length) :
    (∃ first last, first.length = noise.length + (wire before).length ∧
      (idle.feedAll (noise ++ wire (before ++ f :: after))).1 =
        first ++ (List.replicate (f.encode.length - 1) (.ok none) ++ [.ok (some f)]) ++ last) ∧
    (idle.feedAll (noise ++ wire (before ++ [f]))).2 = idle := by
  have hidle := idle_of_far noise hplain hfar
  have hframe := feedAll_append_encode hidle f
  constructor
  · refine ⟨(idle.feedAll (noise ++ wire before)).1, (idle.feedAll (wire after)).1, ?_, ?_⟩
    · rw [length_feedAll, List.length_append]
    · have hmore : noise ++ wire (before ++ f :: after) =
          noise ++ wire before ++ f.encode ++ wire after := by simp
      rw [hmore, feedAll_append, hframe]
  · have hlast : noise ++ wire (before ++ [f]) = noise ++ wire before ++ f.encode := by simp
    rw [hlast, hframe]

private def long : Frame :=
  ⟨.request, ⟨0x10⟩, 1, ⟨List.replicate maxPayloadSize 0, List.length_replicate.le⟩⟩

private def short : Frame := ⟨.response, ⟨0x10⟩, 1, Buffer.empty.pushAll [0xAA]⟩

/-- Noise that opens a frame of 250 bytes, which the frame behind it fills. -/
theorem resumes_behind_false_start :
    let noise := [0xAA, 0xFA, 0x01, 0x10, 0x05]
    (∀ g ∈ [long], g.Plain) ∧ 255 ≤ (wire [long]).length ∧
      (∃ first last, first.length = noise.length + (wire [long]).length ∧
        (idle.feedAll (noise ++ wire ([long] ++ short :: [long]))).1 =
          first ++ (List.replicate (short.encode.length - 1) (.ok none) ++ [.ok (some short)]) ++
            last) ∧
      (idle.feedAll (noise ++ wire ([long] ++ [short]))).2 = idle := by
  intro noise
  have hplain : ∀ g ∈ [long], g.Plain := by decide +kernel
  have hfar : 255 ≤ (wire [long]).length := by decide +kernel
  exact ⟨hplain, hfar, resumes_behind_noise noise [long] short [long] hplain hfar⟩

end Parser

end HalfLink

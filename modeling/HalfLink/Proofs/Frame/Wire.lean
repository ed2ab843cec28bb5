import HalfLink.Proofs.Frame.Delivery

/-! Whole frames on the wire: what is written for a frame, and how a receiver takes frames that follow
one another without a gap. -/
namespace HalfLink

theorem Bytes.splice_append (front target bytes : Bytes) :
    (front ++ target).splice front.length bytes = front ++ bytes ++ target.drop bytes.length := by
  simp [Bytes.splice]

namespace Frame

theorem encodeInto_of_le (f : Frame) (target : Bytes) (h : f.encodedLength ≤ target.length) :
    f.encodeInto target = (.ok f.encodedLength, f.encode ++ target.drop f.encodedLength) := by
  have hlength : f.encodedLength = 5 + f.payload.toList.length + 1 := by
    rw [encodedLength, frameOverhead, Buffer.size]
    omega
  let header := [frameStart, f.lengthByte, f.kind.toByte, f.id.byte, f.seq]
  have hheader : target.splice 0 header = header ++ target.drop 5 := by
    simp [Bytes.splice, header]
  have hpayload := Bytes.splice_append header (target.drop 5) f.payload.toList
  have hcheck := Bytes.splice_append (header ++ f.payload.toList)
    ((target.drop 5).drop f.payload.toList.length) [f.checksumByte]
  rw [encodeInto, if_neg (Nat.not_lt.mpr h)]
  congr 1
  rw [show (header.length : Nat) = 5 from rfl] at hpayload
  rw [show (header ++ f.payload.toList).length = 5 + f.payload.size by
    rw [List.length_append]; rfl] at hcheck
  rw [hheader, hpayload, hcheck, List.drop_drop, List.drop_drop, hlength]
  simp [encode, header, Nat.add_assoc]

theorem length_encode_le (f : Frame) : f.encode.length ≤ maxFrameSize := by
  have hsize := f.payload.length_le
  simp only [length_encode, Buffer.size, maxFrameSize, frameOverhead, maxPayloadSize] at hsize ⊢
  omega

theorem toBuffer_eq (f : Frame) : f.toBuffer = .ok ⟨f.encode, f.length_encode_le⟩ := by
  have hencoded : f.encodedLength = f.encode.length := by
    rw [length_encode, encodedLength, frameOverhead, Nat.add_comm]
  have hroom : f.encodedLength ≤ (List.replicate maxFrameSize (0 : UInt8)).length :=
    (hencoded.trans_le f.length_encode_le).trans_eq List.length_replicate.symm
  unfold toBuffer
  generalize List.replicate maxFrameSize (0 : UInt8) = blank at hroom ⊢
  rw [encodeInto_of_le f blank hroom]
  dsimp only
  rw [hencoded, List.take_left, Buffer.ofList?, dif_pos f.length_encode_le]

end Frame

/-- Frames as they stand on the wire, one behind the other. -/
def wire (fs : List Frame) : Bytes := fs.flatMap Frame.encode

@[simp] theorem wire_nil : wire [] = [] := rfl

@[simp] theorem wire_cons (f : Frame) (fs : List Frame) : wire (f :: fs) = f.encode ++ wire fs := rfl

@[simp] theorem wire_append (a b : List Frame) : wire (a ++ b) = wire a ++ wire b :=
  List.flatMap_append

/-- What is left of the wire behind some of its bytes: the back of the frame in which they end, and
the frames behind it. -/
theorem drop_wire {fs : List Frame} {n : Nat} (h : n ≤ (wire fs).length) :
    ∃ before after back, fs = before ++ after ∧ (wire fs).drop n = back ++ wire after ∧
      (back = [] ∨ ∃ earlier f front, before = earlier ++ [f] ∧ f.encode = front ++ back ∧
        front ≠ [] ∧ n = (wire earlier).length + front.length) := by
  induction fs generalizing n with
  | nil => exact ⟨[], [], [], by simp⟩
  | cons f fs ih =>
    rw [wire_cons, List.length_append] at h
    rcases Nat.lt_or_ge n f.encode.length with hn | hn
    · by_cases hzero : n = 0
      · exact ⟨[], f :: fs, [], by simp [hzero]⟩
      · have hfront : (f.encode.take n).length = n := by rw [List.length_take]; omega
        refine ⟨[f], fs, f.encode.drop n, rfl, ?_, .inr ⟨[], f, f.encode.take n, rfl, ?_, ?_, ?_⟩⟩
        · rw [wire_cons, List.drop_append_of_le_length hn.le]
        · rw [List.take_append_drop]
        · exact List.ne_nil_of_length_pos (by omega)
        · simp only [wire_nil, List.length_nil, hfront, Nat.zero_add]
    · obtain ⟨before, after, back, hfs, hdrop, hback⟩ := ih (n := n - f.encode.length) (by omega)
      refine ⟨f :: before, after, back, by rw [hfs, List.cons_append], ?_, ?_⟩
      · rw [wire_cons, List.drop_append, List.drop_eq_nil_of_le hn, List.nil_append, hdrop]
      · rcases hback with hback | ⟨earlier, g, front, hbefore, hg, hfront, hlength⟩
        · exact .inl hback
        · refine .inr ⟨f :: earlier, g, front, by rw [hbefore, List.cons_append], hg, hfront, ?_⟩
          rw [wire_cons, List.length_append]
          omega

namespace Parser

theorem feed_idle_of_ne {byte : UInt8} (h : byte ≠ frameStart) :
    idle.feed byte = (.ok none, idle) := by
  rw [feed, step, idle]
  simp [h]

/-- Inside a frame a receiver that has taken its beginning gives nothing until its last byte. -/
theorem feed_encode {f : Frame} {front back : Bytes} {byte : UInt8}
    (h : front ++ byte :: back = f.encode) :
    (behind front).feed byte =
      if back = [] then (.ok (some f), idle) else (.ok none, behind (front ++ [byte])) := by
  have hfront : Pending front := pending_of_encode h (List.cons_ne_nil _ _)
  have hwhole : (front ++ [byte]) ++ back = f.encode := by rw [← h, ← List.append_cons]
  have hscan : (scan (front ++ [byte])) = if back = [] then ([f], []) else ([], front ++ [byte]) := by
    by_cases hback : back = []
    · rw [if_pos hback]
      rw [hback, List.append_nil] at hwhole
      rw [hwhole, scan_encode]
    · rw [if_neg hback]
      exact (pending_of_encode hwhole hback).scan_eq
  have hrejection : back ≠ [] → rejection front byte = none := by
    intro hback
    cases front with
    | nil => rfl
    | cons start rest =>
      have hread := (pending_of_encode hwhole hback).2
      simp only [List.append_eq] at hread
      simp [rejection, hread]
  rw [feed_behind hfront, verdict, hscan]
  by_cases hback : back = []
  · simp [hback, behind]
  · simp [hback, hrejection hback]

theorem feedAll_inside {f : Frame} {front back : Bytes} (h : front ++ back = f.encode)
    (hne : back ≠ []) :
    (behind front).feedAll back =
      (List.replicate (back.length - 1) (.ok none) ++ [.ok (some f)], idle) := by
  induction back generalizing front with
  | nil => exact absurd rfl hne
  | cons byte rest ih =>
    rw [feedAll, feed_encode h]
    by_cases hrest : rest = []
    · simp [hrest, feedAll]
    · have hstep := ih (by rw [← h, ← List.append_cons]) hrest
      obtain ⟨n, hn⟩ := Nat.exists_eq_succ_of_ne_zero (mt List.length_eq_zero_iff.mp hrest)
      simp [hrest, hstep, hn, List.replicate_succ]

theorem feedAll_encode (f : Frame) :
    idle.feedAll f.encode =
      (List.replicate (f.encode.length - 1) (.ok none) ++ [.ok (some f)], idle) :=
  feedAll_inside (List.nil_append _) f.encode_ne_nil

theorem frames_inside {f : Frame} {front back : Bytes} (h : front ++ back = f.encode)
    (hne : back ≠ []) : frames ((behind front).feedAll back).1 = [f] := by
  rw [feedAll_inside h hne, frames_append]
  simp [frames]

theorem feedAll_front {f : Frame} {front part back : Bytes}
    (h : front ++ part ++ back = f.encode) (hne : back ≠ []) :
    frames ((behind front).feedAll part).1 = [] ∧
      ((behind front).feedAll part).2 = behind (front ++ part) := by
  have hrest : part ++ back ≠ [] := fun hnil => hne (List.append_eq_nil_iff.mp hnil).2
  have hfront : Pending front := pending_of_encode (by rw [← List.append_assoc, h]) hrest
  have hparser : ((behind front).feedAll part).2 = behind (front ++ part) := by
    rw [feedAll_behind hfront, (pending_of_encode h hne).scan_eq]
  refine ⟨?_, hparser⟩
  have hwhole := frames_inside (by rw [← List.append_assoc, h]) hrest
  rw [feedAll_append, frames_append, hparser, frames_inside h hne] at hwhole
  exact List.append_left_eq_self.mp hwhole

theorem delivered_encode_append (f : Frame) (rest : Bytes) :
    delivered (f.encode ++ rest) = f :: delivered rest := by
  have hframes : frames (idle.feedAll f.encode).1 = [f] :=
    frames_inside (List.nil_append _) f.encode_ne_nil
  rw [delivered, feedAll_append, frames_append, hframes, feedAll_encode]
  rfl

theorem delivered_wire_append (fs : List Frame) (rest : Bytes) :
    delivered (wire fs ++ rest) = fs ++ delivered rest := by
  induction fs with
  | nil => rfl
  | cons f fs ih => rw [wire_cons, List.append_assoc, delivered_encode_append, ih, List.cons_append]

theorem delivered_of_pending {bytes : Bytes} (h : Pending bytes) : delivered bytes = [] := by
  have hsub := delivered_sublist bytes
  rw [h.scan_eq] at hsub
  exact List.sublist_nil.mp hsub

/-- As much of the wire as has arrived holds the first frames. -/
theorem delivered_of_prefix {fs : List Frame} {bytes : Bytes} (h : bytes <+: wire fs) :
    ∃ k, delivered bytes = fs.take k := by
  induction fs generalizing bytes with
  | nil =>
    obtain rfl : bytes = [] := List.prefix_nil.mp h
    exact ⟨0, rfl⟩
  | cons f fs ih =>
    rw [wire_cons] at h
    -- The bytes end within the first frame or hold all of it.
    by_cases hlength : bytes.length < f.encode.length
    · obtain ⟨back, hback⟩ := List.prefix_of_prefix_length_le h (List.prefix_append _ _) hlength.le
      have hne : back ≠ [] := by
        rintro rfl
        rw [← hback, List.append_nil] at hlength
        exact lt_irrefl _ hlength
      exact ⟨0, delivered_of_pending (pending_of_encode hback hne)⟩
    · obtain ⟨more, rfl⟩ := List.prefix_of_prefix_length_le (List.prefix_append _ _) h
        (Nat.not_lt.mp hlength)
      obtain ⟨k, hk⟩ := ih ((List.prefix_append_right_inj _).mp h)
      exact ⟨k + 1, by rw [delivered_encode_append, hk, List.take_succ_cons]⟩

end Parser

end HalfLink

import HalfLink.Proofs.Frame.Receiver
import HalfLink.Proofs.Frame.Wire

/-! Streams of frames with gaps between them. A receiver that is idle, whatever it was fed before, gives
back just the frames, each at its last byte. -/
namespace HalfLink

/-- Bytes without a start byte. -/
structure Gap where
  bytes : Bytes
  quiet : frameStart ∉ bytes

/-- Frames as they stand on the wire, each behind a gap. -/
def spaced (pieces : List (Gap × Frame)) : Bytes :=
  pieces.flatMap fun (gap, f) => gap.bytes ++ f.encode

theorem spaced_cons (gap : Gap) (f : Frame) (pieces : List (Gap × Frame)) :
    spaced ((gap, f) :: pieces) = gap.bytes ++ (f.encode ++ spaced pieces) :=
  List.append_assoc _ _ _

namespace Parser

/-- The parsers whose fields a receiver comes to when it is fed and reset. -/
def Reachable (p : Parser) : Prop := ∃ taken, Receiver.Fed taken p.receiver

theorem Reachable.fresh : idle.Reachable := ⟨[], .fresh⟩

theorem Reachable.feed {p : Parser} (byte : UInt8) (h : p.Reachable) :
    (p.feed byte).2.Reachable := by
  obtain ⟨taken, hfed⟩ := h
  have hnext := hfed.feed byte
  rw [receiver_feed] at hnext
  exact ⟨taken ++ [byte], hnext⟩

theorem Reachable.exists_pending {p : Parser} (h : p.Reachable) :
    ∃ u, Pending u ∧ p = behind u := by
  obtain ⟨taken, hfed⟩ := h
  exact ⟨(scan taken).2, pending_scan taken, receiver_injective hfed.eq_behind⟩

/-- An idle receiver keeps nothing of what it was fed. -/
theorem Reachable.eq_idle {p : Parser} (h : p.Reachable) (hidle : p.isIdle) : p = idle := by
  obtain ⟨u, -, rfl⟩ := h.exists_pending
  obtain rfl := (isIdle_behind u).mp hidle
  rfl

theorem feedAll_quiet {bytes : Bytes} (h : frameStart ∉ bytes) :
    idle.feedAll bytes = (List.replicate bytes.length (.ok none), idle) := by
  induction bytes with
  | nil => rfl
  | cons byte rest ih =>
    have hbyte : byte ≠ frameStart := Ne.symm (List.ne_of_not_mem_cons h)
    simp only [feedAll, feed_idle_of_ne hbyte, ih (List.not_mem_of_not_mem_cons h)]
    rfl

/-- What feeding the frames and gaps answers: each frame at its last byte, and nothing else. -/
def spacedAnswers (pieces : List (Gap × Frame)) : List (Except FrameError (Option Frame)) :=
  pieces.flatMap fun (gap, f) =>
    List.replicate gap.bytes.length (.ok none) ++
      (List.replicate (f.encode.length - 1) (.ok none) ++ [.ok (some f)])

theorem spacedAnswers_cons (gap : Gap) (f : Frame) (pieces : List (Gap × Frame)) :
    spacedAnswers ((gap, f) :: pieces) = List.replicate gap.bytes.length (.ok none) ++
      (List.replicate (f.encode.length - 1) (.ok none) ++ [.ok (some f)] ++
        spacedAnswers pieces) :=
  List.append_assoc _ _ _

theorem feedAll_spaced (pieces : List (Gap × Frame)) :
    idle.feedAll (spaced pieces) = (spacedAnswers pieces, idle) := by
  induction pieces with
  | nil => rfl
  | cons piece pieces ih =>
    obtain ⟨gap, f⟩ := piece
    rw [spaced_cons, spacedAnswers_cons, feedAll_append, feedAll_quiet gap.quiet, feedAll_append,
      feedAll_encode, ih]

/-- From any idle state that can be reached, frames with gaps around them are given back as they are,
each at its last byte, and each leaves the receiver idle. All ways of encoding a frame write the same
bytes and nothing else, or nothing where these do not fit. -/
theorem spaced_round_trip {p : Parser} (h : p.Reachable) (hidle : p.isIdle)
    (pieces : List (Gap × Frame)) (last : Gap) :
    p.feedAll (spaced pieces ++ last.bytes) =
      (spacedAnswers pieces ++ List.replicate last.bytes.length (.ok none), idle) ∧
    (∀ before, before <+: pieces → (p.feedAll (spaced before)).2.isIdle) ∧
    ∀ f : Frame, f.toBuffer = .ok ⟨f.encode, f.length_encode_le⟩ ∧
      ∀ target, f.encodeInto target =
        if 6 + f.payload.size ≤ target.length then
          (.ok (6 + f.payload.size), f.encode ++ target.drop (6 + f.payload.size))
        else (.error .bufferTooSmall, target) := by
  obtain rfl := h.eq_idle hidle
  refine ⟨?_, ?_, fun f => ⟨f.toBuffer_eq, fun target => ?_⟩⟩
  · rw [feedAll_append, feedAll_spaced, feedAll_quiet last.quiet]
  · intro before _
    rw [feedAll_spaced]
    rfl
  · split
    · rename_i hroom
      exact f.encodeInto_of_le target hroom
    · rename_i hroom
      exact if_pos (Nat.lt_of_not_le hroom)

private def nested : Frame :=
  ⟨.response, ⟨0x10⟩, 7, Buffer.empty.pushAll [0xAA, 0x00, 0x01, 0x10, 0x02, 0x13]⟩

/-- Behind a rejected frame, a frame whose payload is a frame. -/
theorem nested_round_trip :
    let p := ((idle.feed 0xAA).2.feed 0xFF).2
    let gap : Gap := ⟨[0x01, 0xAB], by decide⟩
    p.Reachable ∧ p.isIdle ∧
      p.feedAll (spaced [(gap, nested), (gap, nested)] ++ gap.bytes) =
        (spacedAnswers [(gap, nested), (gap, nested)] ++ List.replicate 2 (.ok none), idle) := by
  intro p gap
  have hreachable : p.Reachable := .feed 0xFF (.feed 0xAA .fresh)
  have hidle : p.isIdle := by decide +kernel
  exact ⟨hreachable, hidle, (spaced_round_trip hreachable hidle [(gap, nested), (gap, nested)] gap).1⟩

end Parser

end HalfLink

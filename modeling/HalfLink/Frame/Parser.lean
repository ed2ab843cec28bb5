import HalfLink.Frame.Basic

/-! The receiver: finds frames in a stream of bytes. The bytes of the frame in progress are kept, so
that when it turns out to be invalid they can be searched again for a later start byte. A lost byte
then costs one frame and not two. Each phase holds just what is known at it; `Receiver` is the same
machine with a field for each of these. -/
namespace HalfLink

/-- The bytes of a frame before its payload, checked as far as they can be. -/
structure Header where
  length : UInt8
  kind : Kind
  id : UInt8
  seq : UInt8
deriving DecidableEq, Repr

/-- What the next byte of the stream means, and what is known of the frame in progress. -/
inductive Phase
  | hunting
  | length
  | kind (length : UInt8)
  | id (length : UInt8) (kind : Kind)
  | seq (length : UInt8) (kind : Kind) (id : UInt8)
  | payload (header : Header) (received : Payload)
  | checksum (header : Header) (received : Payload)
deriving DecidableEq, Repr

structure Parser where
  phase : Phase
  /-- The bytes after the start byte of the frame in progress. -/
  raw : Buffer maxFrameSize
deriving DecidableEq, Repr

namespace Parser

def idle : Parser := ⟨.hunting, .empty⟩

def isIdle (p : Parser) : Bool :=
  match p.phase with
  | .hunting => true
  | _ => false

/-- Gives up the frame in progress and keeps its bytes. -/
def reject (raw : Buffer maxFrameSize) (e : FrameError) :
    Except FrameError (Option Frame) × Parser :=
  (.error e, ⟨.hunting, raw⟩)

def await (raw : Buffer maxFrameSize) (phase : Phase) :
    Except FrameError (Option Frame) × Parser :=
  (.ok none, ⟨phase, raw⟩)

def afterHeader (h : Header) : Phase :=
  if h.length = 0 then .checksum h .empty else .payload h .empty

def afterPayload (h : Header) (received : Payload) : Phase :=
  if received.size = h.length.toNat then .checksum h received else .payload h received

/-- Takes one byte without searching again after an error. -/
def step (p : Parser) (byte : UInt8) : Except FrameError (Option Frame) × Parser :=
  match p.phase with
  | .hunting => if byte = frameStart then await .empty .length else (.ok none, p)
  | .length =>
    let raw := p.raw.push byte
    if maxPayloadSize < byte.toNat then reject raw .invalidFrame else await raw (.kind byte)
  | .kind length =>
    let raw := p.raw.push byte
    match Kind.ofByte? byte with
    | some kind => await raw (.id length kind)
    | none => reject raw .invalidFrame
  | .id length kind => await (p.raw.push byte) (.seq length kind byte)
  | .seq length kind id => await (p.raw.push byte) (afterHeader ⟨length, kind, id, byte⟩)
  | .payload h received => await (p.raw.push byte) (afterPayload h (received.push byte))
  | .checksum h received =>
    if byte = Frame.checksum h.length h.kind.toByte h.id h.seq received.toList then
      (.ok (some ⟨h.kind, ⟨h.id⟩, h.seq, received⟩), idle)
    else reject (p.raw.push byte) .invalidChecksum

/-- A second look at bytes that were taken before. -/
structure Replay where
  parser : Parser
  found : Option Frame
  /-- The bytes behind the one that made a frame invalid, if one did. -/
  unread : Option Bytes

/-- Steps through bytes up to an invalid frame or their end, keeping the first frame found. -/
def replay (p : Parser) (found : Option Frame) : Bytes → Replay
  | [] => ⟨p, found, none⟩
  | byte :: rest =>
    match p.step byte with
    | (.ok frame?, p') => replay p' (found <|> frame?) rest
    | (.error _, p') => ⟨p', found, some rest⟩

/-- A byte adds at most one byte to those that are kept. -/
theorem raw_step_le (p : Parser) (byte : UInt8) :
    (p.step byte).2.raw.size ≤ p.raw.size + 1 := by
  have hpush := p.raw.size_push_le byte
  unfold step
  split
  · split <;> simp [await]
  · dsimp only
    split <;> exact hpush
  · dsimp only
    split <;> exact hpush
  · exact hpush
  · exact hpush
  · exact hpush
  · split
    · simp [idle]
    · exact hpush

private theorem hunting_step (p : Parser) (byte : UInt8) (h : p.phase = .hunting) :
    ∃ frame?, (p.step byte).1 = .ok frame? ∧ (p.step byte).2.raw.size ≤ p.raw.size := by
  unfold step
  rw [h]
  dsimp only
  split <;> exact ⟨none, by simp [await]⟩

theorem replay_unread_le (p : Parser) (found : Option Frame) (bytes rest : Bytes)
    (h : (replay p found bytes).unread = some rest) :
    (replay p found bytes).parser.raw.size + rest.length ≤ p.raw.size + bytes.length := by
  induction bytes generalizing p found with
  | nil => simp [replay] at h
  | cons byte tail ih =>
    have hraw := raw_step_le p byte
    unfold replay at h ⊢
    split <;> rename_i heq <;> simp only [heq] at h hraw
    · have := ih _ _ h
      simp only [List.length_cons]
      omega
    · obtain rfl : tail = rest := by simpa using h
      simp only [List.length_cons]
      omega

/-- Searching again from an idle parser leaves strictly fewer bytes to search. -/
theorem replay_idle_lt (found : Option Frame) (bytes rest : Bytes)
    (h : (replay idle found bytes).unread = some rest) :
    (replay idle found bytes).parser.raw.size + rest.length < bytes.length := by
  cases bytes with
  | nil => simp [replay] at h
  | cons byte tail =>
    obtain ⟨frame?, hok, hraw⟩ := hunting_step idle byte rfl
    unfold replay at h ⊢
    split <;> rename_i heq <;> simp only [heq] at h hok hraw
    · have := replay_unread_le _ _ _ _ h
      simp only [List.length_cons]
      simp [idle] at hraw
      omega
    · simp at hok

/-- Searches the bytes of a rejected frame from each later start byte, until what is left is not
invalid. -/
def rescan (pending : Buffer maxFrameSize) (found : Option Frame) : Option Frame × Parser :=
  match _h : replay idle found (pending.toList.dropWhile (· != frameStart)) with
  | ⟨p, found, none⟩ => (found, p)
  | ⟨p, found, some rest⟩ => rescan (p.raw.append rest) found
termination_by pending.size
decreasing_by
  have hlt := replay_idle_lt _ _ rest (congrArg Replay.unread _h)
  rw [_h] at hlt
  have happ := p.raw.size_append_le rest
  have hdrop := (List.dropWhile_sublist (l := pending.toList) (· != frameStart)).length_le
  exact Nat.lt_of_le_of_lt happ (Nat.lt_of_lt_of_le hlt hdrop)

/-- Takes one byte: gives a frame when it completes one, and an error when it makes the frame in
progress invalid and the bytes of that frame hold no other. -/
def feed (p : Parser) (byte : UInt8) : Except FrameError (Option Frame) × Parser :=
  match p.step byte with
  | (.ok frame?, p') => (.ok frame?, p')
  | (.error e, p') =>
    match rescan p'.raw none with
    | (some frame, p'') => (.ok (some frame), p'')
    | (none, p'') => (.error e, p'')

def feedAll (p : Parser) : Bytes → List (Except FrameError (Option Frame)) × Parser
  | [] => ([], p)
  | byte :: rest =>
    let (result, p') := p.feed byte
    let (results, p'') := feedAll p' rest
    (result :: results, p'')

end Parser

end HalfLink

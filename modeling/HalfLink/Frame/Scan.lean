import HalfLink.Frame.Basic

/-! A plain left-to-right reading of a byte string: the frames it holds, and the bytes from the
first start byte on that could still open a frame. -/
namespace HalfLink

/-- What the bytes behind a start byte amount to. -/
inductive Opening
  | frame (f : Frame) (rest : Bytes)
  | invalid (e : FrameError)
  | undecided
deriving DecidableEq, Repr

namespace Opening

/-- Reads payload and checksum of a frame whose header is known. -/
def readBody (length : UInt8) (kind : Kind) (id seq : UInt8) (body : Bytes) : Opening :=
  match body.drop length.toNat with
  | [] => .undecided
  | check :: rest =>
    match Buffer.ofList? (body.take length.toNat) with
    | none => .invalid .invalidFrame
    | some payload =>
      if check = Frame.checksum length kind.toByte id seq payload.toList then
        .frame ⟨kind, ⟨id⟩, seq, payload⟩ rest
      else .invalid .invalidChecksum

def read : Bytes → Opening
  | [] => .undecided
  | length :: bytes =>
    if maxPayloadSize < length.toNat then .invalid .invalidFrame
    else match bytes with
      | [] => .undecided
      | kindByte :: bytes =>
        match Kind.ofByte? kindByte with
        | none => .invalid .invalidFrame
        | some kind =>
          match bytes with
          | id :: seq :: body => readBody length kind id seq body
          | _ => .undecided

theorem readBody_rest_length {length : UInt8} {kind : Kind} {id seq : UInt8} {body rest : Bytes}
    {f : Frame} (h : readBody length kind id seq body = .frame f rest) :
    rest.length < body.length := by
  unfold readBody at h
  split at h
  · cases h
  · rename_i check tail hdrop
    have hlen := congrArg List.length hdrop
    simp only [List.length_drop, List.length_cons] at hlen
    split at h
    · cases h
    · split at h
      · injection h with _ hrest
        subst hrest
        omega
      · cases h

theorem read_rest_length {bytes rest : Bytes} {f : Frame} (h : read bytes = .frame f rest) :
    rest.length < bytes.length := by
  unfold read at h
  split at h
  · cases h
  · split at h
    · cases h
    · split at h
      · cases h
      · split at h
        · cases h
        · split at h
          · have := readBody_rest_length h
            simp only [List.length_cons]
            omega
          · cases h

end Opening

/-- The frames of a byte string, each behind the one before, and the bytes from the start byte on at
which the reading is still undecided. -/
def scan : Bytes → List Frame × Bytes
  | [] => ([], [])
  | byte :: rest =>
    if byte = frameStart then
      match _h : Opening.read rest with
      | .frame f behind =>
        let (frames, undecided) := scan behind
        (f :: frames, undecided)
      | .invalid _ => scan rest
      | .undecided => ([], byte :: rest)
    else scan rest
termination_by bytes => bytes.length
decreasing_by
  all_goals simp only [List.length_cons]
  · have := Opening.read_rest_length _h
    omega
  all_goals omega

end HalfLink

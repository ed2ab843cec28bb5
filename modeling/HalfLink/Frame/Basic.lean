import HalfLink.Buffer

/-! Frames of the link and their wire form: a start byte, the payload's length, kind, transaction id
and sequence number, the payload, and the exclusive or of all bytes after the start byte. -/
namespace HalfLink

/-- Identifies a contract between the halves; nothing is negotiated on the wire. -/
structure TransactionId where
  byte : UInt8
deriving DecidableEq, Repr

namespace TransactionId

/-- Raw reports forwarded from the calling half to the answering half. -/
def hidSync : TransactionId := ⟨0x01⟩

/-- The first id that is free for a keyboard's own transactions. -/
def userBase : TransactionId := ⟨0x40⟩

/-- The id `offset` places after `userBase`, wrapping. -/
def user (offset : UInt8) : TransactionId := ⟨userBase.byte + offset⟩

def describe (id : TransactionId) : String := "TransactionId(" ++ toString id.byte.toNat ++ ")"

end TransactionId

inductive Kind
  | request
  | response
deriving DecidableEq, Repr

namespace Kind

def toByte : Kind → UInt8
  | request => 0x01
  | response => 0x02

def ofByte? (byte : UInt8) : Option Kind :=
  if byte = 0x01 then some request else if byte = 0x02 then some response else none

end Kind

def frameStart : UInt8 := 0xAA

def maxPayloadSize : Nat := 250

/-- Bytes of a frame around its payload. -/
def frameOverhead : Nat := 6

def maxFrameSize : Nat := frameOverhead + maxPayloadSize

abbrev Payload := Buffer maxPayloadSize

inductive FrameError
  | payloadTooLarge
  | invalidChecksum
  | invalidFrame
  | bufferTooSmall
deriving DecidableEq, Repr

structure Frame where
  kind : Kind
  id : TransactionId
  /-- The number of the request that the frame belongs to. -/
  seq : UInt8
  payload : Payload
deriving DecidableEq, Repr

namespace Frame

/-- A frame around `payload`, which is never cut short. -/
def make (kind : Kind) (id : TransactionId) (seq : UInt8) (payload : Bytes) :
    Except FrameError Frame :=
  match Buffer.ofList? payload with
  | some p => .ok ⟨kind, id, seq, p⟩
  | none => .error .payloadTooLarge

def request (id : TransactionId) (seq : UInt8) (payload : Bytes) : Except FrameError Frame :=
  make .request id seq payload

def response (id : TransactionId) (seq : UInt8) (payload : Payload) : Frame :=
  ⟨.response, id, seq, payload⟩

/-- Whether the frame answers request number `seq` of `id`. -/
def answers (f : Frame) (id : TransactionId) (seq : UInt8) : Bool :=
  decide (f.kind = .response ∧ f.id = id ∧ f.seq = seq)

def encodedLength (f : Frame) : Nat := frameOverhead + f.payload.size

/-- The exclusive or of the header bytes and the payload. -/
def checksum (length kind id seq : UInt8) (payload : Bytes) : UInt8 :=
  payload.foldl (· ^^^ ·) (length ^^^ kind ^^^ id ^^^ seq)

def lengthByte (f : Frame) : UInt8 := UInt8.ofNat f.payload.size

def checksumByte (f : Frame) : UInt8 :=
  checksum f.lengthByte f.kind.toByte f.id.byte f.seq f.payload.toList

/-- The frame as it stands on the wire. -/
def encode (f : Frame) : Bytes :=
  frameStart :: f.lengthByte :: f.kind.toByte :: f.id.byte :: f.seq ::
    (f.payload.toList ++ [f.checksumByte])

/-- Writes the frame to the front of `target` and gives its length; a target that is too small stays
as it is. -/
def encodeInto (f : Frame) (target : Bytes) : Except FrameError Nat × Bytes :=
  if target.length < f.encodedLength then (.error .bufferTooSmall, target)
  else
    (.ok f.encodedLength,
      ((target.splice 0 [frameStart, f.lengthByte, f.kind.toByte, f.id.byte, f.seq]).splice 5
        f.payload.toList).splice (5 + f.payload.size) [f.checksumByte])

/-- The frame written to a buffer of the largest frame's size. -/
def toBuffer (f : Frame) : Except FrameError (Buffer maxFrameSize) :=
  match f.encodeInto (List.replicate maxFrameSize 0) with
  | (.error e, _) => .error e
  | (.ok n, bytes) =>
    match Buffer.ofList? (bytes.take n) with
    | some b => .ok b
    | none => .error .bufferTooSmall

end Frame

end HalfLink

import HalfLink.Packed
import HalfLink.Settings

/-! The packed binary form of the settings. -/
namespace HalfLink.Settings

def ticksCodec : Packed.Codec (Ticks 32) :=
  ⟨fun t => Packed.writeVarint t.toNat, return BitVec.ofNat 32 (← Packed.readVarint 32)⟩

def codec : Packed.Codec Settings :=
  Packed.via (Packed.pair ticksCodec (Packed.pair Packed.u8 ticksCodec))
    (fun (responseTimeout, maxErrors, retryInterval) => ⟨responseTimeout, maxErrors, retryInterval⟩)
    (fun s => (s.responseTimeout, s.maxErrors, s.retryInterval))

/-- The packed form, if it fits `room` bytes. -/
def pack? (s : Settings) (room : Nat) : Option Bytes :=
  let bytes := codec.encode s
  if bytes.length ≤ room then some bytes else none

end HalfLink.Settings

import HalfLink.Call.Contract

/-! Four contracts with handlers of their own, between them using every packed form. -/
namespace HalfLink.Bench

structure LayerState where
  layer : UInt8
  mods : UInt16
deriving DecidableEq, Repr

inductive Command
  | stop
  | jump (target : UInt32)
  | move (dx : Int8) (dy : Int16)
deriving DecidableEq, Repr

structure Mixed where
  flag : Bool
  delta : Int32
  big : UInt64
  opt : Option UInt8
  command : Command
  name : String
deriving DecidableEq, Repr

open Packed in
def Command.codec : Codec Command where
  encode
    | .stop => writeVarint 0
    | .jump target => writeVarint 1 ++ u32.encode target
    | .move dx dy => writeVarint 2 ++ i8.encode dx ++ i16.encode dy
  decode := do
    match ← readVarint 32 with
    | 0 => return .stop
    | 1 => return .jump (← u32.decode)
    | 2 => return .move (← i8.decode) (← i16.decode)
    | _ => throw .unknownVariant

open Packed in
def LayerState.codec : Codec LayerState :=
  via (pair u8 u16) (fun (layer, mods) => ⟨layer, mods⟩) (fun s => (s.layer, s.mods))

open Packed in
def Mixed.codec : Codec Mixed :=
  via (pair bool (pair i32 (pair u64 (pair (option u8) (pair Command.codec text)))))
    (fun (flag, delta, big, opt, command, name) => ⟨flag, delta, big, opt, command, name⟩)
    (fun m => (m.flag, m.delta, m.big, m.opt, m.command, m.name))

def layerContract : Contract UInt8 LayerState := ⟨⟨0x41⟩, Packed.u8, LayerState.codec⟩

def blobContract : Contract Bytes Bytes := ⟨⟨0x42⟩, Packed.bytes, Packed.bytes⟩

def mixedContract : Contract Mixed Mixed := ⟨⟨0x43⟩, Mixed.codec, Mixed.codec⟩

def pingContract : Contract Unit UInt32 := ⟨⟨0x3F⟩, Packed.unit, Packed.u32⟩

def layerReply (bias : UInt8) : LayerState := ⟨bias + 2, 0x0102 * bias.toUInt16⟩

def Command.reply : Command → Command
  | .stop => .jump 1
  | .jump target => .move target.toUInt8.toInt8 target.toUInt16.toInt16
  | .move dx dy => .move dy.toInt8 dx.toInt16

def Mixed.reply (m : Mixed) : Mixed where
  flag := !m.flag
  delta := -m.delta
  big := m.big + 1
  opt := match m.opt with
    | none => some 0
    | some n => if n = 255 then none else some (n + 1)
  command := m.command.reply
  name := String.ofList m.name.toList.reverse

end HalfLink.Bench

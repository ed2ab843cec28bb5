/-! Settings of a serial port, and the same in the terms of the chip's peripheral. -/
namespace HalfLink

inductive DataBits
  | seven
  | eight
deriving DecidableEq, Repr

inductive Parity
  | none
  | even
  | odd
deriving DecidableEq, Repr

inductive StopBits
  | one
  | two
deriving DecidableEq, Repr

/-- Settings of a serial port: eight data bits, no parity and one stop bit unless said otherwise. -/
structure SerialSettings where
  baudRate : UInt32 := 57600
  dataBits : DataBits := .eight
  parity : Parity := .none
  stopBits : StopBits := .one
deriving DecidableEq, Repr

inductive ChipDataBits
  | dataBits7
  | dataBits8
deriving DecidableEq, Repr

inductive ChipParity
  | parityNone
  | parityEven
  | parityOdd
deriving DecidableEq, Repr

inductive ChipStopBits
  | stop1
  | stop2
deriving DecidableEq, Repr

structure ChipSerial where
  baudRate : UInt32
  dataBits : ChipDataBits
  parity : ChipParity
  stopBits : ChipStopBits
deriving DecidableEq, Repr

def ChipSerial.ofSettings (s : SerialSettings) : ChipSerial where
  baudRate := s.baudRate
  dataBits := match s.dataBits with
    | .seven => .dataBits7
    | .eight => .dataBits8
  parity := match s.parity with
    | .none => .parityNone
    | .even => .parityEven
    | .odd => .parityOdd
  stopBits := match s.stopBits with
    | .one => .stop1
    | .two => .stop2

end HalfLink

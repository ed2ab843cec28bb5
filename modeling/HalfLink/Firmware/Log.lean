import HalfLink.Call.Caller

/-! Log records of the firmware: a level, a text with places for arguments, and the arguments. -/
namespace HalfLink.Firmware

inductive Level
  | trace
  | debug
  | info
  | warn
deriving DecidableEq, Repr

structure LogRecord where
  level : Level
  text : String
  args : List String := []
deriving DecidableEq, Repr

def failureName : Failure → String
  | .payloadTooLarge => "PayloadTooLarge"
  | .responseTooLarge => "ResponseTooLarge"
  | .timeout => "Timeout"
  | .busy => "Busy"
  | .idle => "Idle"
  | .disconnected => "Disconnected"
  | .link => "Link"
  | .encode => "Encode"
  | .decode => "Decode"

def bytesText (bytes : Bytes) : String :=
  "[" ++ ", ".intercalate (bytes.map fun b => toString b.toNat) ++ "]"

end HalfLink.Firmware

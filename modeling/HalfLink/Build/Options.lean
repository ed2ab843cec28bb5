import HalfLink.Build.Box
import HalfLink.Settings
import HalfLink.Toml.Value
import HalfLink.Link.SerialSettings

/-! Options of one half's firmware, read from a table and checked before it is built. -/
namespace HalfLink.Build

structure Options where
  isMaster : Bool
  baudRate : UInt32 := 57600
  /-- Milliseconds to wait for the other half. -/
  responseTimeout : UInt32 := 20
  maxErrors : UInt8 := 10
  /-- Milliseconds between attempts while the link is down. -/
  retryInterval : UInt32 := 500
deriving DecidableEq, Repr

inductive OptionError
  | missingRole
  | unknownRole
  | notInteger (table key : String)
  | outOfRange (table key : String) (lo hi : Int)
deriving DecidableEq, Repr

def OptionError.message : OptionError → String
  | .missingRole => "missing 'role'"
  | .unknownRole => "role must be 'master' or 'slave'"
  | .notInteger table key => "[" ++ table ++ "] " ++ key ++ " must be an integer"
  | .outOfRange table key lo hi =>
    "[" ++ table ++ "] " ++ key ++ " must be " ++ toString lo ++ "-" ++ toString hi

/-- An integer option of a table, with the value it has when it is not given. -/
structure IntegerOption where
  table : String
  key : String
  default : Int
  lo : Int
  hi : Int

def baudRateOption : IntegerOption := ⟨"uart", "baud_rate", 57600, 1200, 1000000⟩

def responseTimeoutOption : IntegerOption := ⟨"link", "response_timeout_ms", 20, 1, 30000⟩

def maxErrorsOption : IntegerOption := ⟨"link", "max_connection_errors", 10, 0, 255⟩

def retryIntervalOption : IntegerOption := ⟨"link", "connection_check_ms", 500, 1, 60000⟩

def IntegerOption.read (o : IntegerOption) (config : Toml.Value) : Except OptionError Int :=
  match (config.get? o.table).bind (·.get? o.key) with
  | none => .ok o.default
  | some (.integer i) =>
    if o.lo ≤ i ∧ i ≤ o.hi then .ok i else .error (.outOfRange o.table o.key o.lo o.hi)
  | some _ => .error (.notInteger o.table o.key)

/-- Whether the role is that of the half that starts transactions. -/
def readRole (config : Toml.Value) : Except OptionError Bool :=
  match config.get? "role" with
  | none => .error .missingRole
  | some (.string role) =>
    if role = "master" then .ok true
    else if role = "slave" then .ok false
    else .error .unknownRole
  | some _ => .error .unknownRole

def errorOf {α : Type} : Except OptionError α → List OptionError
  | .ok _ => []
  | .error e => [e]

/-- Reads all options; none of their errors hides another. -/
def Options.read (config : Toml.Value) : Except (List OptionError) Options :=
  match readRole config, baudRateOption.read config, responseTimeoutOption.read config,
      maxErrorsOption.read config, retryIntervalOption.read config with
  | .ok isMaster, .ok baudRate, .ok responseTimeout, .ok maxErrors, .ok retryInterval =>
    .ok {
      isMaster
      baudRate := UInt32.ofNat baudRate.toNat
      responseTimeout := UInt32.ofNat responseTimeout.toNat
      maxErrors := UInt8.ofNat maxErrors.toNat
      retryInterval := UInt32.ofNat retryInterval.toNat }
  | role, baudRate, responseTimeout, maxErrors, retryInterval =>
    .error (errorOf role ++ errorOf baudRate ++ errorOf responseTimeout ++ errorOf maxErrors ++
      errorOf retryInterval)

namespace Options

/-- The options that the firmware comes with. -/
def standard : Options := { isMaster := true }

/-- The timing of transactions, whose tick is a millisecond. -/
def settings (o : Options) : Settings where
  responseTimeout := o.responseTimeout.toBitVec
  maxErrors := o.maxErrors
  retryInterval := o.retryInterval.toBitVec

def uart (o : Options) : SerialSettings := { baudRate := o.baudRate }

end Options

end HalfLink.Build

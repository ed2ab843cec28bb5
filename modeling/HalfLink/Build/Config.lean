import HalfLink.Build.Options
import HalfLink.Toml.Reader
import HalfLink.Toml.Tagged

/-! The step before the firmware is built: a configuration file becomes a text of constants, or a
message that says why it cannot. -/
namespace HalfLink.Build

/-- The configuration file as it was found. -/
inductive Source
  | missing
  | bytes (bytes : List UInt8)

inductive ConfigError
  | notFound
  | unreadable
  | invalidToml
  | invalidConfig (errors : List OptionError)
deriving DecidableEq, Repr

/-- Reads the options of a document, whose tagged tables are times. -/
def readOptions (document : Toml.Value) : Except ConfigError Options :=
  match document.untag? with
  | some config => (Options.read config).mapError .invalidConfig
  | none => .error .invalidToml

def readText (s : String) : Except ConfigError Options :=
  match Toml.parse? s with
  | some document => readOptions document
  | none => .error .invalidToml

def readSource : Source → Except ConfigError Options
  | .missing => .error .notFound
  | .bytes bytes =>
    match String.fromUTF8? bytes.toByteArray with
    | some s => readText s
    | none => .error .unreadable

/-- The message for errors whose words are this library's own. -/
def ConfigError.message? : ConfigError → Option String
  | .notFound => some <| box [
      boxTop,
      boxTitle "ERROR: split.toml not found!",
      boxTitle "",
      boxTitle "The firmware requires a split.toml next to its Cargo.toml.",
      boxTitle "It selects the role of this half and the link timing.",
      boxBottom]
  | .invalidConfig errors => some <| box
      ([boxTop, boxTitle "ERROR: Invalid split.toml configuration", boxMiddle] ++
        errors.map (fun e => boxItem e.message) ++ [boxBottom])
  | .unreadable | .invalidToml => none

/-- What is said when the options are good. -/
def successNote : String := "split.toml validated successfully"

def constant (about name type value : String) : List String :=
  ["/// " ++ about, "pub const " ++ name ++ ": " ++ type ++ " = " ++ value ++ ";"]

/-- The options as constants of the firmware. -/
def Options.constants (o : Options) : String :=
  String.join <| List.map (· ++ "\n") <|
    constant "This half starts transactions" "IS_MASTER" "bool"
      (if o.isMaster then "true" else "false") ++
    constant "Inter-half UART baud rate" "BAUD_RATE" "u32" (toString o.baudRate.toNat) ++
    constant "Response timeout in milliseconds" "RESPONSE_TIMEOUT_MS" "u32"
      (toString o.responseTimeout.toNat) ++
    constant "Consecutive failures before the link is down" "MAX_CONNECTION_ERRORS" "u8"
      (toString o.maxErrors.toNat) ++
    constant "Retry interval in milliseconds while the link is down" "CONNECTION_CHECK_MS" "u32"
      (toString o.retryInterval.toNat)

end HalfLink.Build

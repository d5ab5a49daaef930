import Parley.Address
import Parley.Frame
import Parley.Numeral

/-!
# Parley.Settings — what can be configured

Four sections with a default for everything.  `validate` lists what is wrong with settings, one
entry per violated condition, section by section; `check` turns a non-empty list into one failure.
`Problem` collects why settings could not be had: each cause says its own text.
-/

namespace Parley

/-- How much is logged. -/
inductive Level where
  | trace | debug | info | warn | error
  deriving DecidableEq, Repr

namespace Level

/-- The name of a level in capitals. -/
def name : Level → String
  | trace => "TRACE"
  | debug => "DEBUG"
  | info => "INFO"
  | warn => "WARN"
  | error => "ERROR"

/-- The name of a level as it is written in a file. -/
def keyword : Level → String
  | trace => "trace"
  | debug => "debug"
  | info => "info"
  | warn => "warn"
  | error => "error"

def all : List Level := [trace, debug, info, warn, error]

/-- The level with a given number: 1 logs errors only, 5 everything. -/
def ofNumber? : Nat → Option Level
  | 1 => some error
  | 2 => some warn
  | 3 => some info
  | 4 => some debug
  | 5 => some trace
  | _ => none

/-- The level a text stands for: a number, or a name in any mixture of ASCII cases. -/
def parse? (text : String) : Option Level :=
  match (Numeral.parse64 text).toOption.bind (ofNumber? ·.toNat) with
  | some level => some level
  | none => all.find? fun level => text.toList.map Char.toLower == level.keyword.toList

end Level

/-! ### Sections -/

structure ServerSettings where
  /-- The address to listen on. -/
  bindAddress : String := "0.0.0.0"
  /-- The id of the first accepted connection. -/
  firstClientId : UInt32 := 10000
  /-- Makes challenges reproducible. -/
  handshakeSeed : Option UInt64 := none
  threadName : String := "framed-net-server"
  deriving DecidableEq, Repr

structure ClientSettings where
  threadName : String := "framed-net-client"
  deriving DecidableEq, Repr

structure TransportSettings where
  /-- The longest body accepted or sent, in bytes. -/
  maxBodySize : UInt64 := UInt64.ofNat Frame.defaultLimit
  /-- Send small writes at once. -/
  noDelay : Bool := true
  deriving DecidableEq, Repr

structure LoggingSettings where
  appName : String := "framed-net"
  level : Level := .info
  toConsole : Bool := true
  jsonFormat : Bool := false
  deriving DecidableEq, Repr

structure Settings where
  server : ServerSettings := {}
  client : ClientSettings := {}
  transport : TransportSettings := {}
  logging : LoggingSettings := {}
  deriving DecidableEq, Repr

/-! ### Validation -/

/-- A violated condition. -/
inductive Violation where
  | bindAddressEmpty
  | bindAddressInvalid (text : String)
  | firstClientIdZero
  | serverThreadNameEmpty
  | clientThreadNameEmpty
  | maxBodySizeZero
  | maxBodySizeTooLarge (size : UInt64)
  | appNameEmpty
  /-- The length is counted in bytes. -/
  | appNameTooLong (length : Nat)
  deriving DecidableEq, Repr

namespace Violation

def message : Violation → String
  | bindAddressEmpty => "Server bind address cannot be empty"
  | bindAddressInvalid text =>
    "Invalid server bind address: '" ++ text ++ "' (expected an IP such as '0.0.0.0')"
  | firstClientIdZero => "First client id must be greater than 0 (0 marks unassigned)"
  | serverThreadNameEmpty => "Server thread name cannot be empty"
  | clientThreadNameEmpty => "Client thread name cannot be empty"
  | maxBodySizeZero => "Max body size cannot be 0"
  | maxBodySizeTooLarge size =>
    "Max body size too large: " ++ toString size.toNat ++ " bytes (the length field is 32 bits)"
  | appNameEmpty => "Application name cannot be empty"
  | appNameTooLong length =>
    "Application name too long: " ++ toString length ++ " characters (maximum: 64)"

end Violation

/-- A list with one entry if the condition holds. -/
def Violation.when (condition : Bool) (v : Violation) : List Violation :=
  if condition then [v] else []

def ServerSettings.validate (s : ServerSettings) : List Violation :=
  (if s.bindAddress.isEmpty then [.bindAddressEmpty]
    else Violation.when (Address.parse? s.bindAddress).isNone (.bindAddressInvalid s.bindAddress))
  ++ Violation.when (s.firstClientId == 0) .firstClientIdZero
  ++ Violation.when s.threadName.isEmpty .serverThreadNameEmpty

def ClientSettings.validate (s : ClientSettings) : List Violation :=
  Violation.when s.threadName.isEmpty .clientThreadNameEmpty

def TransportSettings.validate (s : TransportSettings) : List Violation :=
  if s.maxBodySize = 0 then [.maxBodySizeZero]
  else Violation.when (UInt32.size ≤ s.maxBodySize.toNat) (.maxBodySizeTooLarge s.maxBodySize)

def LoggingSettings.validate (s : LoggingSettings) : List Violation :=
  if s.appName.isEmpty then [.appNameEmpty]
  else Violation.when (64 < s.appName.utf8ByteSize) (.appNameTooLong s.appName.utf8ByteSize)

namespace Settings

/-- What is wrong with settings, section by section. -/
def validate (s : Settings) : List Violation :=
  s.server.validate ++ s.client.validate ++ s.transport.validate ++ s.logging.validate

/-! ### Problems -/

/-- An environment variable that overrides a setting. -/
inductive Variable where
  | bindAddress | firstClientId | handshakeSeed | maxBodySize
  deriving DecidableEq, Repr

/-- The name of a variable in the environment. -/
def Variable.name : Variable → String
  | bindAddress => "FRAMED_NET_BIND_ADDRESS"
  | firstClientId => "FRAMED_NET_FIRST_CLIENT_ID"
  | handshakeSeed => "FRAMED_NET_HANDSHAKE_SEED"
  | maxBodySize => "FRAMED_NET_MAX_BODY_SIZE"

/-- Why settings could not be had or written. -/
inductive Problem where
  | invalid (violations : List Violation)
  | badVariable (name : Variable) (flaw : Numeral.Flaw)
  | unopened (reason : String)
  | unread (reason : String)
  /-- Not a TOML document, or a value of the wrong type. -/
  | malformed
  | unknownLevel (text : String)
  | unserializable
  | unwritten (reason : String)
  | subscriberInstalled
  deriving DecidableEq, Repr

namespace Problem

def message : Problem → String
  | invalid violations =>
    "Configuration validation failed:\n  - "
      ++ "\n  - ".intercalate (violations.map Violation.message)
  | badVariable v flaw => "Invalid " ++ v.name ++ ": " ++ flaw.message
  | unopened reason => "Failed to open config file: " ++ reason
  | unread reason => "Failed to read config file: " ++ reason
  | malformed => "Failed to parse TOML"
  | unknownLevel text => "Failed to parse TOML: Invalid log level: " ++ text
  | unserializable => "Failed to serialize config: out-of-range value for u64 type"
  | unwritten reason => "Failed to write config file: " ++ reason
  | subscriberInstalled =>
    "Failed to install log subscriber: a global default trace dispatcher has already been set"

/-- A problem, as a failed operation. -/
def fault (p : Problem) : Fault := .config p.message

end Problem

/-- Accept settings only if nothing is wrong with them. -/
def check (s : Settings) : Except Problem Unit :=
  if s.validate = [] then .ok () else .error (.invalid s.validate)

end Settings

/-! ### Logging -/

/-- Install logging to the console where it is asked for; only one installation succeeds. -/
def LoggingSettings.install (s : LoggingSettings) (installed : Bool) :
    Except Settings.Problem Unit :=
  if s.toConsole && installed then .error .subscriberInstalled else .ok ()

end Parley

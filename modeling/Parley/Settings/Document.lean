import Parley.Settings
import Parley.Toml.Document
import Parley.Toml.Writer

/-!
# Parley.Settings.Document — settings as TOML documents

Reading starts from the defaults and replaces what the document names; keys and sections nobody
knows are skipped.  A section is a table, or an array of its fields in order.  A value of another
type, or a number out of its field's range, is refused; of several such values the first in the
document counts.  Writing puts all sections in order and leaves out a seed that is not set.
-/

namespace Parley

open Toml

namespace Settings

/-! ### Reading single values -/

/-- A reader of one field: takes the value from the document and the settings so far. -/
abbrev Field (σ : Type) := Value → σ → Except Problem σ

/-- Read a text. -/
def readText : Value → Except Problem String
  | .string s => .ok s
  | _ => .error .malformed

/-- Read a number below a bound. -/
def readBelow (bound : Nat) : Value → Except Problem Nat
  | .integer n => if 0 ≤ n ∧ n < bound then .ok n.toNat else .error .malformed
  | _ => .error .malformed

def readWord32 (v : Value) : Except Problem UInt32 := (readBelow UInt32.size v).map UInt32.ofNat

def readWord64 (v : Value) : Except Problem UInt64 := (readBelow UInt64.size v).map UInt64.ofNat

def readBool : Value → Except Problem Bool
  | .boolean b => .ok b
  | _ => .error .malformed

/-- Read a log level, which has to be a text. -/
def readLevel (v : Value) : Except Problem Level :=
  match readText v with
  | .error p => .error p
  | .ok text =>
    match Level.parse? text with
    | some level => .ok level
    | none => .error (.unknownLevel text)

/-! ### Reading sections -/

/-- The fields of a section, in order. -/
abbrev Fields (σ : Type) := List (String × Field σ)

/-- Read entries in their order, skipping unknown keys. -/
def readEntries {σ : Type} (fields : Fields σ) : Entries → σ → Except Problem σ
  | [], s => .ok s
  | (key, v) :: rest, s =>
    match fields.lookup key with
    | none => readEntries fields rest s
    | some field =>
      match field v s with
      | .error p => .error p
      | .ok s' => readEntries fields rest s'

/-- Read items as the fields in order; there may be fewer or more. -/
def readItems {σ : Type} : Fields σ → List Value → σ → Except Problem σ
  | (_, field) :: fields, v :: rest, s =>
    match field v s with
    | .error p => .error p
    | .ok s' => readItems fields rest s'
  | _, _, s => .ok s

/-- Read a section. -/
def readSection {σ : Type} (fields : Fields σ) (v : Value) (s : σ) : Except Problem σ :=
  match v with
  | .table _ entries => readEntries fields entries s
  | .array items | .tables items => readItems fields items s
  | .moment => .ok s
  | _ => .error .malformed

def serverFields : Fields ServerSettings :=
  [("bind_address", fun v s => (readText v).map fun x => { s with bindAddress := x }),
    ("first_client_id", fun v s => (readWord32 v).map fun x => { s with firstClientId := x }),
    ("handshake_seed", fun v s => (readWord64 v).map fun x => { s with handshakeSeed := some x }),
    ("thread_name", fun v s => (readText v).map fun x => { s with threadName := x })]

def clientFields : Fields ClientSettings :=
  [("thread_name", fun v s => (readText v).map fun x => { s with threadName := x })]

def transportFields : Fields TransportSettings :=
  [("max_body_size", fun v s => (readWord64 v).map fun x => { s with maxBodySize := x }),
    ("nodelay", fun v s => (readBool v).map fun x => { s with noDelay := x })]

def loggingFields : Fields LoggingSettings :=
  [("app_name", fun v s => (readText v).map fun x => { s with appName := x }),
    ("log_level", fun v s => (readLevel v).map fun x => { s with level := x }),
    ("log_to_console", fun v s => (readBool v).map fun x => { s with toConsole := x }),
    ("json_format", fun v s => (readBool v).map fun x => { s with jsonFormat := x })]

/-- The sections, in order. -/
def sections : Fields Settings :=
  [("server", fun v s => (readSection serverFields v s.server).map fun x => { s with server := x }),
    ("client", fun v s =>
      (readSection clientFields v s.client).map fun x => { s with client := x }),
    ("transport", fun v s =>
      (readSection transportFields v s.transport).map fun x => { s with transport := x }),
    ("logging", fun v s =>
      (readSection loggingFields v s.logging).map fun x => { s with logging := x })]

/-- The settings a TOML text stands for. -/
def ofToml (text : String) : Except Problem Settings :=
  match Document.parse? text with
  | none => .error .malformed
  | some entries => readEntries sections entries {}

/-! ### Writing -/

/-- The largest number a TOML document holds. -/
def integerMax : Nat := UInt64.size / 2 - 1

/-- The numbers of settings fit a TOML document. -/
def fits (s : Settings) : Bool :=
  (match s.server.handshakeSeed with
    | some seed => seed.toNat ≤ integerMax
    | none => true)
  && s.transport.maxBodySize.toNat ≤ integerMax

/-- The text of settings that fit. -/
def document (s : Settings) : String :=
  String.ofList <| Written.document [
    Written.section "server" (
      [("bind_address", Written.ofText s.server.bindAddress),
        ("first_client_id", Written.ofNat s.server.firstClientId.toNat)]
      ++ (match s.server.handshakeSeed with
        | some seed => [("handshake_seed", Written.ofNat seed.toNat)]
        | none => [])
      ++ [("thread_name", Written.ofText s.server.threadName)]),
    Written.section "client" [("thread_name", Written.ofText s.client.threadName)],
    Written.section "transport" [("max_body_size", Written.ofNat s.transport.maxBodySize.toNat),
      ("nodelay", Written.ofBool s.transport.noDelay)],
    Written.section "logging" [("app_name", Written.ofText s.logging.appName),
      ("log_level", Written.ofText s.logging.level.keyword),
      ("log_to_console", Written.ofBool s.logging.toConsole),
      ("json_format", Written.ofBool s.logging.jsonFormat)]]

/-- The text of settings, if their numbers fit. -/
def toToml (s : Settings) : Except Problem String :=
  if s.fits then .ok s.document else .error .unserializable

/-- The default settings as a document. -/
def example_ : String := document {}

/-! ### Files -/

/-- What stands at a path. -/
inductive Place where
  | missing
  | directory
  | file (contents : ByteArray)
  /-- A path below a directory that is not there. -/
  | nowhere

/-- The system's words. -/
def notFound : String := "No such file or directory (os error 2)"
def isDirectory : String := "Is a directory (os error 21)"
def notUtf8 : String := "stream did not contain valid UTF-8"

/-- Load settings from what stands at a path. -/
def load : Place → Except Problem Settings
  | .missing | .nowhere => .error (.unopened notFound)
  | .directory => .error (.unread isDirectory)
  | .file contents =>
    match String.fromUTF8? contents with
    | none => .error (.unread notUtf8)
    | some text => ofToml text

/-- Save settings: what stands at the path afterwards.  The text is made before anything is touched.
-/
def save (s : Settings) (place : Place) : Except Problem Place :=
  match s.toToml with
  | .error p => .error p
  | .ok text =>
    match place with
    | .nowhere => .error (.unwritten notFound)
    | .directory => .error (.unwritten isDirectory)
    | .missing | .file _ => .ok (.file text.toUTF8)

end Settings
end Parley

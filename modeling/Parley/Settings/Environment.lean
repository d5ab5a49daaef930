import Parley.Settings

/-!
# Parley.Settings.Environment — overrides from environment variables

Four variables override the defaults.  A variable whose bytes are not UTF-8 counts as unset; the
numbers are read in a fixed order and the first that is no numeral of its type is reported.
-/

namespace Parley.Settings

/-- What an environment holds for each variable: nothing, or some bytes. -/
abbrev Environment := Variable → Option ByteArray

/-- The text of a variable. -/
def Environment.text? (env : Environment) (v : Variable) : Option String :=
  (env v).bind String.fromUTF8?

/-- Read the text of a variable if it is set; keep the given value otherwise. -/
def override {α : Type} (env : Environment) (v : Variable) (read : String → Except Numeral.Flaw α)
    (value : α) : Except Problem α :=
  match env.text? v with
  | none => .ok value
  | some text =>
    match read text with
    | .ok value' => .ok value'
    | .error flaw => .error (.badVariable v flaw)

/-- The defaults with the overrides of an environment. -/
def ofEnvironment (env : Environment) : Except Problem Settings := do
  let base : Settings := {}
  let bindAddress := (env.text? .bindAddress).getD base.server.bindAddress
  let firstClientId ← override env .firstClientId Numeral.parse32 base.server.firstClientId
  let handshakeSeed ← override env .handshakeSeed (fun t => (Numeral.parse64 t).map some)
    base.server.handshakeSeed
  let maxBodySize ← override env .maxBodySize Numeral.parse64 base.transport.maxBodySize
  return { base with
    server := { base.server with bindAddress, firstClientId, handshakeSeed }
    transport := { base.transport with maxBodySize } }

end Parley.Settings

import Parley.Address
import Parley.Connection.Step
import Parley.Run
import Parley.Settings

/-!
# Parley.Client — one connection after the other

A client has at most one connection at a time, together with the thread that runs its tasks.  The
queue of messages received and the counters stay when it connects again.  Steps are calls of the
application and steps of the current connection.
-/

namespace Parley

/-- A client. -/
structure Client (κ : Type) where
  settings : ClientSettings := {}
  /-- The longest body read or written. -/
  limit : Nat
  /-- The connections it had, in order. -/
  past : List (Connection κ) := []
  /-- The connection it has. -/
  connection : Option (Connection κ) := none
  /-- The thread that runs the tasks is there. -/
  attended : Bool := false
  inbound : Deque (Letter κ) := .empty
  metrics : Metrics := {}
  deriving DecidableEq

namespace Client

variable {κ : Type}

def create (settings : ClientSettings) (transport : TransportSettings) : Client κ where
  settings := settings
  limit := transport.maxBodySize.toNat

def isConnected (c : Client κ) : Bool := c.connection.any (·.isConnected)

/-- The number of the current connection, counted from the first this client had. -/
def current (c : Client κ) : Nat := c.past.length

/-- Something that happens to the `n`-th connection of a client. -/
structure Event (κ : Type) where
  n : Nat
  event : Connection.Event κ
  deriving DecidableEq

/-- A client after something was done to it, and what happened. -/
abbrev Outcome (κ : Type) := Client κ × List (Event κ)

/-- Queue the message that an event brought, and count the event. -/
def note (c : Client κ) (e : Connection.Event κ) : Client κ :=
  let c := match e.entry? with
    | some entry => { c with metrics := c.metrics.record entry }
    | none => c
  match e with
  | .received m => { c with inbound := c.inbound.pushBack ⟨none, m⟩ }
  | _ => c

/-- Take over what became of the connection. -/
def absorb (c : Client κ) (o : Connection.Outcome κ) : Outcome κ :=
  (o.2.foldl note { c with connection := some o.1 }, o.2.map (⟨c.current, ·⟩))

/-! ### Calls of the application -/

/-- Close the connection, end the thread that runs its tasks, and let go of it. -/
def disconnect (c : Client κ) : Outcome κ :=
  match c.connection with
  | none => ({ c with attended := false }, [])
  | some k =>
    let (c', es) := c.absorb k.close
    ({ c' with past := c.past ++ [k.close.1.abort], connection := none, attended := false }, es)

/-- Begin to connect to the addresses that a host name was found to stand for, or say why there are
none.  The connection there was is dropped first in any case. -/
def connect (c : Client κ) (host : String) (portNumber : UInt16)
    (found : Except String (List Address)) : Outcome κ × Option Fault :=
  let o := if c.connection.isSome || c.attended then c.disconnect else (c, [])
  let place := " '" ++ host ++ ":" ++ toString portNumber.toNat ++ "'"
  match found with
  | .error reason => (o, some (.setup (Fault.resolveFailed ++ place ++ ": " ++ reason)))
  | .ok [] => (o, some (.setup (Fault.noAddresses ++ place)))
  | .ok (_ :: _) =>
    (({ o.1 with connection := some (.outgoing c.limit), attended := true }, o.2), none)

/-- Queue a message for the server; without a connection nothing happens. -/
def send (c : Client κ) (m : Message κ) : Client κ :=
  { c with connection := c.connection.map (·.send .application m) }

/-! ### Steps and runs -/

/-- What can be done to a client. -/
inductive Action (κ : Type) where
  | connect (host : String) (portNumber : UInt16) (found : Except String (List Address))
  | disconnect
  | send (m : Message κ)
  /-- The application takes a letter out of the inbound queue. -/
  | take
  /-- A step of the current connection. -/
  | connection (a : Connection.Action κ)

variable [Kind κ]

/-- What an action makes of a client, if it is possible. -/
def step (c : Client κ) : Action κ → Option (Outcome κ)
  | .connect host portNumber found => some (c.connect host portNumber found).1
  | .disconnect => some c.disconnect
  | .send m => some (c.send m, [])
  | .take => c.inbound.popFront?.map fun p => ({ c with inbound := p.2 }, [])
  | .connection a =>
    if a.isOwners then none else c.connection.bind fun k => (k.step a).map c.absorb

/-- Actions in a row. -/
def run (c : Client κ) (as : List (Action κ)) : Option (Outcome κ) := Run.all step c as

end Client
end Parley

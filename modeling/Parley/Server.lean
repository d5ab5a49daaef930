import Parley.Connection
import Parley.Handshake.Source
import Parley.Host
import Parley.Registry
import Parley.Settings

/-!
# Parley.Server — accepting connections and dispatching their messages

A server numbers the connections it accepts, registers those its handler approves under rising ids,
and hands their messages to the handler in the order of arrival.  A closed connection stays
registered until a send meets it: then it is reported to the handler and set aside, so that messages
it sent before can still be dispatched.  The handler is not part of a server: a call that tells the
handler something waits until the handler is done, and meanwhile the handler may make calls of its
own.  This module holds the state of a server, `Parley.Server.Step` its steps.
-/

namespace Parley

namespace Server

/-- A call of the application that waits for the handler. -/
inductive Call (κ : Type) where
  /-- An update that has handled some letters and may handle some more. -/
  | updating (left handled : Nat)
  /-- A message to all that has reported connection `n`, has `rest` before it, and will set aside
  the connections with the ids `dead`. -/
  | sweeping (m : Message κ) (exclude : Option Nat) (n : Nat) (rest : List Nat) (dead : List UInt32)
  /-- A message to connection `n`, which was closed and has been reported. -/
  | reporting (n : Nat)
  deriving DecidableEq

end Server

open Server in
/-- A server. -/
structure Server (κ : Type) where
  settings : ServerSettings
  /-- The longest body read or written. -/
  limit : Nat
  /-- Where the challenges come from. -/
  source : Source
  /-- The next id to assign; it may have grown too large for one. -/
  nextId : UInt64
  /-- All connections ever accepted, in the order of acceptance. -/
  connections : List (Connection κ) := []
  registry : Registry := .empty
  /-- Connections set aside since the inbound queue was last empty. -/
  retired : Registry := .empty
  inbound : Deque (Letter κ) := .empty
  metrics : Metrics := {}
  /-- The address listened on while the server is running. -/
  localAddress : Option Address := none
  /-- The thread that runs the tasks is there. -/
  attended : Bool := false
  /-- The calls that wait for the handler, the innermost first. -/
  calls : List (Call κ) := []

namespace Server

variable {κ : Type}

/-- A new server; without a seed its challenges come from `entropy`. -/
def create (settings : ServerSettings) (transport : TransportSettings) (entropy : Source) :
    Server κ where
  settings := settings
  limit := transport.maxBodySize.toNat
  source := Source.ofSeed? settings.handshakeSeed entropy
  nextId := settings.firstClientId.toUInt64

/-! ### Looking -/

def isRunning (s : Server κ) : Bool := s.attended

/-- The registered connections by rising id. -/
def registered (s : Server κ) : List (Connection κ) :=
  s.registry.numbers.filterMap (s.connections[·]?)

/-- The connection registered under an id. -/
def connection? (s : Server κ) (id : UInt32) : Option (Connection κ) :=
  (s.registry.find? id).bind (s.connections[·]?)

def clientCount (s : Server κ) : Nat := s.registry.count

/-- The number of the connection a letter came in on, if it is registered or set aside. -/
def senderOf (s : Server κ) (l : Letter κ) : Option Nat :=
  l.origin.bind fun id => (s.registry.find? id).or (s.retired.find? id)

/-! ### What happens to a server -/

/-- Something that happens to a server. -/
inductive Event (κ : Type) where
  /-- Something happens to connection `n`. -/
  | connection (n : Nat) (e : Connection.Event κ)
  /-- Connection `n` was turned away. -/
  | rejected (n : Nat)
  /-- Connection `n` was registered under an id. -/
  | registered (n : Nat) (id : UInt32)
  /-- The handler is told that a message came in on connection `n`. -/
  | delivered (n : Nat) (m : Message κ)
  /-- The handler is told that connection `n` was found closed. -/
  | disconnected (n : Nat)
  /-- A letter was dropped because nobody knows where it came from. -/
  | dropped (l : Letter κ)
  /-- A call ended; an update says how many letters it handled. -/
  | returned (handled : Option Nat)
  deriving DecidableEq

/-- A server after something was done to it, and what happened. -/
abbrev Outcome (κ : Type) := Server κ × List (Event κ)

/-- Go on after an outcome. -/
def Outcome.andThen (o : Outcome κ) (next : Server κ → Outcome κ) : Outcome κ :=
  let p := next o.1
  (p.1, o.2 ++ p.2)

/-- Queue the message that an event of connection `n` brought, and count the event. -/
def note (id : UInt32) (s : Server κ) (e : Connection.Event κ) : Server κ :=
  let s := match e.entry? with
    | some entry => { s with metrics := s.metrics.record entry }
    | none => s
  match e with
  | .received m => { s with inbound := s.inbound.pushBack ⟨some id, m⟩ }
  | _ => s

/-- Take over what became of connection `n`. -/
def absorb (s : Server κ) (n : Nat) (o : Connection.Outcome κ) : Outcome κ :=
  (o.2.foldl (note o.1.id) { s with connections := s.connections.set n o.1 },
    o.2.map (.connection n))

/-- Do something to connection `n`. -/
def onConnection (s : Server κ) (n : Nat) (f : Connection κ → Connection.Outcome κ) : Outcome κ :=
  match s.connections[n]? with
  | none => (s, [])
  | some c => s.absorb n (f c)

/-- Set the connections registered under the given ids aside. -/
def prune (s : Server κ) (ids : List UInt32) : Server κ :=
  let (registry, retired) := Registry.move ids s.registry s.retired
  { s with registry := registry, retired := retired }

end Server
end Parley

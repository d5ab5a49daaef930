import Parley.Client
import Parley.Server.Step

/-!
# Parley.Network — a server, its clients and strangers

The two ends of a link are joined by two flows of bytes, one in each direction.  A flow keeps its
bytes in order, delivers them in pieces of any size and may end after any of them.  Ends are
connections of the server, connections of clients, and strangers, who write whatever they like.  A
step is a step of the server or of a client, a new link, something a stranger does, or a delivery.
-/

namespace Parley

namespace Network

/-- An end of a link: a connection of the server by its number, a connection of a client by the
client and the number among its connections, or a stranger. -/
inductive End where
  | server (n : Nat)
  | client (i n : Nat)
  | stranger (i : Nat)
  deriving DecidableEq, Repr

/-- One direction of a link. -/
structure Flow where
  source : End
  target : End
  /-- Bytes written and not delivered yet. -/
  inFlight : List UInt8 := []
  /-- How the flow ends behind them, once it does. -/
  ending : Option Connection.Ending := none
  /-- The end has been delivered. -/
  ended : Bool := false
  deriving DecidableEq, Repr

/-- Somebody who has opened or accepted a link and follows no rules. -/
structure Stranger where
  /-- Everything that was delivered. -/
  received : List UInt8 := []
  /-- The end of the flow was delivered. -/
  ended : Bool := false
  deriving DecidableEq, Repr

end Network

open Network in
/-- A server with everybody it is linked to. -/
structure Network (κ : Type) where
  server : Server κ
  clients : List (Client κ) := []
  strangers : List Stranger := []
  flows : List Flow := []

namespace Network

variable {κ : Type}

/-- Something that happens in a network. -/
inductive Event (κ : Type) where
  | server (e : Server.Event κ)
  | client (i : Nat) (e : Client.Event κ)

/-- A network after a step, and what happened. -/
abbrev Outcome (κ : Type) := Network κ × List (Event κ)

/-! ### Flows -/

/-- Add bytes to the flow from an end, unless it has ended. -/
def emit (source : End) (bytes : List UInt8) (flows : List Flow) : List Flow :=
  flows.map fun f =>
    if f.source = source ∧ f.ending = none then { f with inFlight := f.inFlight ++ bytes } else f

/-- Add what an event wrote to its flow. -/
def route (flows : List Flow) : Event κ → List Flow
  | .server (.connection n (.wrote bytes)) => emit (.server n) bytes flows
  | .client i ⟨n, .wrote bytes⟩ => emit (.client i n) bytes flows
  | _ => flows

/-- The end can still write. -/
def holds (net : Network κ) : End → Bool
  | .server n => net.server.connections[n]?.any (·.holdsWriting)
  | .client i n =>
    net.clients[i]?.any fun c => c.current == n && c.connection.any (·.holdsWriting)
  | .stranger _ => true

/-- End every flow whose source has let go of it. -/
def endFlows (net : Network κ) : Network κ :=
  { net with
    flows := net.flows.map fun f =>
      if f.ending = none ∧ !net.holds f.source then { f with ending := some .finished } else f }

/-- Take over a step of a party: its bytes go into its flows. -/
def settle (net : Network κ) (es : List (Event κ)) : Outcome κ :=
  (endFlows { net with flows := es.foldl route net.flows }, es)

/-- The server after a step. -/
def absorbServer (net : Network κ) (o : Server.Outcome κ) : Outcome κ :=
  settle { net with server := o.1 } (o.2.map .server)

/-- Client `i` after a step. -/
def absorbClient (net : Network κ) (i : Nat) (o : Client.Outcome κ) : Outcome κ :=
  settle { net with clients := net.clients.set i o.1 } (o.2.map (.client i))

/-- Two flows between two ends. -/
def link (a b : End) (net : Network κ) : Network κ :=
  { net with flows := net.flows ++ [{ source := a, target := b }, { source := b, target := a }] }

/-! ### Steps -/

/-- What can be done in a network. -/
inductive Action (κ : Type) where
  /-- A step of the server other than accepting; nothing arrives. -/
  | server (a : Server.Action κ)
  /-- A step of client `i` other than getting a socket; nothing arrives. -/
  | client (i : Nat) (a : Client.Action κ)
  /-- There is another client. -/
  | enter (c : Client κ)
  /-- The attempt of client `i` to connect reaches the server. -/
  | join (i : Nat) (deeds : List (Nat × Connection.Deed κ)) (approved : Bool)
  /-- The attempt of client `i` to connect reaches a stranger. -/
  | meet (i : Nat)
  /-- A stranger connects to the server. -/
  | dial (deeds : List (Nat × Connection.Deed κ)) (approved : Bool)
  /-- Stranger `i` writes. -/
  | write (i : Nat) (bytes : List UInt8)
  /-- The `f`-th flow ends after `keep` of the bytes that are in flight; the others are lost. -/
  | cut (f keep : Nat) (ending : Connection.Ending)
  /-- The next `k` bytes of the `f`-th flow are delivered. -/
  | carry (f k : Nat)
  /-- The end of the `f`-th flow is delivered. -/
  | conclude (f : Nat)

variable [Kind κ]

/-- Hand something that arrives to an end, if it is still there. -/
def deliver (net : Network κ) (target : End) (a : Connection.Action κ) (s : Stranger → Stranger) :
    Outcome κ :=
  match target with
  | .server n =>
    match net.server.step (.connection n a) with
    | some o => net.absorbServer o
    | none => (net, [])
  | .client i n =>
    match net.clients[i]? with
    | some c =>
      match if c.current = n then c.step (.connection a) else none with
      | some o => net.absorbClient i o
      | none => (net, [])
    | none => (net, [])
  | .stranger i => ({ net with strangers := net.strangers.modify i s }, [])

/-- A client has a socket: the first part of a new link. -/
def attach (net : Network κ) (i : Nat) : Option (Outcome κ × End) :=
  match net.clients[i]? with
  | none => none
  | some c =>
    if c.connection.any (·.stage == .connecting) then
      (c.step (.connection (.turn .ready))).map fun o => (net.absorbClient i o, .client i c.current)
    else none

/-- The server accepts a link from the given end. -/
def acceptFrom (net : Network κ) (far : End) (deeds : List (Nat × Connection.Deed κ))
    (approved : Bool) : Option (Outcome κ) :=
  (net.server.step (.accept deeds approved)).map fun o =>
    (net.link far (.server net.server.connections.length)).absorbServer o

/-- A step of the server that a network leaves to it. -/
def isServersOwn : Server.Action κ → Bool
  | .accept _ _ => false
  | .connection _ a => !a.isArrival
  | _ => true

/-- A step of a client that a network leaves to it. -/
def isClientsOwn (c : Client κ) : Client.Action κ → Bool
  | .connection (.turn .ready) => c.connection.any (·.stage != .connecting)
  | .connection a => !a.isArrival
  | _ => true

/-- What an action makes of a network, if it is possible. -/
def step (net : Network κ) : Action κ → Option (Outcome κ)
  | .server a => if isServersOwn a then (net.server.step a).map net.absorbServer else none
  | .client i a =>
    net.clients[i]?.bind fun c =>
      if isClientsOwn c a then (c.step a).map (net.absorbClient i) else none
  | .enter c =>
    if c.connection = none then some ({ net with clients := net.clients ++ [c] }, []) else none
  | .join i deeds approved =>
    match net.attach i with
    | none => none
    | some (o, far) => (o.1.acceptFrom far deeds approved).map fun p => (p.1, o.2 ++ p.2)
  | .meet i =>
    (net.attach i).map fun (o, far) =>
      let net := link far (.stranger o.1.strangers.length) o.1
      ({ net with strangers := net.strangers ++ [{}] }, o.2)
  | .dial deeds approved =>
    acceptFrom { net with strangers := net.strangers ++ [{}] } (.stranger net.strangers.length)
      deeds approved
  | .write i bytes =>
    if i < net.strangers.length then
      some ({ net with flows := emit (.stranger i) bytes net.flows }, [])
    else none
  | .cut f keep ending =>
    match net.flows[f]? with
    | none => none
    | some flow =>
      if flow.ending = none then
        some ({ net with
          flows := net.flows.set f
            { flow with inFlight := flow.inFlight.take keep, ending := some ending } }, [])
      else none
  | .carry f k =>
    match net.flows[f]? with
    | none => none
    | some flow =>
      if 0 < k ∧ k ≤ flow.inFlight.length then
        let bytes := flow.inFlight.take k
        some (deliver
          { net with flows := net.flows.set f { flow with inFlight := flow.inFlight.drop k } }
          flow.target (.arrive bytes) fun s => { s with received := s.received ++ bytes })
      else none
  | .conclude f =>
    match net.flows[f]? with
    | none => none
    | some flow =>
      match flow.inFlight, flow.ending with
      | [], some ending =>
        if flow.ended then none
        else
          some (deliver { net with flows := net.flows.set f { flow with ended := true } }
            flow.target (.expire ending) fun s => { s with ended := true })
      | _, _ => none

/-- Actions in a row. -/
def run (net : Network κ) (as : List (Action κ)) : Option (Outcome κ) := Run.all step net as

end Network
end Parley

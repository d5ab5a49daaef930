import Parley.Network

/-!
# Parley.Simulation — a network that comes to rest

A simulation runs a network by a script: clients and strangers go by names, the handler of the
server follows fixed rules, and after every command all tasks run and all bytes are delivered until
nothing is left to do.  Where a task could go on or give up, it gives up, and everything that can be
written or delivered in one piece is.  Commands that name somebody who is not there are refused.
-/

namespace Parley

namespace Simulation

/-- What the handler says to a new connection. -/
inductive Verdict where
  | approve | refuse
  /-- It closes the connection and approves of it all the same. -/
  | drop
  deriving DecidableEq, Repr

/-- What the handler does about a message. -/
inductive Reaction where
  | record
  /-- Send it back. -/
  | echo
  /-- Send it to everybody else. -/
  | broadcast
  /-- Close the connection it came in on. -/
  | kick
  deriving DecidableEq, Repr

/-- The rules of a handler. -/
structure Handler (κ : Type) where
  /-- One verdict for each connection in turn, the last one for all that follow. -/
  verdicts : List Verdict := [.approve]
  reaction : Reaction := .record
  /-- A message for every validated connection. -/
  greeting : Option (Message κ) := none
  /-- Every validated connection is closed, after the greeting. -/
  dropsValidated : Bool := false
  /-- It keeps the connections it is shown and a record of what it is told. -/
  recording : Bool := true

/-- The verdict on the `n`-th connection. -/
def Handler.verdict {κ : Type} (h : Handler κ) (n : Nat) : Verdict :=
  (h.verdicts[n]?.or h.verdicts.getLast?).getD .approve

/-- Something the handler was told. -/
inductive Told (κ : Type) where
  | connected (n : Nat) (id : UInt32) (verdict : Verdict)
  | validated (id : UInt32)
  | message (id : UInt32) (m : Message κ)
  | disconnected (id : UInt32)

/-- A stranger known by name. -/
structure Peer where
  index : Nat
  /-- How much of what it received has been reported. -/
  reported : Nat := 0

/-- Somebody who is named and is not there. -/
inductive Missing where
  | connection | peer | client
  deriving DecidableEq, Repr

def Missing.message : Missing → String
  | connection => "no such connection"
  | peer => "no such peer"
  | client => "no such client"

end Simulation

open Simulation in
/-- A network that is run by a script. -/
structure Simulation (κ : Type) where
  host : Host
  handler : Handler κ
  network : Network κ
  clients : List (String × Nat) := []
  peers : List (String × Peer) := []
  /-- Strangers that clients can connect to. -/
  listeners : List String := []
  /-- What the handler was told since the last report. -/
  told : List (Told κ) := []
  /-- What the last update returned. -/
  handled : Nat := 0

namespace Simulation

variable {κ : Type}

def create (host : Host) (handler : Handler κ) (server : Server κ) : Simulation κ where
  host := host
  handler := handler
  network := { server := server }

def server (s : Simulation κ) : Server κ := s.network.server

/-! ### The handler -/

def tell (t : Told κ) (s : Simulation κ) : Simulation κ :=
  if s.handler.recording then { s with told := s.told ++ [t] } else s

/-- The id that connection `n` holds. -/
def idOf (s : Simulation κ) (n : Nat) : UInt32 := (s.server.connections[n]?.map (·.id)).getD 0

/-- Write down what an event tells the handler. -/
def note (s : Simulation κ) : Network.Event κ → Simulation κ
  | .server (.connection n .opened) => s.tell (.validated (s.idOf n))
  | .server (.delivered n m) => s.tell (.message (s.idOf n) m)
  | .server (.disconnected n) => s.tell (.disconnected (s.idOf n))
  | .server (.returned (some handled)) => { s with handled := handled }
  | _ => s

/-- What the handler does about an event, and that it is done then. -/
def reaction (h : Handler κ) : Network.Event κ → List (Server.Action κ)
  | .server (.connection n .opened) =>
    (h.greeting.map fun m => .connection n (.perform .reactor (.send m))).toList
      ++ if h.dropsValidated then [.connection n (.perform .reactor .disconnect)] else []
  | .server (.delivered n m) =>
    (match h.reaction with
      | .record => []
      | .echo => [.messageClient n m]
      | .broadcast => [.broadcast m (some n)]
      | .kick => [.connection n (.perform .application .disconnect)]) ++ [.resume]
  | .server (.disconnected _) => [.resume]
  | _ => []

/-- What the handler does to the `n`-th connection when it is shown it, and whether it approves. -/
def welcome (h : Handler κ) (n : Nat) : List (Nat × Connection.Deed κ) × Bool :=
  match h.verdict n with
  | .approve => ([], true)
  | .refuse => ([], false)
  | .drop => ([(n, .disconnect)], true)

variable [Kind κ]

/-! ### Doing one thing -/

/-- Take steps in a row, each followed by what the handler does about it; impossible ones are left
out. -/
def follow : Nat → List (Network.Action κ) → Simulation κ → Simulation κ
  | 0, _, s => s
  | _, [], s => s
  | fuel + 1, a :: rest, s =>
    match s.network.step a with
    | none => follow fuel rest s
    | some (network, es) =>
      follow fuel (es.flatMap (fun e => (reaction s.handler e).map .server) ++ rest)
        (es.foldl note { s with network := network })

/-- The steps that one call can take: it handles every queued letter at most once, and a message to
all looks at every registered connection. -/
def callFuel (s : Simulation κ) : Nat :=
  (s.server.inbound.count + 2) * (2 * s.server.clientCount + 4)

/-- Take one step, with what the handler does about it. -/
def act (a : Network.Action κ) (s : Simulation κ) : Simulation κ := follow s.callFuel [a] s

/-! ### Coming to rest -/

/-- The next step of a task of a connection that is not opening a socket. -/
def nextTask (c : Connection κ) : Option (Connection.Action κ) :=
  let main := match c.stage with
    | .connecting => []
    | .sending unsent => [.turn (.wrote unsent.length)]
    | _ => [.turn .ready]
  let candidates : List (Connection.Action κ) :=
    [.turn .cancelled, .takeUp .application, .takeUp .reactor, .chain 0 .cancelled, .chain 0 .ready,
      .chain 0 (.wrote (c.writer.getD []).length)] ++ main
  candidates.find? fun a => (c.step a).isSome

/-- The next delivery of a flow. -/
def nextDelivery (f : Nat) (flow : Network.Flow) : Option (Network.Action κ) :=
  if flow.inFlight ≠ [] then some (.carry f flow.inFlight.length)
  else if flow.ending.isSome && !flow.ended then some (.conclude f)
  else none

/-- The next step of a network that is left alone. -/
def nextStep (net : Network κ) : Option (Network.Action κ) :=
  let tasks := net.server.connections.zipIdx.findSome? fun (c, n) =>
    (nextTask c).map fun a => .server (.connection n a)
  let clientTasks := net.clients.zipIdx.findSome? fun (c, i) =>
    (c.connection.bind nextTask).map fun a => .client i (.connection a)
  let deliveries := net.flows.zipIdx.findSome? fun (flow, f) => nextDelivery f flow
  (tasks.or clientTasks).or deliveries

/-- Let the network run. -/
def restFor : Nat → Simulation κ → Simulation κ
  | 0, s => s
  | fuel + 1, s =>
    match nextStep s.network with
    | none => s
    | some a => restFor fuel (s.act a)

def sum (ns : List Nat) : Nat := ns.foldl (· + ·) 0

/-- The bytes that a connection still has to do with. -/
def load (c : Connection κ) : Nat :=
  let wire := fun (ms : List (Message κ)) => sum (ms.map Message.total)
  16 + c.inlet.pending.length + wire c.posted + wire c.postedByHooks + wire c.outbound.toList
    + match c.stage with
      | .reading buffer => buffer.length
      | _ => 0

/-- The steps until a network rests: every byte is moved a few times only, because nothing is
answered but the handshake. -/
def restFuel (s : Simulation κ) : Nat :=
  let greeting := (s.handler.greeting.map Message.total).getD 0
  let connections := s.server.connections ++ s.network.clients.filterMap (·.connection)
  let flying := sum (s.network.flows.map (·.inFlight.length))
  8 * (sum (connections.map fun c => load c + greeting) + flying + 8)

/-- Let the network come to rest. -/
def rest (s : Simulation κ) : Simulation κ := restFor s.restFuel s

/-- Take one step and let the network come to rest. -/
def perform (a : Network.Action κ) (s : Simulation κ) : Simulation κ := (s.act a).rest

/-! ### The server and its application -/

/-- Start the server and leave the rest of its address to the machine. -/
def start (s : Simulation κ) : Simulation κ × Option Fault :=
  match s.server.start s.host 0 with
  | .error e => (s, some e)
  | .ok _ => (s.perform (.server (.start s.host 0)), none)

/-- The connection the handler keeps under a number. -/
def connection (s : Simulation κ) (n : Nat) : Except Missing (Connection κ) :=
  match s.server.connections[n]? with
  | some c => if s.handler.recording then .ok c else .error .connection
  | none => .error .connection

/-- Do something with a connection the handler keeps. -/
def onConnection (n : Nat) (a : Server.Action κ) (s : Simulation κ) :
    Except Missing (Simulation κ) :=
  (s.connection n).map fun _ => s.perform (.server a)

/-- Send to everybody but, perhaps, one connection the handler keeps. -/
def broadcast (m : Message κ) (exclude : Option Nat) (s : Simulation κ) :
    Except Missing (Simulation κ) :=
  match exclude with
  | none => .ok (s.perform (.server (.broadcast m none)))
  | some n => s.onConnection n (.broadcast m (some n))

/-- Update the server; a call that waits is given the letter if there is none. -/
def update (limit : Option Nat) (wait : Bool) (l : Option (Letter κ)) (s : Simulation κ) :
    Simulation κ × Nat :=
  let arrival := if wait && !s.server.inbound.ready then l else none
  let s := match arrival with
    | some l => s.act (.server (.inject l))
    | none => s
  let s := act (.server (.update limit wait)) { s with handled := 0 }
  (s.rest, s.handled)

/-- Take a letter out of the server's inbound queue. -/
def take (s : Simulation κ) : Simulation κ × Option (Letter κ) :=
  (s.perform (.server .take), s.server.inbound.peekFront?)

/-! ### Strangers -/

/-- Add or replace what a name stands for. -/
def rename {α : Type} (name : String) (a : α) (names : List (String × α)) : List (String × α) :=
  names.filter (·.1 != name) ++ [(name, a)]

/-- The next connection the server accepts comes from a new stranger, unless it is refused. -/
def connect (name : String) (s : Simulation κ) : Simulation κ × Bool :=
  if s.host.connects && s.server.isRunning then
    let n := s.server.connections.length
    let i := s.network.strangers.length
    let (deeds, approved) := welcome s.handler n
    let s := s.tell (.connected n 0 (s.handler.verdict n))
    let s := { s with peers := rename name { index := i } s.peers }
    (s.perform (.dial deeds approved), true)
  else (s, false)

def peer (s : Simulation κ) (name : String) : Except Missing Peer :=
  match s.peers.lookup name with
  | some p => .ok p
  | none => .error .peer

/-- Everything a stranger received. -/
def received (s : Simulation κ) (p : Peer) : List UInt8 :=
  (s.network.strangers[p.index]?.map (·.received)).getD []

/-- A stranger writes. -/
def write (name : String) (bytes : List UInt8) (s : Simulation κ) : Except Missing (Simulation κ) :=
  (s.peer name).map fun p => s.perform (.write p.index bytes)

/-- A part of the answer to the challenge that a stranger received, masked, and more bytes after it.
-/
def answer (s : Simulation κ) (name : String) (mask : UInt64) (first last : Nat)
    (more : List UInt8) : Except Missing (List UInt8) :=
  (s.peer name).map fun p =>
    let challenge := Bytes.toWord ((s.received p).take handshakeSize)
    ((Bytes.ofWord (scramble challenge ^^^ mask)).take last).drop first ++ more

/-- A stranger ends its direction of the link, after everything it wrote. -/
def finish (ending : Connection.Ending) (p : Peer) (s : Simulation κ) : Simulation κ :=
  match s.network.flows.findIdx? fun f => f.source == .stranger p.index with
  | some f => s.perform (.cut f ((s.network.flows[f]?.map (·.inFlight.length)).getD 0) ending)
  | none => s

/-- A stranger ends its direction of the link and goes on reading. -/
def shutdown (name : String) (s : Simulation κ) : Except Missing (Simulation κ) :=
  (s.peer name).map (s.finish .finished)

/-- A stranger goes away, leaving the stream to end in the given way. -/
def leave (name : String) (ending : Connection.Ending) (s : Simulation κ) :
    Except Missing (Simulation κ) :=
  (s.peer name).map fun p =>
    let s := s.finish ending p
    { s with peers := s.peers.filter (·.1 != name) }

/-! ### Clients -/

/-- Where a client connects to. -/
inductive Target where
  | server
  /-- An address nobody listens on. -/
  | nowhere
  /-- A listener; the stranger that accepts gets a name. -/
  | listener (name peer : String)
  /-- A name that stands for no address, for the given reason. -/
  | unresolved (host : String) (portNumber : UInt16) (reason : String)

/-- What a client is told to connect to, and the addresses this stands for. -/
def Target.address : Target → String × UInt16 × Except String (List Address)
  | .unresolved host portNumber reason => (host, portNumber, .error reason)
  | .server | .nowhere | .listener _ _ => ("127.0.0.1", 0, .ok [.v4 127 0 0 1])

def clientIndex (s : Simulation κ) (name : String) : Except Missing Nat :=
  match s.clients.lookup name with
  | some i => .ok i
  | none => .error .client

def client (s : Simulation κ) (name : String) : Except Missing (Client κ) :=
  match s.clients.lookup name with
  | some i =>
    match s.network.clients[i]? with
    | some c => .ok c
    | none => .error .client
  | none => .error .client

/-- There is another client. -/
def addClient (name : String) (c : Client κ) (s : Simulation κ) : Simulation κ :=
  let i := s.network.clients.length
  { s.act (.enter c) with clients := rename name i s.clients }

/-- Do something with a client. -/
def onClient (name : String) (a : Client.Action κ) (s : Simulation κ) :
    Except Missing (Simulation κ) :=
  (s.clientIndex name).map fun i => s.perform (.client i a)

/-- The attempt of client `i` to connect comes to its end. -/
def settleAttempt (i : Nat) (target : Target) (s : Simulation κ) : Simulation κ :=
  let refused := s.perform (.client i (.connection (.turn .failed)))
  match target with
  | .server =>
    if s.host.connects && s.server.isRunning then
      let n := s.server.connections.length
      let (deeds, approved) := welcome s.handler n
      (s.tell (.connected n 0 (s.handler.verdict n))).perform (.join i deeds approved)
    else refused
  | .listener name peer =>
    if s.host.connects && s.listeners.contains name then
      let index := s.network.strangers.length
      perform (.meet i) { s with peers := rename peer { index := index } s.peers }
    else refused
  | .nowhere | .unresolved _ _ _ => refused

/-- Connect a client and send messages at once, before the attempt comes to its end. -/
def connectClient (name : String) (target : Target) (messages : List (Message κ))
    (s : Simulation κ) : Except Missing (Simulation κ × Option Fault) :=
  (s.clientIndex name).map fun i =>
    let (host, portNumber, found) := target.address
    let fault := s.network.clients[i]?.bind fun c => (c.connect host portNumber found).2
    let s := s.act (.client i (.connect host portNumber found))
    let s := messages.foldl (fun s m => s.act (.client i (.send m))) s
    if fault.isSome then (s.rest, fault) else (s.settleAttempt i target, none)

/-- A client is dropped. -/
def dropClient (name : String) (s : Simulation κ) : Except Missing (Simulation κ) :=
  (s.onClient name .disconnect).map fun s => { s with clients := s.clients.filter (·.1 != name) }

/-- Everything a client has received and not taken. -/
def receive (name : String) (s : Simulation κ) : Except Missing (Simulation κ × List (Letter κ)) :=
  (s.clientIndex name).map fun i =>
    let letters := (s.network.clients[i]?.map (·.inbound.toList)).getD []
    (letters.foldl (fun s _ => s.act (.client i .take)) s, letters)

/-! ### Reports -/

/-- What a stranger received since the last report, and whether the other end has closed. -/
def news (s : Simulation κ) (p : Peer) : List UInt8 × Bool :=
  ((s.received p).drop p.reported, s.network.strangers[p.index]?.any (·.ended))

/-- Start afresh after a report. -/
def afterReport (s : Simulation κ) : Simulation κ :=
  { s with
    told := []
    peers := s.peers.map fun (name, p) => (name, { p with reported := (s.received p).length }) }

end Simulation
end Parley

import Parley.Connection.Step
import Parley.Run
import Parley.Server

/-!
# Parley.Server.Step — what can happen to a server next

A step is one call of the application, one return of the handler, one socket that is accepted, or
one step of one of the connections.  A call runs up to the first thing it has to tell the handler;
the handler's own calls come next, and `resume` lets the call go on.
-/

namespace Parley.Server

variable {κ : Type}

/-! ### Starting and stopping -/

/-- The address a server is to listen on. -/
def bindAddress? (s : Server κ) : Except Fault Address :=
  match Address.parse? s.settings.bindAddress with
  | some address => .ok address
  | none =>
    .error (.setup ("Invalid bind address '" ++ s.settings.bindAddress ++ "': "
      ++ Address.syntaxMessage))

/-- Listen on the address of the settings and start the thread that runs the tasks. -/
def start (s : Server κ) (host : Host) (portNumber : UInt16) : Except Fault (Server κ) :=
  if s.attended then .error (.setup Fault.alreadyRunning)
  else
    match s.bindAddress? with
    | .error e => .error e
    | .ok address =>
      match host.bindFailure? address with
      | some reason =>
        .error (.setup ("Failed to bind " ++ address.text ++ ":" ++ toString portNumber.toNat
          ++ ": " ++ reason))
      | none => .ok { s with attended := true, localAddress := some address }

/-- Close connections one after the other. -/
def disconnectAll : List Nat → Server κ → Outcome κ
  | [], s => (s, [])
  | n :: rest, s => (s.onConnection n Connection.close).andThen (disconnectAll rest)

/-- End the thread that runs the tasks, which drops all of them, and close the registered
connections, which stay registered. -/
def stop (s : Server κ) : Outcome κ :=
  if s.attended then
    let s := { s with attended := false, connections := s.connections.map Connection.abort }
    (disconnectAll s.registry.numbers s).andThen fun s => ({ s with localAddress := none }, [])
  else (s, [])

/-! ### Accepting -/

/-- What a hook does with connections it knows. -/
def performAll : List (Nat × Connection.Deed κ) → Server κ → Outcome κ
  | [], s => (s, [])
  | (n, deed) :: rest, s =>
    (s.onConnection n fun c => c.perform .reactor deed).andThen (performAll rest)

/-- Turn connection `n` away. -/
def reject (n : Nat) (s : Server κ) : Outcome κ :=
  let o := onConnection { s with metrics := s.metrics.record .rejected } n Connection.close
  (o.1, .rejected n :: o.2)

/-- Register connection `n` under the next id and let it begin, as long as there are ids. -/
def enrol (n : Nat) (s : Server κ) : Outcome κ :=
  let next := s.nextId
  let s := { s with nextId := next + 1 }
  if next.toNat < UInt32.size then
    let id := next.toUInt32
    let s := { s with registry := s.registry.insert id n }
    let o := s.onConnection n fun c => (c.approve id, [])
    (o.1, .registered n id :: o.2)
  else s.reject n

/-- Accept a socket: the handler is shown the new connection, does something, and approves of it or
not. -/
def accept (s : Server κ) (deeds : List (Nat × Connection.Deed κ)) (approved : Bool) : Outcome κ :=
  let n := s.connections.length
  let c := Connection.accepted s.limit (s.source.challenge n)
  (absorb { s with connections := s.connections ++ [c] } n (c, [.established])).andThen fun s =>
    (s.performAll deeds).andThen fun s => if approved then s.enrol n else s.reject n

/-! ### Sending -/

/-- Send to connection `n`, or report it if it is not connected. -/
def messageClient (s : Server κ) (n : Nat) (m : Message κ) : Option (Outcome κ) :=
  s.connections[n]?.map fun c =>
    if c.isConnected then
      (s.onConnection n fun c => (c.send .application m, [])).andThen fun s => (s, [.returned none])
    else ({ s with calls := .reporting n :: s.calls }, [.disconnected n])

/-- Send to some connections, one of which may be excluded, up to the first that is not connected,
which is reported. -/
def sweep (m : Message κ) (exclude : Option Nat) : List Nat → List UInt32 → Server κ → Outcome κ
  | [], dead, s => (s.prune dead, [.returned none])
  | n :: rest, dead, s =>
    match s.connections[n]? with
    | none => sweep m exclude rest dead s
    | some c =>
      if c.isConnected then
        if exclude = some n then sweep m exclude rest dead s
        else
          (s.onConnection n fun c => (c.send .application m, [])).andThen
            (sweep m exclude rest dead)
      else ({ s with calls := .sweeping m exclude n rest dead :: s.calls }, [.disconnected n])

/-- Send to all registered connections but one. -/
def broadcast (s : Server κ) (m : Message κ) (exclude : Option Nat) : Outcome κ :=
  s.sweep m exclude s.registry.numbers []

/-! ### Dispatching -/

/-- An update is done: nothing that was set aside is needed any more if the queue is empty. -/
def endUpdate (s : Server κ) (handled : Nat) : Outcome κ :=
  ({ s with retired := if s.inbound.isEmpty then .empty else s.retired },
    [.returned (some handled)])

/-- Take at most `left` letters off the inbound queue, up to the first whose sender is known, which
is delivered. -/
def dispatch : Nat → Nat → Server κ → Outcome κ
  | 0, handled, s => s.endUpdate handled
  | left + 1, handled, s =>
    match s.inbound.popFront? with
    | none => s.endUpdate handled
    | some (l, rest) =>
      let s := { s with inbound := rest }
      match s.senderOf l with
      | some n =>
        ({ s with calls := .updating left (handled + 1) :: s.calls }, [.delivered n l.message])
      | none =>
        let o := dispatch left (handled + 1) s
        (o.1, .dropped l :: o.2)

/-- Dispatch letters, all of them unless there is a limit; a call that waits goes on when there is
one. -/
def update (s : Server κ) (limit : Option Nat) (wait : Bool) : Option (Outcome κ) :=
  if wait && !s.inbound.ready then none
  else some (s.dispatch (limit.getD Message.addressMax) 0)

/-- The handler is done: the innermost call goes on. -/
def resume (s : Server κ) : Option (Outcome κ) :=
  match s.calls with
  | [] => none
  | call :: calls =>
    let s := { s with calls := calls }
    let idOf := fun n => (s.connections[n]?.map (·.id)).toList
    some <| match call with
      | .updating left handled => s.dispatch left handled
      | .sweeping m exclude n rest dead => s.sweep m exclude rest (dead ++ idOf n)
      | .reporting n => (s.prune (idOf n), [.returned none])

/-! ### Steps and runs -/

/-- What can be done to a server. -/
inductive Action (κ : Type) where
  | start (host : Host) (portNumber : UInt16)
  | stop
  /-- A socket comes in; the handler does something with connections and approves or not. -/
  | accept (deeds : List (Nat × Connection.Deed κ)) (approved : Bool)
  /-- A step of connection `n`. -/
  | connection (n : Nat) (a : Connection.Action κ)
  | messageClient (n : Nat) (m : Message κ)
  | broadcast (m : Message κ) (exclude : Option Nat)
  | update (limit : Option Nat) (wait : Bool)
  /-- The handler is done. -/
  | resume
  /-- The application puts a letter into the inbound queue itself. -/
  | inject (l : Letter κ)
  /-- The application takes a letter out of the inbound queue itself. -/
  | take

variable [Kind κ]

/-- What an action makes of a server, if it is possible.  A server is neither started nor stopped
while a call waits for the handler. -/
def step (s : Server κ) : Action κ → Option (Outcome κ)
  | .start host portNumber =>
    if s.calls.isEmpty then
      match s.start host portNumber with
      | .ok s' => some (s', [])
      | .error _ => some (s, [])
    else none
  | .stop => if s.calls.isEmpty then some s.stop else none
  | .accept deeds approved => if s.attended then some (s.accept deeds approved) else none
  | .connection n a =>
    if a.isOwners then none
    else s.connections[n]?.bind fun c => (c.step a).map (s.absorb n)
  | .messageClient n m => s.messageClient n m
  | .broadcast m exclude => some (s.broadcast m exclude)
  | .update limit wait => s.update limit wait
  | .resume => s.resume
  | .inject l => some ({ s with inbound := s.inbound.pushBack l }, [])
  | .take => s.inbound.popFront?.map fun p => ({ s with inbound := p.2 }, [])

/-- Actions in a row. -/
def run (s : Server κ) (as : List (Action κ)) : Option (Outcome κ) := Run.all step s as

end Parley.Server

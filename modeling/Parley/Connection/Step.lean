import Parley.Connection
import Parley.Run

/-!
# Parley.Connection.Step — what can happen to a connection next

A step is one call of the application, one thing the network does, or one task running from one
point at which it waits to the next.  `step` says what an action makes of a connection, and nothing
if the action is not possible; `run` is a list of actions in a row.  Where a task waits for the
socket and the connection has been closed in the meantime, both going on and giving up are possible.
-/

namespace Parley.Connection

variable {κ : Type} [Kind κ]

/-- How a task that was waiting comes to run. -/
inductive Turn where
  /-- It notices that the connection was closed. -/
  | cancelled
  /-- What it waited for is there. -/
  | ready
  /-- The socket took so many bytes. -/
  | wrote (n : Nat)
  /-- Connecting or writing failed. -/
  | failed
  deriving DecidableEq, Repr

/-- What an application does with a connection it knows. -/
inductive Deed (κ : Type) where
  | send (m : Message κ)
  | disconnect
  deriving DecidableEq

/-- An application's deed, on a given thread. -/
def perform (thread : Thread) (c : Connection κ) : Deed κ → Outcome κ
  | .send m => (c.send thread m, [])
  | .disconnect => c.close

/-! ### The main task -/

/-- Close because the handshake failed. -/
def failHandshake (c : Connection κ) : Outcome κ :=
  let (c', es) := close { c with stage := .finished }
  match c.side with
  | .server => (c', .failed :: es)
  | .client => (c', .failed :: .errored :: es)

/-- Close because there is nothing more to read, after a failure if `errored` says so. -/
def stopReading (errored : Bool) (c : Connection κ) : Outcome κ :=
  let (c', es) := close { c with stage := .leaving }
  (c', if errored then .errored :: es else es)

/-- A socket was opened, which is of no use if the connection has been closed. -/
def attach (c : Connection κ) : Outcome κ :=
  match c.phase with
  | .connecting =>
    ({ c with peerKnown := true, phase := .validating, stage := .awaiting [] },
      [.established, .attempted])
  | _ => ({ c with peerKnown := true, stage := .finished }, [])

/-- No socket could be opened. -/
def giveUp (c : Connection κ) : Outcome κ :=
  let (c', es) := close { c with stage := .finished }
  (c', .errored :: es)

/-- Take the accepted socket and begin the handshake with the challenge. -/
def begin (c : Connection κ) : Outcome κ :=
  if c.socket then
    ({ c with socket := false, stage := .sending (Bytes.ofWord c.out) }, [.attempted])
  else ({ c with stage := .finished }, [])

/-- The word of the handshake is written: a server waits for the answer, a client is done. -/
def wordSent (c : Connection κ) : Outcome κ :=
  match c.side with
  | .server => ({ c with stage := .awaiting [] }, [])
  | .client => ({ c with stage := .admitted }, [.succeeded])

/-- The word of the other end has arrived: a server checks it, a client answers it. -/
def hear (word : UInt64) (c : Connection κ) : Outcome κ :=
  match c.side with
  | .server =>
    if word = c.expected then ({ c with heard := word, stage := .admitted }, [.succeeded])
    else failHandshake { c with heard := word }
  | .client =>
    let answer := scramble word
    ({ c with heard := word, out := answer, stage := .sending (Bytes.ofWord answer) }, [])

/-- Read bytes of the other end's word, and not one byte more. -/
def readWord (got : List UInt8) (c : Connection κ) : Option (Outcome κ) :=
  match c.inlet.pending with
  | [] => c.inlet.ending.map fun _ => c.failHandshake
  | pending =>
    let need := handshakeSize - got.length
    let got := got ++ pending.take need
    let c := { c with inlet := { c.inlet with pending := pending.drop need } }
    some (if got.length = handshakeSize then c.hear (Bytes.toWord got)
      else ({ c with stage := .awaiting got }, []))

/-- Hand the writer over and open the connection, unless it has been closed.  What was queued before
is now written. -/
def enter (c : Connection κ) : Outcome κ :=
  match c.phase with
  | .validating =>
    ({ c with
        writer := some []
        phase := .opened
        stage := .reading []
        chains := if c.outbound.isEmpty then c.chains else c.chains ++ [.waiting] },
      [.opened])
  | _ => ({ c with writer := some [], stage := .finished }, [])

/-- Take the next message off the buffer, or more bytes into it, or stop. -/
def readFrames (buffer : List UInt8) (c : Connection κ) : Option (Outcome κ) :=
  match Frame.decode c.limit buffer with
  | .error _ => some (c.stopReading true)
  | .ok (some (m, rest)) => some ({ c with stage := .reading rest }, [.received m])
  | .ok none =>
    match c.inlet.pending, c.inlet.ending with
    | [], none => none
    | [], some .broken => some (c.stopReading true)
    | [], some .finished =>
      match (Frame.decodeEnd c.limit buffer : Except Fault (Option (Message κ × List UInt8))) with
      | .ok _ => some (c.stopReading false)
      | .error _ => some (c.stopReading true)
    | pending, _ =>
      some
        ({ c with stage := .reading (buffer ++ pending), inlet := { c.inlet with pending := [] } },
          [])

/-- One turn of the main task. -/
def turn (c : Connection κ) (t : Turn) : Option (Outcome κ) :=
  match c.stage, t with
  | .starting, .ready => some c.begin
  | .connecting, .ready => some c.attach
  | .connecting, .failed => some c.giveUp
  | .sending unsent, .wrote n =>
    if 0 < n ∧ n < unsent.length then
      some ({ c with stage := .sending (unsent.drop n) }, [.wrote (unsent.take n)])
    else if n = unsent.length then
      let (c', es) := c.wordSent
      some (c', .wrote unsent :: es)
    else none
  | .sending _, .failed => some c.failHandshake
  | .awaiting got, .ready => c.readWord got
  | .admitted, .ready => if c.isLocked then none else some c.enter
  | .reading buffer, .ready => c.readFrames buffer
  | .reading _, .cancelled => if c.isClosed then some ({ c with stage := .leaving }, []) else none
  | .connecting, .cancelled | .sending _, .cancelled | .awaiting _, .cancelled =>
    if c.isClosed then some ({ c with stage := .finished }, []) else none
  | .leaving, .ready =>
    if c.isLocked then none else some ({ c with stage := .finished, writer := none }, [])
  | _, _ => none

/-! ### Posted messages and the write chain -/

/-- Put the first message a thread has posted into the outbound queue, unless the connection has
been closed.  Where the queue was empty and the connection is open, this starts a chain. -/
def takeUp (c : Connection κ) (thread : Thread) : Option (Outcome κ) :=
  let next := match thread with
    | .application =>
      match c.posted with
      | [] => none
      | m :: rest => some (m, { c with posted := rest })
    | .reactor =>
      match c.postedByHooks with
      | [] => none
      | m :: rest => some (m, { c with postedByHooks := rest })
  next.map fun (m, c) =>
    if c.isClosed then (c, [])
    else
      let (wasEmpty, outbound) := c.outbound.pushBackWasEmpty m
      let starts := wasEmpty && c.phase == .opened
      ({ c with
          outbound := outbound
          chains := if starts then c.chains ++ [.waiting] else c.chains },
        [.enqueued m])

/-- Close because writing failed in the `i`-th chain, which ends. -/
def failWriting (i : Nat) (c : Connection κ) : Outcome κ :=
  let (c', es) := close { c with writer := none, chains := c.chains.eraseIdx i }
  (c', .errored :: es)

/-- The `i`-th chain has the lock and goes on to the first message of the queue; without one, or
without a writer, it ends. -/
def writeNext (i : Nat) (c : Connection κ) : Outcome κ :=
  match c.outbound.peekFront?, c.writer with
  | some m, some unsent =>
    match Frame.encode c.limit m with
    | .ok bytes =>
      ({ c with writer := some (unsent ++ bytes), chains := c.chains.set i (.writing m) }, [])
    | .error _ => c.failWriting i
  | _, _ => ({ c with chains := c.chains.eraseIdx i }, [])

/-- One turn of the `i`-th chain. -/
def chainTurn (c : Connection κ) (i : Nat) (t : Turn) : Option (Outcome κ) :=
  match c.chains[i]?, t with
  | some .waiting, .ready => if c.isLocked then none else some (c.writeNext i)
  | some (.writing m), .wrote n =>
    match c.writer with
    | none => none
    | some unsent =>
      if 0 < n ∧ n < unsent.length then
        some ({ c with writer := some (unsent.drop n) }, [.wrote (unsent.take n)])
      else if n = unsent.length then
        let (c', es) := writeNext i { c with writer := some [], outbound := c.outbound.dropFront }
        some (c', .wrote unsent :: .sent m :: es)
      else none
  | some (.writing _), .failed => some (c.failWriting i)
  | some (.writing _), .cancelled =>
    if c.isClosed then some ({ c with chains := c.chains.eraseIdx i }, []) else none
  | _, _ => none

/-! ### Steps and runs -/

/-- What can be done to a connection. -/
inductive Action (κ : Type) where
  /-- The application, or a hook, does something. -/
  | perform (thread : Thread) (deed : Deed κ)
  /-- The server assigns an id. -/
  | approve (id : UInt32)
  /-- The thread that runs the tasks ends. -/
  | abort
  /-- Bytes arrive. -/
  | arrive (bytes : List UInt8)
  /-- The stream of arriving bytes comes to an end. -/
  | expire (ending : Ending)
  /-- The first message posted by a thread is taken up. -/
  | takeUp (thread : Thread)
  /-- The main task runs. -/
  | turn (t : Turn)
  /-- The `i`-th write chain runs. -/
  | chain (i : Nat) (t : Turn)
  deriving DecidableEq

/-- Only the owner of a connection assigns ids and drops tasks. -/
def Action.isOwners : Action κ → Bool
  | .approve _ | .abort => true
  | _ => false

/-- Something that comes from the other end of the link. -/
def Action.isArrival : Action κ → Bool
  | .arrive _ | .expire _ => true
  | _ => false

/-- What an action makes of a connection, if it is possible. -/
def step (c : Connection κ) : Action κ → Option (Outcome κ)
  | .perform thread deed => some (c.perform thread deed)
  | .approve id =>
    if c.side = .server ∧ c.stage = .absent ∧ c.attended then some (c.approve id, []) else none
  | .abort => some (c.abort, [])
  | .arrive bytes =>
    if c.inlet.ending = none then
      some ({ c with inlet := { c.inlet with pending := c.inlet.pending ++ bytes } }, [])
    else none
  | .expire ending =>
    if c.inlet.ending = none then
      some ({ c with inlet := { c.inlet with ending := some ending } }, [])
    else none
  | .takeUp thread => c.takeUp thread
  | .turn t => c.turn t
  | .chain i t => c.chainTurn i t

/-- Actions in a row. -/
def run (c : Connection κ) (as : List (Action κ)) : Option (Outcome κ) := Run.all step c as

end Parley.Connection

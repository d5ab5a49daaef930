import Parley.Deque
import Parley.Frame
import Parley.Handshake
import Parley.Metrics

/-!
# Parley.Connection — one end of a link

A connection starts on an accepted socket (a server's) or without one (a client's), does the
handshake and then moves frames both ways until it is closed.  Three kinds of tasks work on it: the
main task, which does the handshake and then reads; one task per posted message, which puts it into
the outbound queue; and the write chain, which empties that queue and holds the lock of the writer
while it does.  This module holds what a connection consists of and how it is closed; its steps are
in `Parley.Connection.Step`.
-/

namespace Parley

/-- Which end of a link a connection is. -/
inductive Side where
  | server | client
  deriving DecidableEq, Repr

def Side.name : Side → String
  | .server => "Server"
  | .client => "Client"

/-- How far the life of a connection has come. -/
inductive Phase where
  | connecting | validating | opened | closed
  deriving DecidableEq, Repr

namespace Phase

def toByte : Phase → UInt8
  | connecting => 0
  | validating => 1
  | opened => 2
  | closed => 3

/-- The phase a byte stands for; what stands for none counts as closed. -/
def ofByte (b : UInt8) : Phase :=
  if b = 0 then connecting else if b = 1 then validating else if b = 2 then opened else closed

def name : Phase → String
  | connecting => "Connecting"
  | validating => "Validating"
  | opened => "Open"
  | closed => "Closed"

/-- In these phases a connection has a socket that is counted as active. -/
def isLive : Phase → Bool
  | validating | opened => true
  | connecting | closed => false

@[simp] theorem ofByte_toByte (p : Phase) : ofByte p.toByte = p := by cases p <;> rfl

theorem isLive_iff {p : Phase} : p.isLive = true ↔ p = validating ∨ p = opened := by
  cases p <;> simp [isLive]

end Phase

namespace Connection

/-- Where the main task stands. -/
inductive Stage where
  /-- There is no main task. -/
  | absent
  /-- It will take the accepted socket. -/
  | starting
  /-- It is opening a socket of its own. -/
  | connecting
  /-- It writes its word of the handshake, of which these bytes are left. -/
  | sending (unsent : List UInt8)
  /-- It reads the other end's word of the handshake and has these bytes of it. -/
  | awaiting (got : List UInt8)
  /-- The handshake is done; it waits for the lock to hand the writer over. -/
  | admitted
  /-- It reads frames and has these bytes of the next ones. -/
  | reading (buffer : List UInt8)
  /-- It has stopped reading and waits for the lock to take the writer away. -/
  | leaving
  | finished
  deriving DecidableEq, Repr

/-- Where a write chain stands. -/
inductive Chain (κ : Type) where
  /-- It waits for the lock. -/
  | waiting
  /-- It holds the lock and is writing a message, which is still the first of the queue. -/
  | writing (m : Message κ)
  deriving DecidableEq

/-- How a stream of bytes comes to an end. -/
inductive Ending where
  | finished | broken
  deriving DecidableEq, Repr

/-- The reading direction of a socket: bytes that have arrived and are not read yet, and the end
behind them. -/
structure Inlet where
  pending : List UInt8 := []
  ending : Option Ending := none
  deriving DecidableEq, Repr

/-- Who posts a message: the application on a thread of its own, or a hook on the thread that runs
the tasks.  The messages of one thread are taken up in the order in which they were posted. -/
inductive Thread where
  | application | reactor
  deriving DecidableEq, Repr

end Connection

open Connection in
/-- One end of a link. -/
structure Connection (κ : Type) where
  side : Side
  /-- Zero until an id is assigned. -/
  id : UInt32 := 0
  phase : Phase
  /-- The longest body read or written. -/
  limit : Nat
  /-- The word this end writes in the handshake. -/
  out : UInt64 := 0
  /-- The word the other end wrote in the handshake. -/
  heard : UInt64 := 0
  /-- The word a server waits for. -/
  expected : UInt64 := 0
  /-- The address of the other end is known. -/
  peerKnown : Bool := false
  /-- The accepted socket, until the main task takes it. -/
  socket : Bool := false
  inlet : Inlet := {}
  /-- The writing direction of the socket after the handshake, with the bytes of a frame that are
  still to be written. -/
  writer : Option (List UInt8) := none
  outbound : Deque (Message κ) := .empty
  /-- Messages posted by the application. -/
  posted : List (Message κ) := []
  /-- Messages posted by hooks. -/
  postedByHooks : List (Message κ) := []
  stage : Stage := .absent
  chains : List (Chain κ) := []
  /-- The thread that runs the tasks is there. -/
  attended : Bool := true
  deriving DecidableEq

namespace Connection

variable {κ : Type}

/-- A server's end around an accepted socket. -/
def accepted (limit : Nat) (c : Challenge) : Connection κ where
  side := .server
  phase := .validating
  limit := limit
  out := c.out
  expected := c.expected
  peerKnown := true
  socket := true

/-- A client's end, which opens its socket itself. -/
def outgoing (limit : Nat) : Connection κ where
  side := .client
  phase := .connecting
  limit := limit
  stage := .connecting

/-! ### Looking -/

/-- The socket is open. -/
def isConnected (c : Connection κ) : Bool := c.phase.isLive

def isClosed (c : Connection κ) : Bool := c.phase == .closed

/-- The number of messages queued and not completely written. -/
def pendingOutbound (c : Connection κ) : Nat := c.outbound.count

/-- A chain holds the lock of the writer. -/
def isLocked (c : Connection κ) : Bool :=
  c.chains.any fun chain => match chain with
    | .waiting => false
    | .writing _ => true

/-- Some part of the connection holds the writing direction of its socket. -/
def holdsWriting (c : Connection κ) : Bool :=
  c.socket || c.writer.isSome || match c.stage with
    | .sending _ | .awaiting _ | .admitted => true
    | _ => false

/-- Some part of the connection holds the reading direction of its socket. -/
def holdsReading (c : Connection κ) : Bool :=
  c.socket || match c.stage with
    | .sending _ | .awaiting _ | .admitted | .reading _ => true
    | _ => false

/-- No task is left to run. -/
def isIdle (c : Connection κ) : Bool :=
  (c.stage == .absent || c.stage == .finished) && c.chains.isEmpty && c.posted.isEmpty
    && c.postedByHooks.isEmpty

/-- How a connection is shown; `address` is the address of the other end. -/
def display (address : String) (c : Connection κ) : String :=
  "Connection \x7b id: " ++ toString c.id.toNat ++ ", owner: " ++ c.side.name ++ ", state: "
    ++ c.phase.name ++ ", peer_addr: "
    ++ (if c.peerKnown then "Some(" ++ address ++ ")" else "None")
    ++ ", pending_outbound: " ++ toString c.pendingOutbound ++ " \x7d"

/-! ### What happens to a connection -/

/-- Something that happens to a connection. -/
inductive Event (κ : Type) where
  /-- There is a socket. -/
  | established
  | closed
  /-- The handshake begins. -/
  | attempted
  | succeeded
  | failed
  /-- Connecting, reading or writing failed. -/
  | errored
  /-- The connection is open. -/
  | opened
  /-- A posted message was put into the outbound queue. -/
  | enqueued (m : Message κ)
  /-- Bytes were written to the socket. -/
  | wrote (bytes : List UInt8)
  /-- A message was written completely. -/
  | sent (m : Message κ)
  /-- A message was read completely. -/
  | received (m : Message κ)
  deriving DecidableEq

/-- How an event is counted, if it is. -/
def Event.entry? : Event κ → Option Metrics.Entry
  | .established => some .established
  | .closed => some .closed
  | .attempted => some .attempted
  | .succeeded => some .succeeded
  | .failed => some .failed
  | .errored => some .errored
  | .sent m => some (.sent (UInt64.ofNat m.total))
  | .received m => some (.received (UInt64.ofNat m.total))
  | .opened | .enqueued _ | .wrote _ => none

/-- A connection after something was done to it, and what happened. -/
abbrev Outcome (κ : Type) := Connection κ × List (Event κ)

/-- Close a connection, once: clear the queue and let go of everything no task holds.  A chain that
holds the lock keeps the writer. -/
def close (c : Connection κ) : Outcome κ :=
  match c.phase with
  | .closed => (c, [])
  | phase =>
    ({ c with
        phase := .closed
        socket := false
        outbound := .empty
        writer := if c.isLocked then c.writer else none },
      if phase.isLive then [.closed] else [])

/-- Post a message for writing.  A closed connection takes none, and nobody takes it up once the
thread that runs the tasks is gone. -/
def send (thread : Thread) (m : Message κ) (c : Connection κ) : Connection κ :=
  if c.isClosed || !c.attended then c
  else
    match thread with
    | .application => { c with posted := c.posted ++ [m] }
    | .reactor => { c with postedByHooks := c.postedByHooks ++ [m] }

/-- Assign an id and post the main task, unless the connection has been closed. -/
def approve (id : UInt32) (c : Connection κ) : Connection κ :=
  if c.isConnected then { c with id := id, stage := .starting } else c

/-- Drop all tasks, as happens when their thread ends. -/
def abort (c : Connection κ) : Connection κ :=
  { c with
    stage := if c.stage = .absent then .absent else .finished
    chains := []
    posted := []
    postedByHooks := []
    attended := false }

/-! ### Laws of closing -/

theorem isClosed_iff {c : Connection κ} : c.isClosed = true ↔ c.phase = .closed := by
  simp [isClosed]

@[simp] theorem phase_close (c : Connection κ) : c.close.1.phase = .closed := by
  unfold close
  split
  · assumption
  · rfl

theorem close_of_closed {c : Connection κ} (h : c.phase = .closed) : c.close = (c, []) := by
  simp [close, h]

theorem send_of_closed {c : Connection κ} (h : c.phase = .closed) (thread : Thread)
    (m : Message κ) : c.send thread m = c := by
  simp [send, isClosed, h]

end Connection
end Parley

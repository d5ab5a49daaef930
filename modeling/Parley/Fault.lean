/-!
# Parley.Fault — what can go wrong, and how it is said

One constructor per cause.  `message` is the text shown for a fault, `endsConnection` says which
faults end the connection they arise on.
-/

namespace Parley

/-- A failed operation. -/
inductive Fault where
  /-- Reading or writing failed; the text is the system's. -/
  | io (text : String)
  | setup (text : String)
  | transport (text : String)
  | connectionClosed
  /-- The answer to a challenge was not the expected one. -/
  | validationFailed (expected received : UInt64)
  /-- More bytes were asked back than the body holds. -/
  | outOfRange (requested available : Nat)
  /-- A body longer than its limit. -/
  | oversized (length : Nat)
  | unknownTag (tag : UInt32)
  | config (text : String)
  | custom (text : String)
  deriving DecidableEq, Repr

namespace Fault

/-! ### Fixed texts -/

def resolveFailed : String := "Failed to resolve address"
def noAddresses : String := "Address resolved to no endpoints"
def reactorBuild : String := "Failed to build reactor runtime"
def threadSpawn : String := "Failed to spawn reactor thread"
def alreadyRunning : String := "Server is already running"
def peerClosed : String := "Peer closed the connection"
def idsExhausted : String := "Connection ids exhausted"
def clientRefused : String := "Client failed validation"
def invalidHeader : String := "Invalid message header"

/-- The fixed texts, in the order in which they are listed to users. -/
def texts : List String :=
  [resolveFailed, noAddresses, reactorBuild, threadSpawn, alreadyRunning, peerClosed, idsExhausted,
    clientRefused, invalidHeader]

/-! ### Wording -/

/-- The lower-case hexadecimal digits of `n`, at least `width` of them. -/
def hexDigits (width n : Nat) : String :=
  let digits := Nat.toDigits 16 n
  String.ofList (List.replicate (width - digits.length) '0' ++ digits)

/-- A 64-bit word with all its sixteen digits. -/
def hexWord (x : UInt64) : String := "0x" ++ hexDigits 16 x.toNat

/-- The text shown for a fault. -/
def message : Fault → String
  | io text => "I/O error: " ++ text
  | setup text => "Setup error: " ++ text
  | transport text => "Transport error: " ++ text
  | connectionClosed => "Connection closed"
  | validationFailed expected received =>
    "Handshake validation failed: expected " ++ hexWord expected ++ ", received "
      ++ hexWord received
  | outOfRange requested available =>
    "Pop of " ++ toString requested ++ " bytes out of range: body holds " ++ toString available
      ++ " bytes"
  | oversized length => "Message body too large: " ++ toString length ++ " bytes"
  | unknownTag tag => "Unknown message type: " ++ toString tag.toNat
  | config text => "Configuration error: " ++ text
  | custom text => "Custom error: " ++ text

/-- Faults after which a connection cannot go on. -/
def endsConnection : Fault → Bool
  | io _ | transport _ | connectionClosed => true
  | validationFailed _ _ | oversized _ | unknownTag _ => true
  | setup _ | outOfRange _ _ | config _ | custom _ => false

end Fault
end Parley

import Parley.Address

/-!
# Parley.Host — what the machine's network allows

Servers and clients ask the machine for addresses to listen on and for connections to other
addresses.  A host says which of these requests succeed.
-/

namespace Parley

/-- The network of a machine. -/
structure Host where
  /-- Why an address cannot be listened on, if it cannot. -/
  bindFailure? : Address → Option String
  /-- Connections to an address that is listened on get through. -/
  connects : Bool

namespace Host

/-- An address that is not the machine's own. -/
def notAvailable : String := "Cannot assign requested address (os error 99)"

/-- The unspecified and the loopback addresses. -/
def isOwn : Address → Bool
  | .v4 0 0 0 0 => true
  | .v4 127 _ _ _ => true
  | .v4 _ _ _ _ => false
  | .v6 groups => groups.toList.take 7 == List.replicate 7 0 && groups[7] ≤ 1

/-- A machine on its own: its own addresses can be listened on and are reached. -/
def loopback : Host where
  bindFailure? a := if isOwn a then none else some notAvailable
  connects := true

/-- A machine that may listen anywhere and reaches nobody. -/
def isolated : Host where
  bindFailure? _ := none
  connects := false

end Host
end Parley

import Parley.Fault

/-!
# Parley.Handshake — challenges and their answers

The accepting side sends a 64-bit word and accepts exactly one answer to it, its `scramble`.  The
transform is fixed and public: it keeps strangers from reaching the framing layer and proves nothing
about who they are.
-/

namespace Parley

/-- The number of bytes of a challenge and of an answer. -/
def handshakeSize : Nat := 8

namespace Scramble

def inKey : UInt64 := 0xDEADBEEFC0DECAFE
def outKey : UInt64 := 0xC0DEFACE12345678

/-- Swap the two halves of every byte. -/
def swapNibbles (x : UInt64) : UInt64 :=
  ((x &&& 0xF0F0F0F0F0F0F0F0) >>> 4) ||| ((x &&& 0x0F0F0F0F0F0F0F0F) <<< 4)

end Scramble

/-- The answer to a challenge: mask, swap the halves of every byte, mask. -/
def scramble (x : UInt64) : UInt64 :=
  Scramble.swapNibbles (x ^^^ Scramble.inKey) ^^^ Scramble.outKey

/-- A word to send and the answer to expect. -/
structure Challenge where
  out : UInt64
  expected : UInt64
  deriving DecidableEq, Repr, Inhabited

namespace Challenge

def ofWord (out : UInt64) : Challenge := ⟨out, scramble out⟩

def accepts (c : Challenge) (answer : UInt64) : Bool := answer == c.expected

/-- Check an answer, saying why it is refused. -/
def check (c : Challenge) (answer : UInt64) : Except Fault Unit :=
  if c.accepts answer then .ok () else .error (.validationFailed c.expected answer)

end Challenge
end Parley

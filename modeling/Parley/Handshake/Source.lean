import Parley.Handshake

/-!
# Parley.Handshake.Source — where challenges come from

A source is an endless sequence of 64-bit words, one per challenge.  A seeded source is the key
stream of a ChaCha cipher with twelve rounds: the seed is stretched to a 256-bit key by a small
generator, the block counter starts at zero, and two consecutive words of the stream make one
challenge, the first of them its low half.
-/

namespace Parley

/-- An endless sequence of challenge words. -/
abbrev Source := Nat → UInt64

namespace Source

/-! ### From a seed to a key -/

/-- One step of the generator that stretches a seed. -/
def stretchStep (state : UInt64) : UInt64 := state * 6364136223846793005 + 11634580027462260723

/-- Rotate to the right. -/
def rotateRight (x : UInt32) (k : UInt32) : UInt32 :=
  (x >>> (k % 32)) ||| (x <<< ((32 - k % 32) % 32))

/-- Rotate to the left. -/
def rotateLeft (x : UInt32) (k : UInt32) : UInt32 :=
  (x <<< (k % 32)) ||| (x >>> ((32 - k % 32) % 32))

/-- The word a state of the generator shows. -/
def stretchWord (state : UInt64) : UInt32 :=
  rotateRight (((state >>> 18) ^^^ state) >>> 27).toUInt32 (state >>> 59).toUInt32

/-- The first `n` words that a seed is stretched to. -/
def stretch : Nat → UInt64 → List UInt32
  | 0, _ => []
  | n + 1, seed => stretchWord (stretchStep seed) :: stretch n (stretchStep seed)

/-! ### The key stream -/

/-- The sixteen words the cipher works on. -/
abbrev Block := Vector UInt32 16

/-- Mix four words of a block. -/
def quarterRound (s : Block) (a b c d : Fin 16) : Block :=
  let s := s.set a (s[a] + s[b])
  let s := s.set d (rotateLeft (s[d] ^^^ s[a]) 16)
  let s := s.set c (s[c] + s[d])
  let s := s.set b (rotateLeft (s[b] ^^^ s[c]) 12)
  let s := s.set a (s[a] + s[b])
  let s := s.set d (rotateLeft (s[d] ^^^ s[a]) 8)
  let s := s.set c (s[c] + s[d])
  s.set b (rotateLeft (s[b] ^^^ s[c]) 7)

/-- Mix the four columns, then the four diagonals. -/
def doubleRound (s : Block) : Block :=
  let s := quarterRound s 0 4 8 12
  let s := quarterRound s 1 5 9 13
  let s := quarterRound s 2 6 10 14
  let s := quarterRound s 3 7 11 15
  let s := quarterRound s 0 5 10 15
  let s := quarterRound s 1 6 11 12
  let s := quarterRound s 2 7 8 13
  quarterRound s 3 4 9 14

/-- The block the cipher starts from: four constants, the key, the block counter, a zero nonce. -/
def initialBlock (key : List UInt32) (counter : UInt64) : Block :=
  let k := fun i => key.getD i 0
  #v[0x61707865, 0x3320646e, 0x79622d32, 0x6b206574, k 0, k 1, k 2, k 3, k 4, k 5, k 6, k 7,
    counter.toUInt32, (counter >>> 32).toUInt32, 0, 0]

/-- One block of the key stream. -/
def keyBlock (key : List UInt32) (counter : UInt64) : Block :=
  let start := initialBlock key counter
  let mixed := Nat.repeat doubleRound 6 start
  Vector.zipWith (· + ·) mixed start

/-- The `n`-th word of the key stream. -/
def keyWord (key : List UInt32) (n : Nat) : UInt32 :=
  (keyBlock key (UInt64.ofNat (n / 16))).get ⟨n % 16, Nat.mod_lt n (by decide)⟩

/-! ### Sources -/

/-- The source that belongs to a seed. -/
def ofSeed (seed : UInt64) : Source :=
  let key := stretch 8 seed
  fun n => (keyWord key (2 * n)).toUInt64 ||| ((keyWord key (2 * n + 1)).toUInt64 <<< 32)

/-- The source that repeats the given words. -/
def cycle (words : List UInt64) : Source := fun n => words.getD (n % words.length) 0

/-- The source of a server: the seed decides when there is one, entropy otherwise. -/
def ofSeed? (seed : Option UInt64) (entropy : Source) : Source :=
  match seed with
  | some seed => ofSeed seed
  | none => entropy

/-- The `n`-th challenge of a source. -/
def challenge (s : Source) (n : Nat) : Challenge := Challenge.ofWord (s n)

/-- How a source is shown: its words are not. -/
def display : String := "ChallengeGenerator \x7b .. \x7d"

end Source
end Parley

import Parley.Fault

/-!
# Parley.Address — internet addresses and their text

`parse` reads a dotted quad (four decimal numbers up to 255, without leading zeros) or eight groups
of one to four hexadecimal digits separated by colons, where `::` may stand once for one or more
zero groups and a dotted quad for the last two.  `text` writes the usual short form: the first
longest run of at least two zero groups becomes `::`, and an address that embeds an older one shows
it as a dotted quad.
-/

namespace Parley

/-- An internet address: four bytes or eight 16-bit groups. -/
inductive Address where
  | v4 (a b c d : UInt8)
  | v6 (groups : Vector UInt16 8)
  deriving DecidableEq, Repr

namespace Address

/-- The parts of a text between occurrences of a separator; there is always one. -/
def split (sep : Char) : List Char → List (List Char)
  | [] => [[]]
  | c :: cs =>
    if c = sep then [] :: split sep cs
    else
      match split sep cs with
      | [] => [[c]]
      | part :: parts => (c :: part) :: parts

/-! ### Reading -/

/-- The value of decimal digits. -/
def decimal? (cs : List Char) : Option Nat :=
  if cs ≠ [] ∧ cs.all Char.isDigit then
    some (cs.foldl (fun n c => n * 10 + (c.toNat - '0'.toNat)) 0)
  else none

/-- One number of a dotted quad. -/
def octet? (cs : List Char) : Option UInt8 := do
  guard (cs.length ≤ 3 ∧ (cs.head? = some '0' → cs.length = 1))
  let n ← decimal? cs
  guard (n < 256)
  return UInt8.ofNat n

/-- The four numbers of a dotted quad. -/
def quad? (cs : List Char) : Option (UInt8 × UInt8 × UInt8 × UInt8) :=
  match split '.' cs with
  | [a, b, c, d] => do return (← octet? a, ← octet? b, ← octet? c, ← octet? d)
  | _ => none

/-- The value of a hexadecimal digit of either case. -/
def hexDigit? (c : Char) : Option Nat :=
  if '0' ≤ c ∧ c ≤ '9' then some (c.toNat - '0'.toNat)
  else if 'a' ≤ c ∧ c ≤ 'f' then some (c.toNat - 'a'.toNat + 10)
  else if 'A' ≤ c ∧ c ≤ 'F' then some (c.toNat - 'A'.toNat + 10)
  else none

/-- One group of hexadecimal digits. -/
def group? (cs : List Char) : Option UInt16 := do
  guard (1 ≤ cs.length ∧ cs.length ≤ 4)
  let n ← cs.foldlM (fun n c => (hexDigit? c).map (n * 16 + ·)) 0
  return UInt16.ofNat n

/-- The two groups that two pairs of bytes make. -/
def pair (a b : UInt8) : UInt16 := a.toUInt16 <<< 8 ||| b.toUInt16

/-- Groups separated by colons; the last part may be a dotted quad when `tail` says so. -/
def groups? (tail : Bool) : List (List Char) → Option (List UInt16)
  | [] => some []
  | [part] =>
    match group? part with
    | some g => some [g]
    | none =>
      if tail then (quad? part).map fun (a, b, c, d) => [pair a b, pair c d] else none
  | part :: parts => do return (← group? part) :: (← groups? tail parts)

/-- The groups of a text that may be empty. -/
def side? (tail : Bool) (cs : List Char) : Option (List UInt16) :=
  if cs = [] then some [] else groups? tail (split ':' cs)

/-- The texts before and after the first `::`. -/
def gap? : List Char → Option (List Char × List Char)
  | ':' :: ':' :: cs => some ([], cs)
  | c :: cs => (gap? cs).map fun (before, after) => (c :: before, after)
  | [] => none

/-- Eight groups, as an address. -/
def ofGroups? (gs : List UInt16) : Option Address :=
  if h : gs.toArray.size = 8 then some (v6 ⟨gs.toArray, h⟩) else none

def parseV6? (cs : List Char) : Option Address :=
  match gap? cs with
  | none => side? true cs >>= ofGroups?
  | some (before, after) => do
    let left ← side? false before
    let right ← side? true after
    guard (left.length + right.length ≤ 7)
    ofGroups? (left ++ List.replicate (8 - left.length - right.length) 0 ++ right)

/-- The address that a text stands for. -/
def parse? (text : String) : Option Address :=
  let cs := text.toList
  match quad? cs with
  | some (a, b, c, d) => some (v4 a b c d)
  | none => parseV6? cs

/-- What is said of a text that stands for no address. -/
def syntaxMessage : String := "invalid IP address syntax"

/-! ### Writing -/

/-- The length of the run of zeros at the front. -/
def zeros (gs : List UInt16) : Nat := (gs.takeWhile (· == 0)).length

/-- The start and the length of the first longest run of zeros. -/
def longestZeros (gs : List UInt16) : Nat × Nat :=
  (List.range gs.length).foldl
    (fun best i => if best.2 < zeros (gs.drop i) then (i, zeros (gs.drop i)) else best) (0, 0)

def quadText (a b c d : UInt8) : String :=
  ".".intercalate ([a, b, c, d].map fun x => toString x.toNat)

def groupsText (gs : List UInt16) : String :=
  ":".intercalate (gs.map fun g => Fault.hexDigits 1 g.toNat)

/-- The usual text of an address. -/
def text : Address → String
  | v4 a b c d => quadText a b c d
  | v6 groups =>
    let gs := groups.toList
    match gs with
    | [0, 0, 0, 0, 0, 0xffff, x, y] =>
      "::ffff:" ++ quadText (x >>> 8).toUInt8 x.toUInt8 (y >>> 8).toUInt8 y.toUInt8
    | _ =>
      let (start, count) := longestZeros gs
      if 1 < count then
        groupsText (gs.take start) ++ "::" ++ groupsText (gs.drop (start + count))
      else groupsText gs

end Address
end Parley

import Parley.Toml.Text
import Parley.Toml.Value

/-!
# Parley.Toml.Scalar — numbers, truth values and moments

These values are written as one word.  `ofWord?` decides what a whole word stands for: a date or a
time, a number or a truth value.  Integers are decimal, hexadecimal, octal or binary and have 64
bits; underscores may stand between digits; a decimal number has no leading zeros.  A floating-point
number that is positive and too large for 64 bits is refused.
-/

namespace Parley.Toml.Scalar

/-- Characters of which words consist. -/
def isWordChar (c : Char) : Bool :=
  c.isAlphanum || c == '+' || c == '-' || c == '_' || c == '.' || c == ':'

/-! ### Digits -/

/-- The digits of a word in which single underscores may stand between digits. -/
def separated? (isDigit : Char → Bool) : List Char → Option (List Char)
  | [] => none
  | [c] => if isDigit c then some [c] else none
  | c :: '_' :: r => if isDigit c then (separated? isDigit r).map (c :: ·) else none
  | c :: r => if isDigit c then (separated? isDigit r).map (c :: ·) else none

/-- The value of digits in a base. -/
def valueOf (base : Nat) (digits : List Char) : Nat :=
  digits.foldl (fun n c => n * base + (Text.hexDigit? c).getD 0) 0

/-- The digits of a decimal number without leading zeros. -/
def decimal? (cs : List Char) : Option (List Char) := do
  let digits ← separated? Char.isDigit cs
  if digits.head? = some '0' ∧ cs.length ≠ 1 then none else some digits

/-- Take an optional sign off; `true` stands for a minus. -/
def sign : List Char → Bool × List Char
  | '+' :: r => (false, r)
  | '-' :: r => (true, r)
  | cs => (false, cs)

/-! ### Integers -/

/-- An integer, if it fits 64 bits. -/
def fit? (n : Int) : Option Value :=
  if Int64.minValue.toInt ≤ n ∧ n ≤ Int64.maxValue.toInt then some (.integer n) else none

/-- The digits of a base. -/
def isDigitOf (base : Nat) (c : Char) : Bool :=
  match Text.hexDigit? c with
  | some d => d < base
  | none => false

/-- An integer in another base. -/
def based? (base : Nat) (cs : List Char) : Option Value := do
  let digits ← separated? (isDigitOf base) cs
  fit? (valueOf base digits)

def integer? (cs : List Char) : Option Value :=
  match cs with
  | '0' :: 'x' :: r => based? 16 r
  | '0' :: 'o' :: r => based? 8 r
  | '0' :: 'b' :: r => based? 2 r
  | cs => do
    let (negative, r) := sign cs
    let digits ← decimal? r
    let n : Int := valueOf 10 digits
    fit? (if negative then -n else n)

/-! ### Floating-point numbers -/

/-- Whether `m * 10 ^ e` is rounded to infinity in 64 bits: it is at least half a unit above the
largest number. -/
def overflows (m : Nat) (e : Int) : Bool :=
  let limit := Nat.pow 2 1024 - Nat.pow 2 970
  let magnitude := e + (Nat.toDigits 10 m).length
  if m = 0 ∨ magnitude < 300 then false
  else if 400 < magnitude then true
  else if 0 ≤ e then limit ≤ m * Nat.pow 10 e.toNat
  else limit * Nat.pow 10 (-e).toNat ≤ m

/-- The exponent after its letter. -/
def exponent? (cs : List Char) : Option Int := do
  let (negative, r) := sign cs
  let digits ← separated? Char.isDigit r
  let n : Int := valueOf 10 digits
  return if negative then -n else n

/-- Whether a character announces an exponent. -/
def isExponent (c : Char) : Bool := c == 'e' || c == 'E'

/-- The parts of a number with a fraction or an exponent: its digits and the power of ten. -/
def parts? (cs : List Char) : Option (Nat × Int) := do
  let front := cs.takeWhile fun c => !isExponent c
  let whole := front.takeWhile (· != '.')
  let digits ← decimal? whole
  let fraction ← match front.drop whole.length with
    | [] => if front.length = cs.length then none else some []
    | _ :: r => separated? Char.isDigit r
  let e ← match cs.drop front.length with
    | [] => some 0
    | _ :: r => exponent? r
  return (valueOf 10 (digits ++ fraction), e - fraction.length)

def float? (cs : List Char) : Option Value :=
  let (negative, r) := sign cs
  if r = "inf".toList ∨ r = "nan".toList then some .float
  else do
    let (m, e) ← parts? r
    if !negative && overflows m e then none else some .float

/-! ### Moments -/

/-- A number of exactly two digits within bounds. -/
def two? (low high : Nat) : List Char → Option (Nat × List Char)
  | a :: b :: r =>
    if a.isDigit && b.isDigit then
      let n := valueOf 10 [a, b]
      if low ≤ n ∧ n ≤ high then some (n, r) else none
    else none
  | _ => none

/-- Take one expected character off. -/
def expect (c : Char) : List Char → Option (List Char)
  | c' :: r => if c' = c then some r else none
  | [] => none

/-- The number of days of a month. -/
def daysIn (year month : Nat) : Nat :=
  if month = 2 then
    if year % 4 = 0 ∧ (year % 100 ≠ 0 ∨ year % 400 = 0) then 29 else 28
  else if month = 4 ∨ month = 6 ∨ month = 9 ∨ month = 11 then 30
  else 31

/-- A date that exists; returns the rest. -/
def date? : List Char → Option (List Char)
  | a :: b :: c :: d :: r => do
    guard ([a, b, c, d].all Char.isDigit)
    let r ← expect '-' r
    let (month, r) ← two? 1 12 r
    let r ← expect '-' r
    let (_, r) ← two? 1 (daysIn (valueOf 10 [a, b, c, d]) month) r
    return r
  | _ => none

/-- A time of day; a minute may have 61 seconds.  Returns the rest. -/
def time? (cs : List Char) : Option (List Char) := do
  let (_, r) ← two? 0 23 cs
  let r ← expect ':' r
  let (_, r) ← two? 0 59 r
  let r ← expect ':' r
  let (_, r) ← two? 0 60 r
  match r with
  | '.' :: r =>
    if (r.takeWhile Char.isDigit).isEmpty then none else some (r.dropWhile Char.isDigit)
  | r => some r

/-- Whether a text is a distance from universal time. -/
def isOffset (cs : List Char) : Bool :=
  match cs with
  | ['Z'] | ['z'] => true
  | c :: r =>
    (c == '+' || c == '-') &&
      ((do
        let (_, r) ← two? 0 23 r
        let r ← expect ':' r
        let (_, r) ← two? 0 59 r
        guard r.isEmpty : Option Unit)).isSome
  | [] => false

/-- Whether a text is a time of day, if need be with a distance from universal time. -/
def isTime (offset : Bool) (cs : List Char) : Bool :=
  match time? cs with
  | none => false
  | some r => r.isEmpty || (offset && isOffset r)

/-- Whether a word is a date, a time, or both joined by a letter. -/
def isMoment (cs : List Char) : Bool :=
  match date? cs with
  | some [] => true
  | some (c :: r) => (c == 'T' || c == 't') && isTime true r
  | none => isTime false cs

/-- Whether a word is a date. -/
def isDate (cs : List Char) : Bool := date? cs == some []

/-! ### Words -/

/-- The value a word stands for. -/
def ofWord? (cs : List Char) : Option Value :=
  if cs = "true".toList then some (.boolean true)
  else if cs = "false".toList then some (.boolean false)
  else if isMoment cs then some .moment
  else (integer? cs).or (float? cs)

/-- Read a word; a date and a time may also be joined by one space. -/
def read : Text.Reader Value := fun cs =>
  let word := cs.takeWhile isWordChar
  let rest := cs.dropWhile isWordChar
  match rest with
  | ' ' :: c :: r =>
    if isDate word && c.isDigit then
      let later := (c :: r).takeWhile isWordChar
      if isTime true later then some (.moment, (c :: r).dropWhile isWordChar) else none
    else (ofWord? word).map (·, rest)
  | _ => (ofWord? word).map (·, rest)

end Parley.Toml.Scalar

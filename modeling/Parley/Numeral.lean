/-!
# Parley.Numeral — reading unsigned decimal numerals

`parse` accepts one optional plus sign and then one or more ASCII digits, with any number of leading
zeros, as long as the value stays within a bound.  A text that is no such numeral is refused for the
first reason met from the left: a character that is no digit, or a digit that takes the value over
the bound.
-/

namespace Parley.Numeral

/-- Why a text is no numeral. -/
inductive Flaw where
  | empty | invalidDigit | tooLarge
  deriving DecidableEq, Repr

namespace Flaw

def message : Flaw → String
  | empty => "cannot parse integer from empty string"
  | invalidDigit => "invalid digit found in string"
  | tooLarge => "number too large to fit in target type"

end Flaw

/-- The value of an ASCII digit. -/
def digit? (c : Char) : Option Nat := if c.isDigit then some (c.toNat - '0'.toNat) else none

/-- Read digits onto `value`, keeping it at most `bound`. -/
def digits (bound : Nat) : Nat → List Char → Except Flaw Nat
  | value, [] => .ok value
  | value, c :: cs =>
    match digit? c with
    | none => .error .invalidDigit
    | some d =>
      let value' := value * 10 + d
      if value' ≤ bound then digits bound value' cs else .error .tooLarge

/-- Read a numeral of at most `bound`. -/
def parse (bound : Nat) (text : List Char) : Except Flaw Nat :=
  match text with
  | [] => .error .empty
  | ['+'] => .error .invalidDigit
  | '+' :: cs => digits bound 0 cs
  | cs => digits bound 0 cs

/-- Read a numeral that fits 64 bits. -/
def parse64 (text : String) : Except Flaw UInt64 :=
  (parse (UInt64.size - 1) text.toList).map UInt64.ofNat

/-- Read a numeral that fits 32 bits. -/
def parse32 (text : String) : Except Flaw UInt32 :=
  (parse (UInt32.size - 1) text.toList).map UInt32.ofNat

end Parley.Numeral

import Parley.Toml.Text

/-!
# Parley.Toml.Writer — writing TOML texts and documents

A text is written between the first quotes that suit it: double quotes, single quotes, tripled
double quotes, tripled single quotes, in this order.  A text that suits none of them, because it has
control characters or too many quotes of both kinds, goes between double quotes, tripled when it has
line feeds.  Between double quotes a tab and whatever cannot stand for itself is escaped, between
single quotes nothing is.
-/

namespace Parley.Toml

namespace Text

/-- Control characters that can only be written by an escape. -/
def isCode (c : Char) : Bool := (c < ' ' || c == '\x7f') && c != '\t' && c != '\n'

/-- The length of the longest run of a character. -/
def longestRun (c : Char) (cs : List Char) : Nat :=
  (cs.foldl (fun (p : Nat × Nat) x =>
    if x = c then (p.1 + 1, max p.2 (p.1 + 1)) else (0, p.2)) (0, 0)).2

/-- The quotes a text is written between: double or single, once or tripled. -/
inductive Style where
  | basic | literal | basicLines | literalLines
  deriving DecidableEq, Repr

/-- The first style that suits a text. -/
def style (cs : List Char) : Style :=
  let codes := cs.any isCode
  let lines := cs.contains '\n'
  if !codes && !cs.contains '\\' && !cs.contains '"' && !lines then .basic
  else if !codes && !cs.contains '\'' && !lines then .literal
  else if !codes && !cs.contains '\\' && longestRun '"' cs ≤ 2 then .basicLines
  else if !codes && longestRun '\'' cs ≤ 2 then .literalLines
  else if lines then .basicLines
  else .basic

/-- A hexadecimal digit in upper case. -/
def upperDigit (n : Nat) : Char := (Nat.digitChar n).toUpper

/-- A control character by its code. -/
def codeEscape (c : Char) : List Char :=
  ['\\', 'u', '0', '0', upperDigit (c.toNat / 16), upperDigit (c.toNat % 16)]

/-- The escape of a character that needs one in every text, if it does. -/
def escapeOf? (c : Char) : Option (List Char) :=
  if c = '\x08' then some ['\\', 'b']
  else if c = '\t' then some ['\\', 't']
  else if c = '\x0c' then some ['\\', 'f']
  else if c = '\r' then some ['\\', 'r']
  else if c = '\\' then some ['\\', '\\']
  else if c < ' ' ∨ c = '\x7f' then some (codeEscape c)
  else none

/-- A text on one line with escapes. -/
def escapeAll (cs : List Char) : List Char :=
  cs.flatMap fun c =>
    if c = '"' then ['\\', '"']
    else if c = '\n' then ['\\', 'n']
    else (escapeOf? c).getD [c]

/-- A text on several lines with escapes, after `run` double quotes: a quote is escaped if it is the
third in a row. -/
def escapeLines : Nat → List Char → List Char
  | _, [] => []
  | run, '"' :: cs =>
    if run = 2 then '\\' :: '"' :: escapeLines 0 cs else '"' :: escapeLines (run + 1) cs
  | _, '\n' :: cs => '\n' :: escapeLines 0 cs
  | _, c :: cs => (escapeOf? c).getD [c] ++ escapeLines 0 cs

/-- Put a text between quotes that may be followed by a line break. -/
def between (quotes : List Char) (broken : Bool) (body : List Char) : List Char :=
  quotes ++ (if broken then ['\n'] else []) ++ body ++ quotes

/-- A text with its quotes. -/
def write (cs : List Char) : List Char :=
  let double := ['"', '"', '"']
  let single := ['\'', '\'', '\'']
  let lines := cs.contains '\n'
  match style cs with
  | .basic => between ['"'] false (escapeAll cs)
  | .literal => between ['\''] false cs
  | .basicLines => between double lines (escapeLines 0 cs)
  | .literalLines => between single lines cs

end Text

/-! ### Documents -/

/-- A value as it is written: already in its final form. -/
abbrev Written := List Char

namespace Written

def ofText (s : String) : Written := Text.write s.toList

def ofNat (n : Nat) : Written := Nat.toDigits 10 n

def ofBool (b : Bool) : Written := if b then "true".toList else "false".toList

/-- A line with a key and a value. -/
def entry (key : String) (v : Written) : List Char := key.toList ++ " = ".toList ++ v ++ ['\n']

/-- A header and its entries. -/
def «section» (name : String) (entries : List (String × Written)) : List Char :=
  "[".toList ++ name.toList ++ "]\n".toList ++ entries.flatMap fun (k, v) => entry k v

/-- Sections with an empty line between each two of them. -/
def document (sections : List (List Char)) : List Char := ['\n'].intercalate sections

end Written
end Parley.Toml

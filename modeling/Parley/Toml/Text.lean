/-!
# Parley.Toml.Text — texts between quotes

A TOML text stands between double quotes, where a backslash starts an escape, or between single
quotes, where everything stands for itself; tripled quotes allow lines to break.  Each reader takes
what follows the opening quotes and returns the text and the rest after the closing ones, or nothing
if the text is not well formed.
-/

namespace Parley.Toml.Text

/-- A reader takes something off the front of a text. -/
abbrev Reader (α : Type) := List Char → Option (α × List Char)

/-- Put a character in front of a text that was read. -/
def prepend (c : Char) : Option (List Char × List Char) → Option (List Char × List Char) :=
  Option.map fun p => (c :: p.1, p.2)

/-! ### Characters -/

/-- Characters allowed in texts and comments: a tab, and everything but control characters. -/
def isPlain (c : Char) : Bool := c == '\t' || (' ' ≤ c && c != '\x7f')

/-- Characters that stand for themselves between double quotes. -/
def isBasic (c : Char) : Bool := isPlain c && c != '"' && c != '\\'

/-- Characters that stand for themselves between single quotes. -/
def isLiteral (c : Char) : Bool := isPlain c && c != '\''

/-- Blanks within a line. -/
def isBlank (c : Char) : Bool := c == ' ' || c == '\t'

/-- What a backslash and one character stand for. -/
def escape? : Char → Option Char
  | 'b' => some '\x08'
  | 't' => some '\t'
  | 'n' => some '\n'
  | 'f' => some '\x0c'
  | 'r' => some '\r'
  | '"' => some '"'
  | '\\' => some '\\'
  | _ => none

/-- The value of a hexadecimal digit of either case. -/
def hexDigit? (c : Char) : Option Nat :=
  if '0' ≤ c ∧ c ≤ '9' then some (c.toNat - '0'.toNat)
  else if 'a' ≤ c ∧ c ≤ 'f' then some (c.toNat - 'a'.toNat + 10)
  else if 'A' ≤ c ∧ c ≤ 'F' then some (c.toNat - 'A'.toNat + 10)
  else none

/-- The character with the code that hexadecimal digits spell. -/
def coded? (digits : List Char) : Option Char := do
  let n ← digits.foldlM (fun n c => (hexDigit? c).map (n * 16 + ·)) 0
  if n.isValidChar then some (Char.ofNat n) else none

/-! ### On one line -/

/-- A text between double quotes. -/
def basic : Reader (List Char)
  | [] => none
  | '"' :: r => some ([], r)
  | '\\' :: 'u' :: a :: b :: c :: d :: r => (coded? [a, b, c, d]).bind (prepend · (basic r))
  | '\\' :: 'U' :: a :: b :: c :: d :: e :: f :: g :: h :: r =>
    (coded? [a, b, c, d, e, f, g, h]).bind (prepend · (basic r))
  | '\\' :: c :: r => (escape? c).bind (prepend · (basic r))
  | c :: r => if isBasic c then prepend c (basic r) else none

/-- A text between single quotes. -/
def literal : Reader (List Char)
  | [] => none
  | '\'' :: r => some ([], r)
  | c :: r => if isLiteral c then prepend c (literal r) else none

/-! ### On several lines

One or two quotes may stand anywhere in the text, also right before the three that close it.  A line
break is read as a line feed.  After a backslash at the end of a line all blanks and line breaks are
skipped. -/

/-- Where a text of several lines is being read: in the text, in the blanks between a backslash and
the end of its line, or in the blanks after it. -/
inductive Place where
  | text | lineEnd | skipping
  deriving DecidableEq

/-- A text of several lines between double quotes. -/
def basicLines : Place → Reader (List Char)
  | .text, '"' :: '"' :: '"' :: '"' :: '"' :: r => some (['"', '"'], r)
  | .text, '"' :: '"' :: '"' :: '"' :: r => some (['"'], r)
  | .text, '"' :: '"' :: '"' :: r => some ([], r)
  | .text, '\\' :: 'u' :: a :: b :: c :: d :: r =>
    (coded? [a, b, c, d]).bind (prepend · (basicLines .text r))
  | .text, '\\' :: 'U' :: a :: b :: c :: d :: e :: f :: g :: h :: r =>
    (coded? [a, b, c, d, e, f, g, h]).bind (prepend · (basicLines .text r))
  | .text, '\\' :: c :: r =>
    if isBlank c || c == '\r' || c == '\n' then basicLines .lineEnd (c :: r)
    else (escape? c).bind (prepend · (basicLines .text r))
  | .text, '\r' :: '\n' :: r => prepend '\n' (basicLines .text r)
  | .text, c :: r =>
    if isBasic c || c == '\n' || c == '"' then prepend c (basicLines .text r) else none
  | .lineEnd, '\r' :: '\n' :: r => basicLines .skipping r
  | .lineEnd, c :: r =>
    if isBlank c then basicLines .lineEnd r
    else if c == '\n' then basicLines .skipping r
    else none
  | .skipping, '\r' :: '\n' :: r => basicLines .skipping r
  | .skipping, c :: r =>
    if isBlank c || c == '\n' then basicLines .skipping r else basicLines .text (c :: r)
  | _, [] => none
termination_by place cs => (cs.length, if place = .skipping then 1 else 0)

/-- A text of several lines between single quotes. -/
def literalLines : Reader (List Char)
  | '\'' :: '\'' :: '\'' :: '\'' :: '\'' :: r => some (['\'', '\''], r)
  | '\'' :: '\'' :: '\'' :: '\'' :: r => some (['\''], r)
  | '\'' :: '\'' :: '\'' :: r => some ([], r)
  | '\r' :: '\n' :: r => prepend '\n' (literalLines r)
  | c :: r => if isPlain c || c == '\n' then prepend c (literalLines r) else none
  | [] => none

/-- A line break right after the opening quotes is no part of the text. -/
def afterBreak : List Char → List Char
  | '\n' :: r => r
  | '\r' :: '\n' :: r => r
  | cs => cs

/-- Any text between quotes. -/
def quoted : Reader String := fun cs =>
  let read := match cs with
    | '"' :: '"' :: '"' :: r => basicLines .text (afterBreak r)
    | '"' :: r => basic r
    | '\'' :: '\'' :: '\'' :: r => literalLines (afterBreak r)
    | '\'' :: r => literal r
    | _ => none
  read.map fun (text, r) => (String.ofList text, r)

end Parley.Toml.Text

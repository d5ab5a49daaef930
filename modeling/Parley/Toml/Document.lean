import Parley.Toml.Scalar

/-!
# Parley.Toml.Document — reading TOML documents

A document is a list of lines: empty lines and comments, headers of tables, and keys with values.
Arrays may stretch over lines and hold comments; tables between braces may not.  Values nest at most
79 deep, and a dotted key has at most 79 parts.
-/

namespace Parley.Toml

open Text (Reader isBlank isPlain)

namespace Document

/-- How deep arrays and tables between braces may nest, and how many parts a key may have. -/
def depthLimit : Nat := 79

/-! ### Between the parts of a line -/

def skipBlanks (cs : List Char) : List Char := cs.dropWhile isBlank

/-- Take a line break off. -/
def lineBreak? : List Char → Option (List Char)
  | '\n' :: r => some r
  | '\r' :: '\n' :: r => some r
  | _ => none

/-- The rest of a line after its content: blanks, perhaps a comment, and the end of the line or of
the document. -/
def endLine? (cs : List Char) : Option (List Char) :=
  let r := match skipBlanks cs with
    | '#' :: r => r.dropWhile isPlain
    | r => r
  if r.isEmpty then some [] else lineBreak? r

/-- Skip blanks, line breaks and comments between the items of an array. -/
def skipFiller (comment : Bool) : List Char → List Char
  | '\r' :: '\n' :: r => skipFiller false r
  | '\n' :: r => skipFiller false r
  | c :: r =>
    if comment then if isPlain c then skipFiller true r else c :: r
    else if isBlank c then skipFiller false r
    else if c = '#' then skipFiller true r
    else c :: r
  | [] => []

/-! ### Keys -/

/-- Characters of keys without quotes. -/
def isBare (c : Char) : Bool := c.isAlphanum || c == '-' || c == '_'

/-- One part of a key. -/
def simpleKey : Reader String := fun cs =>
  match cs with
  | '"' :: r => (Text.basic r).map fun (text, r) => (String.ofList text, r)
  | '\'' :: r => (Text.literal r).map fun (text, r) => (String.ofList text, r)
  | cs =>
    let word := cs.takeWhile isBare
    if word.isEmpty then none else some (String.ofList word, cs.dropWhile isBare)

/-- A key and its parts, which dots separate; blanks may stand around every part. -/
def dottedKey (cs : List Char) : Option (List String × List Char) :=
  match simpleKey (skipBlanks cs) with
  | none => none
  | some (part, r) =>
    match skipBlanks r with
    | '.' :: r' =>
      if r'.length < cs.length then (dottedKey r').map fun (parts, r) => (part :: parts, r)
      else none
    | r' => some ([part], r')
termination_by cs.length

/-- A key that is not too long. -/
def key : Reader (List String) := fun cs => do
  let (parts, r) ← dottedKey cs
  if parts.length ≤ depthLimit then some (parts, r) else none

/-- A key, an equals sign and a value, with blanks around the sign. -/
def keyValue (value : Reader Value) : Reader (List String × Value) := fun cs => do
  let (parts, r) ← key cs
  let r ← Scalar.expect '=' r
  let (v, r) ← value (skipBlanks r)
  return ((parts, v), r)

/-! ### Values -/

/-- The items of an array after its opening bracket; a comma may follow the last one. -/
def arrayItems (value : Reader Value) (cs : List Char) : Option (List Value × List Char) :=
  match skipFiller false cs with
  | ']' :: r => some ([], r)
  | cs' =>
    match value cs' with
    | none => none
    | some (v, r) =>
      match skipFiller false r with
      | ']' :: r' => some ([v], r')
      | ',' :: r' =>
        if r'.length < cs.length then (arrayItems value r').map fun (vs, r) => (v :: vs, r)
        else none
      | _ => none
termination_by cs.length

/-- The pairs of a table between braces, of which there is at least one. -/
def pairs (value : Reader Value) (cs : List Char) :
    Option (List (List String × Value) × List Char) :=
  match keyValue value cs with
  | none => none
  | some (pair, r) =>
    match skipBlanks r with
    | '}' :: r' => some ([pair], r')
    | ',' :: r' =>
      if r'.length < cs.length then (pairs value r').map fun (ps, r) => (pair :: ps, r) else none
    | _ => none
termination_by cs.length

/-- The entries that pairs make. -/
def entriesOf (ps : List (List String × Value)) : Option Entries :=
  ps.foldlM (fun es (parts, v) => parts.getLast?.bind (es.place true parts.dropLast · v)) []

/-- A table between braces, after the opening one. -/
def braces (value : Reader Value) : Reader Value := fun cs =>
  match skipBlanks cs with
  | '}' :: r => some (.table .braces [], r)
  | _ => do
    let (ps, r) ← pairs value cs
    let es ← entriesOf ps
    return (.table .braces es, r)

/-- A value, given how the values inside it are read; there are none inside it at the deepest level.
-/
def valueAround (inner : Option (Reader Value)) : Reader Value := fun cs =>
  match cs with
  | '"' :: _ | '\'' :: _ => (Text.quoted cs).map fun (text, r) => (.string text, r)
  | '[' :: r => inner.bind fun value => (arrayItems value r).map fun (vs, r) => (.array vs, r)
  | '{' :: r => inner.bind fun value => braces value r
  | _ => Scalar.read cs

/-- A value that nests at most so deep. -/
def value : Nat → Reader Value
  | 0 => valueAround none
  | depth + 1 => valueAround (some (value depth))

/-! ### Lines -/

/-- The header of a table and whether it is in double brackets, after the first bracket. -/
def header : Reader (Bool × List String) := fun cs =>
  match cs with
  | '[' :: r => do
    let (parts, r) ← key r
    let r ← Scalar.expect ']' r
    let r ← Scalar.expect ']' r
    return ((true, parts), r)
  | _ => do
    let (parts, r) ← key cs
    let r ← Scalar.expect ']' r
    return ((false, parts), r)

/-- Read one line onto a draft. -/
def line (d : Draft) : Reader Draft := fun cs =>
  match skipBlanks cs with
  | [] => some (d, [])
  | '[' :: r => do
    let ((repeated, parts), r) ← header r
    let r ← endLine? r
    let d ← d.start repeated parts
    return (d, r)
  | c :: r =>
    if c = '#' ∨ c = '\n' ∨ c = '\r' then (endLine? (c :: r)).map (d, ·)
    else do
      let ((parts, v), r) ← keyValue (value depthLimit) (c :: r)
      let r ← endLine? r
      let name ← parts.getLast?
      let d ← d.put parts.dropLast name v
      return (d, r)

/-- Read lines until the document ends. -/
def lines (d : Draft) (cs : List Char) : Option Draft :=
  match line d cs with
  | none => none
  | some (d', []) => some d'
  | some (d', c :: r) => if (c :: r).length < cs.length then lines d' (c :: r) else none
termination_by cs.length

/-- Skip a byte order mark. -/
def skipMark : List Char → List Char
  | '\uFEFF' :: r => r
  | cs => cs

/-- The entries of the document that a text is. -/
def parse? (text : String) : Option Entries :=
  (lines {} (skipMark text.toList)).bind Draft.close

end Document
end Parley.Toml

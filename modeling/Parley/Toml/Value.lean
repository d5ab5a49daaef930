/-!
# Parley.Toml.Value — what a TOML document holds

A value is a text, a number, a truth value, a moment, an array or a table.  A table keeps its
entries in the order in which they were first placed, and remembers how it came about, because that
decides what may still be added to it: a table between braces is complete, a table with a header of
its own takes keys below that header only, a table that was only named on the way to another one may
still get its header, and a table that a dotted key made may grow by further dotted keys.
-/

namespace Parley.Toml

/-- How a table came about. -/
inductive Origin where
  | braces | header | implied | dotted
  deriving DecidableEq, Repr

inductive Value where
  | string (text : String)
  | integer (n : Int)
  /-- A floating-point number; nobody asks for its value. -/
  | float
  | boolean (b : Bool)
  /-- A date, a time or both. -/
  | moment
  /-- An array between brackets. -/
  | array (items : List Value)
  /-- An array of tables, one for each of its headers. -/
  | tables (items : List Value)
  | table (origin : Origin) (entries : List (String × Value))
  deriving Inhabited

/-- The entries of a table, in order. -/
abbrev Entries := List (String × Value)

namespace Entries

/-- The value of a key. -/
def find? (es : Entries) (key : String) : Option Value := es.lookup key

/-- Whether a key is there. -/
def has (es : Entries) (key : String) : Bool := (es.find? key).isSome

/-- Add an entry at the end. -/
def add (es : Entries) (key : String) (v : Value) : Entries := es ++ [(key, v)]

/-- Give a key that is there another value, in its old place. -/
def replace (es : Entries) (key : String) (v : Value) : Entries :=
  es.map fun e => if e.1 = key then (key, v) else e

/-- Take a key out. -/
def remove (es : Entries) (key : String) : Entries := es.filter fun e => e.1 ≠ key

/-! ### Placing a value under a dotted key -/

/-- Place `v` under `key` in the table that `path` leads to.  The tables on the way are made where
they are missing.  A path may pass through tables that dotted keys or the headers of deeper tables
made and into the last table of an array, and has to end in a table that dotted keys made (`open_`
says this of the table where it starts). -/
def place (open_ : Bool) (es : Entries) : List String → String → Value → Option Entries
  | [], key, v => if open_ && !es.has key then some (es.add key v) else none
  | step :: path, key, v =>
    match es.find? step with
    | none => (place true [] path key v).map fun sub => es.add step (.table .dotted sub)
    | some (.table .dotted sub) =>
      (place true sub path key v).map fun sub' => es.replace step (.table .dotted sub')
    | some (.table .implied sub) =>
      (place false sub path key v).map fun sub' => es.replace step (.table .implied sub')
    | some (.tables items) =>
      match items.getLast? with
      | some (.table origin sub) =>
        (place false sub path key v).map fun sub' =>
          es.replace step (.tables (items.dropLast ++ [.table origin sub']))
      | _ => none
    | some _ => none

/-! ### Reaching the table of a header -/

/-- Go to the table that `path` leads to, making implied tables where none are, change its entries
and bring something back.  A header may pass through every table but one between braces, and into
the last table of an array. -/
def reach {α : Type} (es : Entries) (path : List String) (change : Entries → Option (α × Entries)) :
    Option (α × Entries) :=
  match path with
  | [] => change es
  | step :: path =>
    match es.find? step with
    | none => (reach [] path change).map fun (a, sub) => (a, es.add step (.table .implied sub))
    | some (.table .braces _) => none
    | some (.table origin sub) =>
      (reach sub path change).map fun (a, sub') => (a, es.replace step (.table origin sub'))
    | some (.tables items) =>
      match items.getLast? with
      | some (.table origin sub) =>
        (reach sub path change).map fun (a, sub') =>
          (a, es.replace step (.tables (items.dropLast ++ [.table origin sub'])))
      | _ => none
    | some _ => none

end Entries

/-! ### Documents under construction -/

/-- A document of which some lines were read: what stands in it, and the table that is being filled.
-/
structure Draft where
  root : Entries := []
  /-- The header of the table that is being filled; none for the document itself. -/
  path : List String := []
  /-- Whether that header was in double brackets. -/
  repeated : Bool := false
  current : Entries := []

namespace Draft

/-- Place a value in the table that is being filled. -/
def put (d : Draft) (path : List String) (key : String) (v : Value) : Option Draft :=
  (d.current.place true path key v).map fun current => { d with current }

/-- Put a finished table into the entries of its parent. -/
def settle (repeated : Bool) (name : String) (done es : Entries) : Option (Unit × Entries) :=
  match repeated, es.find? name with
  | true, some (.tables items) =>
    some ((), es.replace name (.tables (items ++ [.table .header done])))
  | false, none => some ((), es.add name (.table .header done))
  | _, _ => none

/-- The document with the table that is being filled put in its place. -/
def close (d : Draft) : Option Entries :=
  match d.path.getLast? with
  | none => some d.current
  | some name => (d.root.reach d.path.dropLast (settle d.repeated name d.current)).map Prod.snd

/-- Take the table `name`, which was at most implied so far, out of the entries of its parent. -/
def claim (name : String) (es : Entries) : Option (Entries × Entries) :=
  match es.find? name with
  | none => some ([], es)
  | some (.table .implied sub) => some (sub, es.remove name)
  | some _ => none

/-- Make sure that `name` is an array of tables. -/
def extend (name : String) (es : Entries) : Option (Entries × Entries) :=
  match es.find? name with
  | none => some ([], es.add name (.tables []))
  | some (.tables _) => some ([], es)
  | some _ => none

/-- Start the table with the given header.  A table in single brackets starts with what was placed
in it while it was implied, and its position is that of its own header. -/
def start (d : Draft) (repeated : Bool) (path : List String) : Option Draft := do
  let root ← d.close
  let name ← path.getLast?
  let (current, root) ← root.reach path.dropLast (if repeated then extend name else claim name)
  return { root, path, repeated, current }

end Draft
end Parley.Toml

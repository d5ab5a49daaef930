import Parley.Message

/-!
# Parley.Message.Layout — values of fixed layout in a body

A layout says how many bytes a value takes and how it is laid out in them: numbers little-endian and
in two's complement, floating-point numbers as their bit patterns, the items of an array and the
fields of a record one after the other without padding.  `push` puts a value on a body and `pop`
takes the last one off.
-/

namespace Parley

/-- A fixed layout; widths are in bytes. -/
inductive Layout where
  | unsigned (width : Nat)
  | signed (width : Nat)
  /-- A floating-point number, held as its bit pattern. -/
  | float (width : Nat)
  | array (count : Nat) (item : Layout)
  /-- The record without fields. -/
  | unit
  /-- A record: its first field, then the record of the others. -/
  | field (first rest : Layout)
  deriving DecidableEq, Repr

namespace Layout

/-- The values of a layout. -/
@[reducible] def Value : Layout → Type
  | unsigned w | signed w | float w => BitVec (8 * w)
  | array n item => Vector item.Value n
  | unit => Unit
  | field first rest => first.Value × rest.Value

/-- How many bytes a value takes. -/
def width : Layout → Nat
  | unsigned w | signed w | float w => w
  | array n item => n * item.width
  | unit => 0
  | field first rest => first.width + rest.width

/-- The bytes of a value. -/
def encode : (l : Layout) → l.Value → List UInt8
  | unsigned w, v | signed w, v | float w, v => Bytes.ofNat w v.toNat
  | array _ item, vs => vs.toList.flatMap item.encode
  | unit, _ => []
  | field first rest, v => first.encode v.1 ++ rest.encode v.2

/-- The value at the front of a byte string of at least `width` bytes. -/
def decode : (l : Layout) → List UInt8 → l.Value
  | unsigned w, bs | signed w, bs | float w, bs => BitVec.ofNat (8 * w) (Bytes.toNat (bs.take w))
  | array _ item, bs => Vector.ofFn fun i => item.decode (bs.drop (i * item.width))
  | unit, _ => ()
  | field first rest, bs => (first.decode bs, rest.decode (bs.drop first.width))

/-- A value takes as many bytes as its layout says. -/
@[simp] theorem length_encode (l : Layout) (v : l.Value) : (l.encode v).length = l.width := by
  induction l with
  | unsigned w | signed w | float w => exact Bytes.length_ofNat w _
  | array count item ih =>
    have hitems : ∀ vs : List item.Value, (vs.flatMap item.encode).length = vs.length * item.width := by
      intro vs
      induction vs with
      | nil => simp
      | cons v vs ihvs => simp [ih, ihvs, Nat.add_mul, Nat.add_comm]
    exact (hitems _).trans (by rw [Vector.length_toList]; rfl)
  | unit => rfl
  | field first rest ihf ihr => simp [encode, width, ihf, ihr]

/-! ### The layouts of common values -/

def u8 : Layout := unsigned 1
def u16 : Layout := unsigned 2
def u32 : Layout := unsigned 4
def u64 : Layout := unsigned 8
def u128 : Layout := unsigned 16
def i8 : Layout := signed 1
def i16 : Layout := signed 2
def i32 : Layout := signed 4
def i64 : Layout := signed 8
def i128 : Layout := signed 16
def f32 : Layout := float 4
def f64 : Layout := float 8

/-- A record of the given fields, in order. -/
def record (fields : List Layout) : Layout := fields.foldr field unit

/-- A point of the plane. -/
def position : Layout := record [f32, f32]

/-- A point of space at a tick. -/
def snapshot : Layout := record [u32, f32, f32, f32]

/-- The layouts that go by a name. -/
def named : List (String × Layout) :=
  [("u8", u8), ("u16", u16), ("u32", u32), ("u64", u64), ("u128", u128),
    ("i8", i8), ("i16", i16), ("i32", i32), ("i64", i64), ("i128", i128),
    ("f32", f32), ("f64", f64), ("u8x4", array 4 u8), ("u16x3", array 3 u16), ("i32x2", array 2 i32),
    ("u64x2", array 2 u64), ("unit", unit), ("position", position), ("snapshot", snapshot)]

end Layout

namespace Message

variable {κ : Type}

/-- Append the bytes of a value. -/
def push (m : Message κ) (l : Layout) (v : l.Value) : Except Fault (Message κ) :=
  m.pushBytes (l.encode v)

/-- Take the value of the given layout off the end of the body. -/
def pop (m : Message κ) (l : Layout) : Except Fault (l.Value × Message κ) :=
  (m.popBytes l.width).map fun (bytes, rest) => (l.decode bytes, rest)

end Message
end Parley

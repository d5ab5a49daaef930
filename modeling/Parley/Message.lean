import Parley.Bytes
import Parley.Fault
import Parley.Message.Kind

/-!
# Parley.Message — tagged bodies of bytes

A message is a header (tag and body length) and a body.  The length is a 32-bit word and always the
length of the body: `size_eq` is part of the type, so an operation that changes the body has to say
why the new length still fits.  The body is used as a stack of bytes: what was pushed last is popped
first.
-/

namespace Parley

/-- What stands in front of a body: its tag and its length. -/
structure Header (κ : Type) where
  tag : κ
  size : UInt32
  deriving DecidableEq, Repr

/-- The number of bytes a header takes. -/
def headerSize : Nat := 8

/-- A tagged body, with its length as a 32-bit word. -/
structure Message (κ : Type) where
  header : Header κ
  body : List UInt8
  /-- The header tells the length of the body. -/
  size_eq : header.size.toNat = body.length
  deriving DecidableEq

namespace Message

variable {κ : Type}

theorem length_body_lt (m : Message κ) : m.body.length < UInt32.size :=
  m.size_eq ▸ m.header.size.toNat_lt

@[ext] theorem ext {m n : Message κ} (htag : m.header.tag = n.header.tag)
    (hbody : m.body = n.body) : m = n := by
  obtain ⟨⟨t, s⟩, b, h⟩ := m
  obtain ⟨⟨t', s'⟩, b', h'⟩ := n
  simp only at htag hbody h h'
  subst htag hbody
  have hs : s = s' := UInt32.toNat_inj.mp (h.trans h'.symm)
  subst hs
  rfl

def tag (m : Message κ) : κ := m.header.tag

/-- The bytes a message takes on the wire: header and body. -/
def total (m : Message κ) : Nat := headerSize + m.body.length

def isEmpty (m : Message κ) : Bool := m.body.isEmpty

/-- Short display: tag and length, without the body. -/
def display [Kind κ] (m : Message κ) : String :=
  "ID:" ++ Kind.name m.header.tag ++ " Size:" ++ toString m.header.size.toNat

/-! ### Building -/

/-- A length as a 32-bit word, when it fits. -/
def sizeWord? (n : Nat) : Option UInt32 := if n < UInt32.size then some (UInt32.ofNat n) else none

theorem toNat_of_sizeWord? {n : Nat} {w : UInt32} (h : sizeWord? n = some w) : w.toNat = n := by
  simp only [sizeWord?] at h
  split at h
  · next hn => cases h; rw [UInt32.toNat_ofNat', Nat.mod_eq_of_lt hn]
  · cases h

theorem sizeWord?_eq_none_iff {n : Nat} : sizeWord? n = none ↔ UInt32.size ≤ n := by
  simp only [sizeWord?]
  split
  · simp; omega
  · simp; omega

/-- A message with an empty body. -/
def empty (tag : κ) : Message κ := ⟨⟨tag, 0⟩, [], rfl⟩

/-- A message around a given body. -/
def ofBody (tag : κ) (body : List UInt8) : Except Fault (Message κ) :=
  match h : sizeWord? body.length with
  | some size => .ok ⟨⟨tag, size⟩, body, toNat_of_sizeWord? h⟩
  | none => .error (.oversized body.length)

/-- The same body under another tag. -/
def retag (m : Message κ) (tag : κ) : Message κ := ⟨⟨tag, m.header.size⟩, m.body, m.size_eq⟩

/-- The same tag with an empty body. -/
def clear (m : Message κ) : Message κ := empty m.header.tag

/-! ### The body as a stack of bytes -/

/-- The largest number that a count in memory can be; sums of lengths stop there. -/
def addressMax : Nat := UInt64.size - 1

/-- The length of a body of `current` bytes after `extra` more, or why it is refused. -/
def grown (current extra : Nat) : Except Fault UInt32 :=
  match sizeWord? (current + extra) with
  | some size => .ok size
  | none => .error (.oversized (min (current + extra) addressMax))

theorem toNat_of_grown {current extra : Nat} {w : UInt32} (h : grown current extra = .ok w) :
    w.toNat = current + extra := by
  simp only [grown] at h
  split at h
  · next hw => cases h; exact toNat_of_sizeWord? hw
  · cases h

/-- Append bytes to the body. -/
def pushBytes (m : Message κ) (bytes : List UInt8) : Except Fault (Message κ) :=
  match h : grown m.body.length bytes.length with
  | .ok size =>
    .ok ⟨⟨m.header.tag, size⟩, m.body ++ bytes, by
      rw [List.length_append]; exact toNat_of_grown h⟩
  | .error e => .error e

/-- Keep the first `n` bytes of the body. -/
def truncate (m : Message κ) (n : Nat) : Message κ :=
  ⟨⟨m.header.tag, UInt32.ofNat (m.body.take n).length⟩, m.body.take n, by
    rw [UInt32.toNat_ofNat', Nat.mod_eq_of_lt]
    rw [List.length_take]
    exact Nat.lt_of_le_of_lt (Nat.min_le_right _ _) m.length_body_lt⟩

/-- Take the last `n` bytes off the body. -/
def popBytes (m : Message κ) (n : Nat) : Except Fault (List UInt8 × Message κ) :=
  if n ≤ m.body.length then
    let start := m.body.length - n
    .ok (m.body.drop start, m.truncate start)
  else .error (.outOfRange n m.body.length)

/-! ### Laws of the operations -/

@[simp] theorem body_empty (tag : κ) : (empty tag).body = [] := rfl

@[simp] theorem body_truncate (m : Message κ) (n : Nat) : (m.truncate n).body = m.body.take n := rfl

@[simp] theorem tag_truncate (m : Message κ) (n : Nat) :
    (m.truncate n).header.tag = m.header.tag := rfl

theorem ofBody_of_lt (tag : κ) {body : List UInt8} (h : body.length < UInt32.size) :
    ∃ m, ofBody tag body = .ok m ∧ m.header.tag = tag ∧ m.body = body := by
  have hs : sizeWord? body.length = some (UInt32.ofNat body.length) := if_pos h
  unfold ofBody
  split
  · exact ⟨_, rfl, rfl, rfl⟩
  · next hn => rw [hs] at hn; cases hn

theorem ofBody_of_ge {tag : κ} {body : List UInt8} (h : UInt32.size ≤ body.length) :
    ofBody tag body = .error (.oversized body.length) := by
  unfold ofBody
  split
  · next hs => rw [sizeWord?_eq_none_iff.mpr h] at hs; cases hs
  · rfl

theorem ofBody_eq_ok_iff {tag : κ} {body : List UInt8} {m : Message κ} :
    ofBody tag body = .ok m ↔ m.header.tag = tag ∧ m.body = body := by
  constructor
  · intro h
    unfold ofBody at h
    split at h
    · cases h; exact ⟨rfl, rfl⟩
    · cases h
  · rintro ⟨rfl, rfl⟩
    obtain ⟨m', h, ht, hb⟩ := ofBody_of_lt m.header.tag m.length_body_lt
    rw [h]
    exact congrArg _ (ext ht hb)

theorem ofBody_self (m : Message κ) : ofBody m.header.tag m.body = .ok m :=
  ofBody_eq_ok_iff.mpr ⟨rfl, rfl⟩

end Message

/-! ### Letters -/

/-- A message with the connection it came in on; only a server tells its connections apart. -/
structure Letter (κ : Type) where
  origin : Option UInt32
  message : Message κ
  deriving DecidableEq

namespace Letter

variable {κ : Type}

/-- Short display, with the origin in front when there is one. -/
def display [Kind κ] (l : Letter κ) : String :=
  match l.origin with
  | some id => "[" ++ toString id.toNat ++ "] " ++ l.message.display
  | none => l.message.display

end Letter
end Parley

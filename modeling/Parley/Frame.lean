import Parley.Message

/-!
# Parley.Frame — messages on the wire

A frame is a header of eight bytes, the tag and the length of the body as little-endian 32-bit
words, and then the body.  `encode` writes one frame, `decode` takes one off the front of a buffer,
`drain` takes as many as there are.  Both directions refuse a body longer than a limit; a buffer
from which nothing could be taken is left as it was.
-/

namespace Parley

variable {κ : Type} [Kind κ]

namespace Header

/-- The eight bytes of a header. -/
def bytes (h : Header κ) : List UInt8 :=
  Bytes.ofNat 4 (Kind.toWord h.tag).toNat ++ Bytes.ofNat 4 h.size.toNat

/-- The header at the front of a byte string. -/
def ofBytes (bs : List UInt8) : Except Fault (Header κ) :=
  match Bytes.split? headerSize bs with
  | none => .error (.transport Fault.invalidHeader)
  | some (front, _) =>
    let word := UInt32.ofNat (Bytes.toNat (front.take 4))
    match Kind.ofWord? word with
    | none => .error (.unknownTag word)
    | some tag => .ok ⟨tag, UInt32.ofNat (Bytes.toNat (front.drop 4))⟩

@[simp] theorem length_bytes (h : Header κ) : h.bytes.length = headerSize := by
  simp [bytes, headerSize]

end Header

namespace Frame

/-- The longest body allowed unless said otherwise. -/
def defaultLimit : Nat := 16 * 1024 * 1024

/-- The bytes of a message on the wire. -/
def bytes (m : Message κ) : List UInt8 := m.header.bytes ++ m.body

/-- The bytes of a message, unless its body is over the limit. -/
def encode (limit : Nat) (m : Message κ) : Except Fault (List UInt8) :=
  if limit < m.body.length then .error (.oversized m.body.length) else .ok (bytes m)

/-- The message at the front of the buffer with the bytes after it, or nothing as long as the frame
is incomplete.  A bad header is refused as soon as it is complete, an unknown tag before a length
over the limit. -/
def decode (limit : Nat) (buf : List UInt8) : Except Fault (Option (Message κ × List UInt8)) :=
  match Bytes.split? headerSize buf with
  | none => .ok none
  | some (front, rest) =>
    match Header.ofBytes front with
    | .error e => .error e
    | .ok header =>
      if limit < header.size.toNat then .error (.oversized header.size.toNat)
      else
        match h : Bytes.split? header.size.toNat rest with
        | none => .ok none
        | some (body, after) =>
          .ok (some (⟨header, body, ((Bytes.split?_eq_some_iff.mp h).2).symm⟩, after))

/-- The text of the failure of a stream that ends inside a frame. -/
def cutShort : String := "bytes remaining on stream"

/-- What `decode` says when no more bytes will come: an incomplete frame is then a failure. -/
def decodeEnd (limit : Nat) (buf : List UInt8) : Except Fault (Option (Message κ × List UInt8)) :=
  match decode limit buf with
  | .ok none => if buf.isEmpty then .ok none else .error (.io cutShort)
  | answer => answer

/-! ### Laws of one step -/

@[simp] theorem length_bytes (m : Message κ) : (bytes m).length = m.total := by
  simp [bytes, Message.total]

/-- A message that was read is as long as the bytes it was read from. -/
theorem length_of_decode {limit : Nat} {buf rest : List UInt8} {m : Message κ}
    (h : decode limit buf = .ok (some (m, rest))) : buf.length = m.total + rest.length := by
  unfold decode at h
  split at h
  · cases h
  · next front after hs =>
    split at h
    · cases h
    · next header _ =>
      split at h
      · cases h
      · split at h
        · cases h
        · next body after' hs' =>
          cases h
          obtain ⟨rfl, hl⟩ := Bytes.split?_eq_some_iff.mp hs
          obtain ⟨rfl, -⟩ := Bytes.split?_eq_some_iff.mp hs'
          simp [Message.total, ← hl]
          omega

theorem length_lt_of_decode {limit : Nat} {buf rest : List UInt8} {m : Message κ}
    (h : decode limit buf = .ok (some (m, rest))) : rest.length < buf.length := by
  have := length_of_decode h
  simp only [Message.total, headerSize] at this
  omega

/-! ### Taking all complete frames -/

/-- What came off a buffer: the messages, the bytes left, and the failure that stopped it, if one
did. -/
structure Drained (κ : Type) where
  messages : List (Message κ)
  rest : List UInt8
  fault : Option Fault

/-- Take frames off the front until one is incomplete or bad. -/
def drain (limit : Nat) (buf : List UInt8) : Drained κ :=
  match h : decode limit buf with
  | .ok none => ⟨[], buf, none⟩
  | .error e => ⟨[], buf, some e⟩
  | .ok (some (m, rest)) =>
    have := length_lt_of_decode h
    let after := drain limit rest
    { after with messages := m :: after.messages }
termination_by buf.length

end Frame
end Parley

/-!
# Parley.Message.Kind — message tags

An application names its messages by a type of tags.  A tag travels as a 32-bit word; a word that
stands for no tag is refused on arrival.
-/

namespace Parley

/-- Tags that travel as 32-bit words. -/
class Kind (κ : Type) where
  /-- The word a tag travels as. -/
  toWord : κ → UInt32
  /-- The tag a word stands for, if any. -/
  ofWord? : UInt32 → Option κ
  /-- How a tag is shown. -/
  name : κ → String

namespace Kind

/-- A written tag is read back. -/
def WrittenReads (κ : Type) [Kind κ] : Prop := ∀ k : κ, ofWord? (toWord k) = some k

/-- A tag that was read is written as the word it was read from. -/
def ReadWrites (κ : Type) [Kind κ] : Prop :=
  ∀ (w : UInt32) (k : κ), ofWord? w = some k → toWord k = w

end Kind

/-! ### Words as tags: every word stands for itself -/

instance : Kind UInt32 where
  toWord := id
  ofWord? := some
  name k := toString k.toNat

/-! ### A small enumeration -/

/-- The messages of a small game. -/
inductive GameTag where
  | ping | chat | position
  deriving DecidableEq, Repr

instance : Kind GameTag where
  toWord
    | .ping => 0
    | .chat => 1
    | .position => 2
  ofWord? w := if w = 0 then some .ping else if w = 1 then some .chat
    else if w = 2 then some .position else none
  name
    | .ping => "Ping"
    | .chat => "Chat"
    | .position => "Position"

/-! ### Tags spread over the whole range of words -/

/-- Three tags far apart, the last at the top of the range. -/
inductive SparseTag where
  | alpha | mid | omega
  deriving DecidableEq, Repr

instance : Kind SparseTag where
  toWord
    | .alpha => 7
    | .mid => 0x01020304
    | .omega => 0xFFFFFFFF
  ofWord? w := if w = 7 then some .alpha else if w = 0x01020304 then some .mid
    else if w = 0xFFFFFFFF then some .omega else none
  name
    | .alpha => "Alpha"
    | .mid => "Mid"
    | .omega => "Omega"

namespace Kind

theorem uint32_writtenReads : WrittenReads UInt32 := fun _ => rfl

theorem uint32_readWrites : ReadWrites UInt32 := fun _ _ h => (Option.some.inj h).symm

theorem gameTag_writtenReads : WrittenReads GameTag := fun k => by cases k <;> rfl

theorem gameTag_readWrites : ReadWrites GameTag := fun w k h => by
  simp only [ofWord?] at h
  split at h
  · next hw => cases h; exact hw.symm
  split at h
  · next hw => cases h; exact hw.symm
  split at h
  · next hw => cases h; exact hw.symm
  · cases h

theorem sparseTag_writtenReads : WrittenReads SparseTag := fun k => by cases k <;> rfl

theorem sparseTag_readWrites : ReadWrites SparseTag := fun w k h => by
  simp only [ofWord?] at h
  split at h
  · next hw => cases h; exact hw.symm
  split at h
  · next hw => cases h; exact hw.symm
  split at h
  · next hw => cases h; exact hw.symm
  · cases h

end Kind
end Parley

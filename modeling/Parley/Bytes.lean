/-!
# Parley.Bytes — little-endian numbers in byte strings

A number becomes exactly `w` bytes, least significant first (`ofNat`), and bytes become a number
(`toNat`).  The two are inverse on numbers below `bound w` and on strings of `w` bytes.  `split?`
takes a fixed count off the front of a string, which is how everything on the wire is read.
-/

namespace Parley.Bytes

/-- The `w` bytes of `n`, least significant first; what does not fit is dropped. -/
def ofNat : Nat → Nat → List UInt8
  | 0, _ => []
  | w + 1, n => UInt8.ofNat n :: ofNat w (n / 256)

/-- The number whose bytes, least significant first, are given. -/
def toNat : List UInt8 → Nat
  | [] => 0
  | b :: bs => b.toNat + 256 * toNat bs

/-- How many strings of `w` bytes there are. -/
def bound (w : Nat) : Nat := Nat.pow 256 w

theorem bound_zero : bound 0 = 1 := rfl

theorem bound_succ (w : Nat) : bound (w + 1) = 256 * bound w := Nat.mul_comm _ _

@[simp] theorem length_ofNat (w n : Nat) : (ofNat w n).length = w := by
  induction w generalizing n with
  | zero => rfl
  | succ w ih => simp [ofNat, ih]

theorem toNat_ofNat (w n : Nat) : toNat (ofNat w n) = n % bound w := by
  induction w generalizing n with
  | zero => rw [bound_zero, Nat.mod_one]; rfl
  | succ w ih =>
    have h : (UInt8.ofNat n).toNat = n % 256 := by simp
    rw [ofNat, toNat, ih, h, bound_succ, Nat.mod_mul]

theorem toNat_ofNat_of_lt {w n : Nat} (h : n < bound w) : toNat (ofNat w n) = n := by
  rw [toNat_ofNat, Nat.mod_eq_of_lt h]

theorem toNat_lt (bs : List UInt8) : toNat bs < bound bs.length := by
  induction bs with
  | nil => exact Nat.one_pos
  | cons b bs ih =>
    have hb : b.toNat < 256 := b.toNat_lt
    rw [toNat, List.length_cons, bound_succ]
    omega

theorem ofNat_toNat (bs : List UInt8) : ofNat bs.length (toNat bs) = bs := by
  induction bs with
  | nil => rfl
  | cons b bs ih =>
    have hb : b.toNat < 256 := b.toNat_lt
    have hd : (b.toNat + 256 * toNat bs) / 256 = toNat bs := by omega
    have hm : UInt8.ofNat (b.toNat + 256 * toNat bs) = b := by
      apply UInt8.toNat_inj.mp
      rw [UInt8.toNat_ofNat']
      omega
    rw [List.length_cons, toNat, ofNat, hd, hm, ih]

/-! ### Taking a fixed count off the front -/

/-- The first `n` bytes and the rest, when there are that many. -/
def split? (n : Nat) (bs : List UInt8) : Option (List UInt8 × List UInt8) :=
  let head := bs.take n
  if head.length = n then some (head, bs.drop n) else none

theorem split?_eq_some_iff {n : Nat} {bs head rest : List UInt8} :
    split? n bs = some (head, rest) ↔ bs = head ++ rest ∧ head.length = n := by
  simp only [split?]
  constructor
  · intro h
    split at h
    · next hl =>
      obtain ⟨rfl, rfl⟩ := Prod.mk.inj (Option.some.inj h)
      exact ⟨(List.take_append_drop n bs).symm, hl⟩
    · exact absurd h (by simp)
  · rintro ⟨rfl, rfl⟩
    simp

theorem split?_eq_none_iff {n : Nat} {bs : List UInt8} : split? n bs = none ↔ bs.length < n := by
  simp only [split?, List.length_take]
  split
  · simp; omega
  · simp; omega

/-! ### Machine words -/

/-- The eight bytes of a 64-bit word. -/
def ofWord (x : UInt64) : List UInt8 := ofNat 8 x.toNat

/-- The 64-bit word with the given bytes. -/
def toWord (bs : List UInt8) : UInt64 := UInt64.ofNat (toNat bs)

@[simp] theorem length_ofWord (x : UInt64) : (ofWord x).length = 8 := length_ofNat 8 _

theorem toWord_ofWord (x : UInt64) : toWord (ofWord x) = x := by
  rw [toWord, ofWord, toNat_ofNat_of_lt x.toNat_lt, UInt64.ofNat_toNat]

theorem ofWord_toWord {bs : List UInt8} (h : bs.length = 8) : ofWord (toWord bs) = bs := by
  have hlt : toNat bs < UInt64.size := by
    have := toNat_lt bs
    rwa [h] at this
  rw [ofWord, toWord, UInt64.toNat_ofNat', Nat.mod_eq_of_lt hlt, ← h, ofNat_toNat]

end Parley.Bytes

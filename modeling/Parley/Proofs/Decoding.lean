import Parley.Frame

/-!
# Parley.Proofs.Decoding — what one step of the decoder says

The first eight bytes of a buffer are two words (`head`), so every buffer is one of five: too short
for a header, with an unknown tag, with a length over the limit, with a body that is not complete,
or a whole frame and some rest.  `Decoded` lists the five with the answer to each, and
`decode_eq_iff` says that `decode` gives exactly these answers.  All of them but "more bytes, please"
stay the same when bytes are added behind the buffer.
-/

namespace Parley

variable {κ : Type} [Kind κ]

/-! ### The two words of a header -/

/-- The eight bytes of a header with the given tag word and length word. -/
def Header.words (w n : UInt32) : List UInt8 := Bytes.ofNat 4 w.toNat ++ Bytes.ofNat 4 n.toNat

namespace Header

@[simp] theorem length_words (w n : UInt32) : (words w n).length = headerSize := by
  simp [words, headerSize]

theorem ofNat_toNat_ofNat (w : UInt32) : UInt32.ofNat (Bytes.toNat (Bytes.ofNat 4 w.toNat)) = w := by
  rw [Bytes.toNat_ofNat_of_lt w.toNat_lt, UInt32.ofNat_toNat]

/-- Four bytes are the bytes of a word. -/
theorem exists_word (bs : List UInt8) (h : bs.length = 4) :
    ∃ w : UInt32, bs = Bytes.ofNat 4 w.toNat := by
  have hlt : Bytes.toNat bs < UInt32.size := by
    have hb := Bytes.toNat_lt bs
    rwa [h] at hb
  refine ⟨UInt32.ofNat (Bytes.toNat bs), ?_⟩
  rw [UInt32.toNat_ofNat', Nat.mod_eq_of_lt hlt, ← h, Bytes.ofNat_toNat]

/-- Eight bytes are the bytes of two words. -/
theorem exists_words (bs : List UInt8) (h : bs.length = headerSize) :
    ∃ w n : UInt32, bs = words w n := by
  have h8 : bs.length = 8 := h
  obtain ⟨w, hw⟩ := exists_word (bs.take 4) (by rw [List.length_take]; omega)
  obtain ⟨n, hn⟩ := exists_word (bs.drop 4) (by rw [List.length_drop]; omega)
  exact ⟨w, n, by rw [words, ← hw, ← hn, List.take_append_drop]⟩

theorem ofBytes_words (w n : UInt32) :
    (ofBytes (words w n) : Except Fault (Header κ)) =
      match Kind.ofWord? w with
      | none => .error (.unknownTag w)
      | some tag => .ok ⟨tag, n⟩ := by
  have hs : Bytes.split? headerSize (words w n) = some (words w n, []) :=
    Bytes.split?_eq_some_iff.mpr ⟨by simp, length_words w n⟩
  have ht : (words w n).take 4 = Bytes.ofNat 4 w.toNat := by
    rw [words, List.take_left' (Bytes.length_ofNat 4 _)]
  have hd : (words w n).drop 4 = Bytes.ofNat 4 n.toNat := by
    rw [words, List.drop_left' (Bytes.length_ofNat 4 _)]
  cases hw : (Kind.ofWord? w : Option κ) with
  | none => simp only [ofBytes, hs, ht, ofNat_toNat_ofNat, hw]
  | some tag => simp only [ofBytes, hs, ht, hd, ofNat_toNat_ofNat, hw]

end Header

namespace Frame

theorem bytes_eq (m : Message κ) :
    bytes m = Header.words (Kind.toWord m.header.tag) m.header.size ++ m.body := rfl

/-- What the decoder says to a buffer. -/
abbrev Answer (κ : Type) := Except Fault (Option (Message κ × List UInt8))

/-! ### The five kinds of buffers -/

/-- A buffer and the decoder's answer to it. -/
inductive Decoded (limit : Nat) :
    List UInt8 → Answer κ → Prop where
  /-- There is no complete header. -/
  | short {buf} (h : buf.length < headerSize) : Decoded limit buf (.ok none)
  /-- The tag is unknown, whatever the length is. -/
  | unknown {w n rest} (hw : (Kind.ofWord? w : Option κ) = none) :
    Decoded limit (Header.words w n ++ rest) (.error (.unknownTag w))
  /-- The length is over the limit, whether or not the body is there. -/
  | oversized {w n rest tag} (hw : (Kind.ofWord? w : Option κ) = some tag) (hn : limit < n.toNat) :
    Decoded limit (Header.words w n ++ rest) (.error (.oversized n.toNat))
  /-- The body is not complete. -/
  | partialBody {w n rest tag} (hw : (Kind.ofWord? w : Option κ) = some tag)
    (hn : n.toNat ≤ limit) (hr : rest.length < n.toNat) :
    Decoded limit (Header.words w n ++ rest) (.ok none)
  /-- There is a whole frame. -/
  | whole {w rest} {m : Message κ} (hw : Kind.ofWord? w = some m.header.tag)
    (hn : m.body.length ≤ limit) :
    Decoded limit (Header.words w m.header.size ++ (m.body ++ rest)) (.ok (some (m, rest)))

/-! ### One lemma for each kind -/

section Words

variable {limit : Nat} {w n : UInt32} {rest : List UInt8}

theorem split?_words (w n : UInt32) (rest : List UInt8) :
    Bytes.split? headerSize (Header.words w n ++ rest) = some (Header.words w n, rest) :=
  Bytes.split?_eq_some_iff.mpr ⟨rfl, Header.length_words w n⟩

theorem decode_of_short {buf : List UInt8} (h : buf.length < headerSize) :
    (decode limit buf : Answer κ) = .ok none := by
  simp only [decode, Bytes.split?_eq_none_iff.mpr h]

theorem decode_of_unknown (hw : (Kind.ofWord? w : Option κ) = none) :
    (decode limit (Header.words w n ++ rest) : Answer κ) = .error (.unknownTag w) := by
  simp only [decode, split?_words, Header.ofBytes_words, hw]

theorem decode_of_oversized {tag : κ} (hw : Kind.ofWord? w = some tag) (hn : limit < n.toNat) :
    (decode limit (Header.words w n ++ rest) : Answer κ) = .error (.oversized n.toNat) := by
  simp only [decode, split?_words, Header.ofBytes_words, hw, if_pos hn]

theorem decode_of_partialBody {tag : κ} (hw : Kind.ofWord? w = some tag) (hn : n.toNat ≤ limit)
    (hr : rest.length < n.toNat) : (decode limit (Header.words w n ++ rest) : Answer κ) = .ok none := by
  simp only [decode, split?_words, Header.ofBytes_words, hw, if_neg (Nat.not_lt.mpr hn)]
  split
  · rfl
  · next hs =>
    rw [Bytes.split?_eq_none_iff.mpr hr] at hs
    cases hs

theorem decode_of_whole {m : Message κ} (hw : Kind.ofWord? w = some m.header.tag)
    (hn : m.body.length ≤ limit) :
    decode limit (Header.words w m.header.size ++ (m.body ++ rest)) = .ok (some (m, rest)) := by
  have hs : Bytes.split? m.header.size.toNat (m.body ++ rest) = some (m.body, rest) :=
    Bytes.split?_eq_some_iff.mpr ⟨rfl, m.size_eq.symm⟩
  simp only [decode, split?_words, Header.ofBytes_words, hw,
    if_neg (Nat.not_lt.mpr (m.size_eq ▸ hn))]
  split
  · next hnone =>
    rw [hs] at hnone
    cases hnone
  · next hs' =>
    rw [hs] at hs'
    cases hs'
    rfl

end Words

/-- Every buffer is of one of the five kinds. -/
theorem exists_decoded (limit : Nat) (buf : List UInt8) :
    ∃ answer : Answer κ, Decoded limit buf answer := by
  by_cases hlen : buf.length < headerSize
  · exact ⟨_, .short hlen⟩
  obtain ⟨w, n, hwn⟩ := Header.exists_words (buf.take headerSize)
    (by rw [List.length_take]; omega)
  have hbuf : buf = Header.words w n ++ buf.drop headerSize := by
    rw [← hwn, List.take_append_drop]
  generalize buf.drop headerSize = rest at hbuf
  subst hbuf
  cases hw : (Kind.ofWord? w : Option κ) with
  | none => exact ⟨_, .unknown hw⟩
  | some tag =>
    rcases Nat.lt_or_ge limit n.toNat with hn | hn
    · exact ⟨_, .oversized hw hn⟩
    cases hs : Bytes.split? n.toNat rest with
    | none => exact ⟨_, .partialBody hw hn (Bytes.split?_eq_none_iff.mp hs)⟩
    | some o =>
      obtain ⟨body, after⟩ := o
      obtain ⟨rfl, hl⟩ := Bytes.split?_eq_some_iff.mp hs
      exact ⟨_, @Decoded.whole κ _ limit w after ⟨⟨tag, n⟩, body, hl.symm⟩ hw
        (Nat.le_trans (Nat.le_of_eq hl) hn)⟩

/-- No buffer is of two kinds. -/
theorem Decoded.eq_decode {limit : Nat} {buf : List UInt8} {answer : Answer κ}
    (h : Decoded limit buf answer) : answer = decode limit buf := by
  cases h with
  | short h => exact (decode_of_short h).symm
  | unknown hw => exact (decode_of_unknown hw).symm
  | oversized hw hn => exact (decode_of_oversized hw hn).symm
  | partialBody hw hn hr => exact (decode_of_partialBody hw hn hr).symm
  | whole hw hn => exact (decode_of_whole hw hn).symm

/-- The decoder's answer is one of the five. -/
theorem decoded_decode (limit : Nat) (buf : List UInt8) :
    Decoded limit buf (decode limit buf : Answer κ) := by
  obtain ⟨answer, h⟩ : ∃ answer : Answer κ, Decoded limit buf answer := exists_decoded limit buf
  rwa [← h.eq_decode]

/-- **The decoder gives exactly the listed answers.** -/
theorem decode_eq_iff {limit : Nat} {buf : List UInt8}
    {answer : Answer κ} :
    decode limit buf = answer ↔ Decoded limit buf answer :=
  ⟨fun h => h ▸ decoded_decode limit buf, fun h => h.eq_decode.symm⟩

/-! ### Bytes added behind a buffer -/

theorem decode_nil (limit : Nat) : (decode limit [] : Answer κ) = .ok none :=
  decode_eq_iff.mpr (.short (by decide))

theorem decode_append_of_message {limit : Nat} {buf rest : List UInt8} {m : Message κ}
    (h : decode limit buf = .ok (some (m, rest))) (more : List UInt8) :
    decode limit (buf ++ more) = .ok (some (m, rest ++ more)) := by
  rw [decode_eq_iff] at h ⊢
  cases h with
  | whole hw hn =>
    rw [List.append_assoc, List.append_assoc]
    exact .whole hw hn

theorem decode_append_of_fault {limit : Nat} {buf : List UInt8} {e : Fault}
    (h : (decode limit buf : Answer κ) = .error e)
    (more : List UInt8) :
    (decode limit (buf ++ more) : Answer κ) = .error e := by
  rw [decode_eq_iff] at h ⊢
  cases h with
  | unknown hw =>
    rw [List.append_assoc]
    exact .unknown hw
  | oversized hw hn =>
    rw [List.append_assoc]
    exact .oversized hw hn

/-! ### Decoding what was encoded, and the other way round -/

theorem encode_eq_ok_iff {limit : Nat} {m : Message κ} {bs : List UInt8} :
    encode limit m = .ok bs ↔ m.body.length ≤ limit ∧ bs = bytes m := by
  rw [encode]
  split
  · next h => exact ⟨fun he => (nomatch he), fun ⟨hle, _⟩ => absurd h (Nat.not_lt.mpr hle)⟩
  · next h =>
    exact ⟨fun he => ⟨Nat.not_lt.mp h, (Except.ok.inj he).symm⟩, fun ⟨_, he⟩ => he ▸ rfl⟩

theorem encode_eq_error_iff {limit : Nat} {m : Message κ} {e : Fault} :
    encode limit m = .error e ↔ limit < m.body.length ∧ e = .oversized m.body.length := by
  rw [encode]
  split
  · next h => exact ⟨fun he => ⟨h, (Except.error.inj he).symm⟩, fun ⟨_, he⟩ => he ▸ rfl⟩
  · next h => exact ⟨fun he => (nomatch he), fun ⟨hlt, _⟩ => absurd hlt h⟩

/-- A message in front of a buffer is decoded if it is within the limit. -/
theorem decode_bytes_append (hk : Kind.WrittenReads κ) {limit : Nat} {m : Message κ}
    (h : m.body.length ≤ limit) (rest : List UInt8) :
    decode limit (bytes m ++ rest) = .ok (some (m, rest)) := by
  rw [decode_eq_iff, bytes_eq, List.append_assoc]
  exact .whole (hk m.header.tag) h

/-- A message over the limit in front of a buffer is refused. -/
theorem decode_bytes_append_of_lt (hk : Kind.WrittenReads κ) {limit : Nat} {m : Message κ}
    (h : limit < m.body.length) (rest : List UInt8) :
    (decode limit (bytes m ++ rest) : Answer κ) =
      .error (.oversized m.body.length) := by
  rw [decode_eq_iff, bytes_eq, List.append_assoc, ← m.size_eq]
  exact .oversized (hk m.header.tag) (m.size_eq ▸ h)

/-- What was decoded is what was encoded. -/
theorem eq_bytes_append_of_decode (hk : Kind.ReadWrites κ) {limit : Nat} {buf rest : List UInt8}
    {m : Message κ} (h : decode limit buf = .ok (some (m, rest))) : buf = bytes m ++ rest := by
  cases decode_eq_iff.mp h with
  | @whole w _ _ hw hn => rw [bytes_eq, hk w _ hw, List.append_assoc]

end Frame
end Parley

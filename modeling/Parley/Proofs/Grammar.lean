import Mathlib.Algebra.Group.Nat.Defs
import Mathlib.Data.List.GetD
import Parley.Proofs.Decoding

/-!
# Parley.Proofs.Grammar — which buffers are frames, by position

`decode` says what stands at the front of a buffer and what is behind it, but not what happens to
the buffer.  `decodeIn` is the same step on the buffer itself: it looks at the first eight bytes,
takes them off only when the whole frame is there, takes the body off behind them and then builds
the message.  `Taken` lists the five outcomes by positions in the buffer, each with the buffer that
is left; `decodeIn_eq_iff` says that these are all there are.  Building the message is the one thing
that could still fail after bytes were taken off, and it does not.
-/

namespace Parley

variable {κ : Type} [Kind κ]

namespace Frame

/-! ### Words by position -/

/-- The little-endian word in the four bytes from place `i` on. -/
def wordAt (buf : List UInt8) (i : Nat) : UInt32 :=
  UInt32.ofNat ((buf.getD i 0).toNat + 2 ^ 8 * (buf.getD (i + 1) 0).toNat
    + 2 ^ 16 * (buf.getD (i + 2) 0).toNat + 2 ^ 24 * (buf.getD (i + 3) 0).toNat)

/-- The word that stands for the tag. -/
def tagWord (buf : List UInt8) : UInt32 := wordAt buf 0

/-- The word that stands for the length of the body. -/
def lengthWord (buf : List UInt8) : UInt32 := wordAt buf 4

theorem wordAt_append (front back : List UInt8) (i : Nat) :
    wordAt (front ++ back) (front.length + i) = wordAt back i := by
  have hat : ∀ k, (front ++ back).getD (front.length + i + k) 0 = back.getD (i + k) 0 := by
    intro k
    rw [Nat.add_assoc, List.getD_append_right _ _ _ _ (Nat.le_add_right _ _),
      Nat.add_sub_cancel_left]
  have h0 : (front ++ back).getD (front.length + i) 0 = back.getD i 0 := hat 0
  unfold wordAt
  rw [h0, hat 1, hat 2, hat 3]

theorem wordAt_ofNat (w : UInt32) (rest : List UInt8) :
    wordAt (Bytes.ofNat 4 w.toNat ++ rest) 0 = w := by
  have hw : w.toNat < 2 ^ 32 := w.toNat_lt
  apply UInt32.toNat_inj.mp
  simp only [wordAt, Bytes.ofNat, List.cons_append, List.nil_append, List.getD_cons_zero,
    List.getD_cons_succ, UInt8.toNat_ofNat', UInt32.toNat_ofNat']
  omega

theorem tagWord_words (w n : UInt32) (rest : List UInt8) :
    tagWord (Header.words w n ++ rest) = w := by
  unfold tagWord Header.words
  rw [List.append_assoc]
  exact wordAt_ofNat w _

theorem lengthWord_words (w n : UInt32) (rest : List UInt8) :
    lengthWord (Header.words w n ++ rest) = n := by
  have hat := wordAt_append (Bytes.ofNat 4 w.toNat) (Bytes.ofNat 4 n.toNat ++ rest) 0
  rw [Bytes.length_ofNat] at hat
  unfold lengthWord Header.words
  rw [List.append_assoc]
  exact hat.trans (wordAt_ofNat n rest)

/-- A buffer with a complete header begins with the words read off it by position. -/
theorem eq_words_append {buf : List UInt8} (h : headerSize ≤ buf.length) :
    buf = Header.words (tagWord buf) (lengthWord buf) ++ buf.drop headerSize := by
  obtain ⟨w, n, hwn⟩ := Header.exists_words (buf.take headerSize)
    (by rw [List.length_take]; omega)
  have hbuf : buf = Header.words w n ++ buf.drop headerSize := by
    rw [← hwn, List.take_append_drop]
  have hw : tagWord buf = w := by
    rw [hbuf]
    exact tagWord_words w n _
  have hn : lengthWord buf = n := by
    rw [hbuf]
    exact lengthWord_words w n _
  rw [hw, hn]
  exact hbuf

/-- The header of a buffer, by position. -/
theorem ofBytes_take {buf : List UInt8} (h : headerSize ≤ buf.length) :
    (Header.ofBytes (buf.take headerSize) : Except Fault (Header κ)) =
      match Kind.ofWord? (tagWord buf) with
      | none => .error (.unknownTag (tagWord buf))
      | some tag => .ok ⟨tag, lengthWord buf⟩ := by
  have htake : buf.take headerSize = Header.words (tagWord buf) (lengthWord buf) := by
    have hbuf := congrArg (List.take headerSize) (eq_words_append h)
    rwa [List.take_left' (Header.length_words _ _)] at hbuf
  rw [htake]
  exact Header.ofBytes_words _ _

/-! ### One step on the buffer itself -/

/-- Take a body of `n` bytes off the front; nothing is split off for an empty one. -/
def splitBody (n : Nat) (buf : List UInt8) : List UInt8 × List UInt8 :=
  if 0 < n then (buf.take n, buf.drop n) else ([], buf)

theorem splitBody_eq (n : Nat) (buf : List UInt8) : splitBody n buf = (buf.take n, buf.drop n) := by
  unfold splitBody
  by_cases hn : 0 < n
  · rw [if_pos hn]
  · have h0 : n = 0 := by omega
    rw [if_neg hn, h0]
    rfl

/-- One step of the decoder with the buffer it leaves.  By the time the message is built, the header
and the body have been taken off. -/
def decodeIn (limit : Nat) (buf : List UInt8) :
    Except Fault (Option (Message κ)) × List UInt8 :=
  if buf.length < headerSize then (.ok none, buf)
  else
    match Header.ofBytes (buf.take headerSize) with
    | .error e => (.error e, buf)
    | .ok header =>
      let n := header.size.toNat
      if limit < n then (.error (.oversized n), buf)
      else if buf.length < headerSize + n then (.ok none, buf)
      else
        let (body, after) := splitBody n (buf.drop headerSize)
        ((Message.ofBody header.tag body).map some, after)

/-- What a step says and leaves, put together from the answer of `decode`. -/
def settled (buf : List UInt8) : Answer κ → Except Fault (Option (Message κ)) × List UInt8
  | .ok none => (.ok none, buf)
  | .ok (some (m, rest)) => (.ok (some m), rest)
  | .error e => (.error e, buf)

/-! ### The outcomes by position -/

/-- The outcomes of one step on a buffer, in the order in which they are looked for: what is said
and what is left in the buffer. -/
inductive Taken (limit : Nat) (buf : List UInt8) :
    Except Fault (Option (Message κ)) → List UInt8 → Prop where
  /-- There are fewer than eight bytes. -/
  | short (hhead : buf.length < headerSize) : Taken limit buf (.ok none) buf
  /-- The tag is refused, whatever the length is. -/
  | unknown (hhead : headerSize ≤ buf.length)
    (htag : (Kind.ofWord? (tagWord buf) : Option κ) = none) :
    Taken limit buf (.error (.unknownTag (tagWord buf))) buf
  /-- The length is over the limit, whether or not the body is there. -/
  | oversized {tag : κ} (hhead : headerSize ≤ buf.length)
    (htag : Kind.ofWord? (tagWord buf) = some tag) (hlimit : limit < (lengthWord buf).toNat) :
    Taken limit buf (.error (.oversized (lengthWord buf).toNat)) buf
  /-- The body is not complete. -/
  | incomplete {tag : κ} (hhead : headerSize ≤ buf.length)
    (htag : Kind.ofWord? (tagWord buf) = some tag) (hlimit : (lengthWord buf).toNat ≤ limit)
    (hbody : buf.length < headerSize + (lengthWord buf).toNat) : Taken limit buf (.ok none) buf
  /-- The frame is there: its tag, its length and its body make the message, and nothing else is
  taken off. -/
  | whole {m : Message κ} (htag : Kind.ofWord? (tagWord buf) = some m.header.tag)
    (hlimit : (lengthWord buf).toNat ≤ limit)
    (hbody : headerSize + (lengthWord buf).toNat ≤ buf.length)
    (hsize : m.header.size = lengthWord buf)
    (heq : m.body = (buf.drop headerSize).take (lengthWord buf).toNat) :
    Taken limit buf (.ok (some m)) (buf.drop (headerSize + (lengthWord buf).toNat))

omit [Kind κ] in
/-- The message cannot fail to be built: a length that came in a header word fits one. -/
theorem ofBody_splitBody (header : Header κ) (buf : List UInt8) :
    ∃ m, Message.ofBody header.tag (splitBody header.size.toNat buf).1 = .ok m := by
  rw [splitBody_eq]
  have hlt : (buf.take header.size.toNat).length < UInt32.size := by
    have hn := header.size.toNat_lt
    rw [List.length_take]
    exact Nat.lt_of_le_of_lt (Nat.min_le_left _ _) hn
  obtain ⟨m, hm, -⟩ := Message.ofBody_of_lt header.tag hlt
  exact ⟨m, hm⟩

/-- Every outcome of the list is what the step comes to. -/
theorem Taken.decodeIn_eq {limit : Nat} {buf rest : List UInt8}
    {answer : Except Fault (Option (Message κ))} (h : Taken limit buf answer rest) :
    decodeIn limit buf = (answer, rest) := by
  unfold decodeIn
  cases h with
  | short hhead => exact if_pos hhead
  | unknown hhead htag =>
    rw [if_neg (Nat.not_lt.mpr hhead), ofBytes_take hhead, htag]
  | oversized hhead htag hlimit =>
    rw [if_neg (Nat.not_lt.mpr hhead), ofBytes_take hhead, htag]
    exact if_pos hlimit
  | incomplete hhead htag hlimit hbody =>
    rw [if_neg (Nat.not_lt.mpr hhead), ofBytes_take hhead, htag]
    simp only
    rw [if_neg (Nat.not_lt.mpr hlimit)]
    exact if_pos hbody
  | @whole m htag hlimit hbody hsize heq =>
    have hhead : headerSize ≤ buf.length := Nat.le_trans (Nat.le_add_right _ _) hbody
    rw [if_neg (Nat.not_lt.mpr hhead), ofBytes_take hhead, htag]
    simp only
    rw [if_neg (Nat.not_lt.mpr hlimit), if_neg (Nat.not_lt.mpr hbody), splitBody_eq]
    simp only
    rw [← heq, Message.ofBody_self, List.drop_drop]
    rfl

/-- Every buffer has one of the outcomes. -/
theorem exists_taken (limit : Nat) (buf : List UInt8) :
    ∃ answer rest, Taken (κ := κ) limit buf answer rest := by
  by_cases hshort : buf.length < headerSize
  · exact ⟨_, _, .short hshort⟩
  · have hhead : headerSize ≤ buf.length := Nat.not_lt.mp hshort
    cases htag : (Kind.ofWord? (tagWord buf) : Option κ) with
    | none => exact ⟨_, _, .unknown hhead htag⟩
    | some tag =>
      by_cases hover : limit < (lengthWord buf).toNat
      · exact ⟨_, _, .oversized hhead htag hover⟩
      · have hlimit : (lengthWord buf).toNat ≤ limit := Nat.not_lt.mp hover
        by_cases hpart : buf.length < headerSize + (lengthWord buf).toNat
        · exact ⟨_, _, .incomplete hhead htag hlimit hpart⟩
        · have hcount : (lengthWord buf).toNat =
              ((buf.drop headerSize).take (lengthWord buf).toNat).length := by
            rw [List.length_take, List.length_drop]
            omega
          let m : Message κ := ⟨⟨tag, lengthWord buf⟩, _, hcount⟩
          exact ⟨.ok (some m), _, .whole htag hlimit (Nat.not_lt.mp hpart) rfl rfl⟩

/-- **The step comes to exactly the listed outcomes.** -/
theorem decodeIn_eq_iff {limit : Nat} {buf rest : List UInt8}
    {answer : Except Fault (Option (Message κ))} :
    decodeIn limit buf = (answer, rest) ↔ Taken limit buf answer rest := by
  constructor
  · intro h
    obtain ⟨answer', rest', htaken⟩ := exists_taken (κ := κ) limit buf
    have heq : (answer, rest) = (answer', rest') := h.symm.trans htaken.decodeIn_eq
    cases heq
    exact htaken
  · exact Taken.decodeIn_eq

/-! ### The step on the buffer and `decode` -/

theorem split?_of_le {n : Nat} {buf : List UInt8} (h : n ≤ buf.length) :
    Bytes.split? n buf = some (buf.take n, buf.drop n) :=
  Bytes.split?_eq_some_iff.mpr ⟨(List.take_append_drop n buf).symm, List.length_take_of_le h⟩

/-- The step on the buffer is `decode` with the buffer kept beside it. -/
theorem decodeIn_eq_settled (limit : Nat) (buf : List UInt8) :
    decodeIn (κ := κ) limit buf = settled buf (decode limit buf) := by
  unfold decodeIn decode
  by_cases hshort : buf.length < headerSize
  · rw [if_pos hshort, Bytes.split?_eq_none_iff.mpr hshort]
    rfl
  · rw [if_neg hshort, split?_of_le (Nat.not_lt.mp hshort)]
    simp only
    cases (Header.ofBytes (buf.take headerSize) : Except Fault (Header κ)) with
    | error e => rfl
    | ok header =>
      simp only
      by_cases hover : limit < header.size.toNat
      · rw [if_pos hover, if_pos hover]
        rfl
      · rw [if_neg hover, if_neg hover, splitBody_eq]
        have hdrop : (buf.drop headerSize).length = buf.length - headerSize := List.length_drop
        by_cases hpart : buf.length < headerSize + header.size.toNat
        · have hnone : Bytes.split? header.size.toNat (buf.drop headerSize) = none :=
            Bytes.split?_eq_none_iff.mpr (by omega)
          rw [if_pos hpart]
          split
          · rfl
          · next hsome =>
            rw [hnone] at hsome
            cases hsome
        · have hle : header.size.toNat ≤ (buf.drop headerSize).length := by omega
          have hsome := split?_of_le hle
          rw [if_neg hpart]
          split
          · next hnone =>
            rw [hsome] at hnone
            cases hnone
          · next body after hsome' =>
            have hcount := (Bytes.split?_eq_some_iff.mp hsome').2
            rw [hsome] at hsome'
            cases hsome'
            have hbuilt : Message.ofBody header.tag ((buf.drop headerSize).take header.size.toNat) =
                .ok ⟨header, _, hcount.symm⟩ := Message.ofBody_eq_ok_iff.mpr ⟨rfl, rfl⟩
            rw [hbuilt]
            rfl

/-! ### What is left when nothing was taken -/

/-- Only a message takes bytes off. -/
theorem Taken.rest_eq {limit : Nat} {buf rest : List UInt8}
    {answer : Except Fault (Option (Message κ))} (h : Taken limit buf answer rest)
    (hnone : ∀ m, answer ≠ .ok (some m)) : rest = buf := by
  cases h with
  | short | unknown | oversized | incomplete => rfl
  | whole => exact absurd rfl (hnone _)

theorem endsConnection_of_decode {limit : Nat} {buf : List UInt8} {e : Fault}
    (h : (decode limit buf : Answer κ) = .error e) : e.endsConnection = true := by
  rw [decode_eq_iff] at h
  cases h with
  | unknown => rfl
  | oversized => rfl

theorem endsConnection_of_encode {limit : Nat} {m : Message κ} {e : Fault}
    (h : encode limit m = .error e) : e.endsConnection = true := by
  obtain ⟨-, rfl⟩ := encode_eq_error_iff.mp h
  rfl

/-! ### The whole of one step -/

/-- What one step of the decoder does with a buffer. -/
structure Exact (κ : Type) [Kind κ] (limit : Nat) (buf : List UInt8) : Prop where
  /-- The step on the buffer says what `decode` says. -/
  step : decodeIn (κ := κ) limit buf = settled buf (decode limit buf)
  /-- Its outcomes are the listed ones, and each of them where the list has it. -/
  grammar : ∀ (answer : Except Fault (Option (Message κ))) (rest : List UInt8),
    decodeIn limit buf = (answer, rest) ↔ Taken limit buf answer rest
  /-- The message is built whenever the header and the body have been taken off. -/
  built : ∀ header : Header κ, Header.ofBytes (buf.take headerSize) = .ok header →
    headerSize + header.size.toNat ≤ buf.length →
      ∃ m, Message.ofBody header.tag (splitBody header.size.toNat (buf.drop headerSize)).1 = .ok m
  /-- A step that yields no message leaves the buffer, and the next step says the same. -/
  kept : ∀ (answer : Except Fault (Option (Message κ))) (rest : List UInt8),
    decodeIn limit buf = (answer, rest) → (∀ m, answer ≠ .ok (some m)) →
      rest = buf ∧ decodeIn limit rest = (answer, rest)
  /-- A failure to decode ends the connection. -/
  decodeFatal : ∀ e, (decode limit buf : Answer κ) = .error e → e.endsConnection = true
  /-- And so does a failure to encode. -/
  encodeFatal : ∀ (m : Message κ) e, encode limit m = .error e → e.endsConnection = true

/-- **One step of the decoder accepts exactly the frames**, says what is wrong in a fixed order, and
takes nothing off the buffer unless it takes a whole frame. -/
theorem decode_exact (limit : Nat) (buf : List UInt8) : Exact κ limit buf where
  step := decodeIn_eq_settled limit buf
  grammar _ _ := decodeIn_eq_iff
  built header _ _ := ofBody_splitBody header (buf.drop headerSize)
  kept answer rest h hnone := by
    have hrest : rest = buf := (decodeIn_eq_iff.mp h).rest_eq hnone
    refine ⟨hrest, ?_⟩
    rw [hrest] at h ⊢
    exact h
  decodeFatal _ := endsConnection_of_decode
  encodeFatal _ _ := endsConnection_of_encode

end Frame
end Parley

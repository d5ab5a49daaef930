import Parley.Proofs.Decoding

/-!
# Parley.Proofs.Stream — streams of frames in pieces

`drain` takes all frames off a buffer and `feed` does so after every piece of a stream.  The relation
`Reads` carries both, and every reader that keeps a buffer: it says that the work left on a stream is
the work on the buffer, whatever follows.  Main statements: a stream that was encoded is decoded to
the messages that went in, however it is cut (`feed_encoded_stream`), and any stream at all is split
into frames and a remainder the same way, however it is cut (`feed_any_stream`).
-/

namespace Parley.Frame

variable {κ : Type}

/-! ### Draining, case by case -/

/-- The same after some messages that came off earlier. -/
def Drained.after (ms : List (Message κ)) (d : Drained κ) : Drained κ :=
  { d with messages := ms ++ d.messages }

namespace Drained

@[simp] theorem messages_after (ms : List (Message κ)) (d : Drained κ) :
    (d.after ms).messages = ms ++ d.messages := rfl

@[simp] theorem rest_after (ms : List (Message κ)) (d : Drained κ) : (d.after ms).rest = d.rest := rfl

@[simp] theorem fault_after (ms : List (Message κ)) (d : Drained κ) :
    (d.after ms).fault = d.fault := rfl

@[simp] theorem after_nil (d : Drained κ) : d.after [] = d := rfl

theorem after_after (ms ns : List (Message κ)) (d : Drained κ) :
    (d.after ns).after ms = d.after (ms ++ ns) := by
  simp [after]

end Drained

variable [Kind κ]

theorem drain_of_none {limit : Nat} {buf : List UInt8}
    (h : (decode limit buf : Answer κ) = .ok none) :
    (drain limit buf : Drained κ) = ⟨[], buf, none⟩ := by
  rw [drain]
  split
  · rfl
  · next h' => rw [h] at h'; cases h'
  · next h' => rw [h] at h'; cases h'

theorem drain_of_fault {limit : Nat} {buf : List UInt8} {e : Fault}
    (h : (decode limit buf : Answer κ) = .error e) :
    (drain limit buf : Drained κ) = ⟨[], buf, some e⟩ := by
  rw [drain]
  split
  · next h' => rw [h] at h'; cases h'
  · next h' => rw [h] at h'; cases h'; rfl
  · next h' => rw [h] at h'; cases h'

theorem drain_of_message {limit : Nat} {buf rest : List UInt8} {m : Message κ}
    (h : decode limit buf = .ok (some (m, rest))) :
    drain limit buf = (drain limit rest).after [m] := by
  rw [drain]
  split
  · next h' => rw [h] at h'; cases h'
  · next h' => rw [h] at h'; cases h'
  · next h' => rw [h] at h'; cases h'; rfl

/-- What the decoder said last: it wants more bytes, or it failed. -/
theorem decode_rest_drain (limit : Nat) (buf : List UInt8) :
    (decode limit (drain limit buf : Drained κ).rest :
        Answer κ) =
      match (drain limit buf : Drained κ).fault with
      | none => .ok none
      | some e => .error e := by
  fun_induction drain (κ := κ) limit buf with
  | case1 buf h => exact h
  | case2 buf e h => exact h
  | case3 buf m rest h _ _ ih => exact ih

/-- Every frame takes eight bytes at least. -/
theorem length_messages_drain (limit : Nat) (buf : List UInt8) :
    8 * (drain limit buf : Drained κ).messages.length ≤ buf.length := by
  fun_induction drain (κ := κ) limit buf with
  | case1 buf h => simp
  | case2 buf e h => simp
  | case3 buf m rest h _ after ih =>
    have hlen := length_of_decode h
    simp only [Message.total, headerSize] at hlen
    show 8 * ((drain limit rest : Drained κ).messages.length + 1) ≤ buf.length
    omega

/-- Nothing is lost: the frames and the remainder make up the buffer. -/
theorem bytes_drain (hk : Kind.ReadWrites κ) (limit : Nat) (buf : List UInt8) :
    (drain limit buf : Drained κ).messages.flatMap bytes ++ (drain limit buf : Drained κ).rest
      = buf := by
  fun_induction drain (κ := κ) limit buf with
  | case1 buf h => rfl
  | case2 buf e h => rfl
  | case3 buf m rest h _ after ih =>
    rw [List.flatMap_cons, List.append_assoc, ih]
    exact (eq_bytes_append_of_decode hk h).symm

/-! ### Streams that are read through a buffer -/

/-- Of a stream that begins with `input`, the messages `ms` have been taken and `buf` is left:
whatever follows, the work on the stream is the work on the buffer. -/
def Reads (limit : Nat) (input : List UInt8) (ms : List (Message κ)) (buf : List UInt8) : Prop :=
  ∀ more, drain limit (input ++ more) = (drain limit (buf ++ more)).after ms

namespace Reads

variable {limit : Nat} {input buf rest : List UInt8} {ms : List (Message κ)} {m : Message κ}

theorem start (limit : Nat) : Reads (κ := κ) limit [] [] [] := fun _ => rfl

theorem refl (limit : Nat) (buf : List UInt8) : Reads (κ := κ) limit buf [] buf := fun _ => rfl

/-- More bytes arrive. -/
theorem extend (h : Reads limit input ms buf) (bs : List UInt8) :
    Reads limit (input ++ bs) ms (buf ++ bs) := by
  intro more
  rw [List.append_assoc, List.append_assoc]
  exact h (bs ++ more)

/-- A message is taken. -/
theorem take (h : Reads limit input ms buf) (hd : decode limit buf = .ok (some (m, rest))) :
    Reads limit input (ms ++ [m]) rest := by
  intro more
  rw [h more, drain_of_message (decode_append_of_message hd more), Drained.after_after]

theorem trans {buf' : List UInt8} {ms' : List (Message κ)} (h : Reads limit input ms buf)
    (h' : Reads limit buf ms' buf') : Reads limit input (ms ++ ms') buf' := by
  intro more
  rw [h more, h' more, Drained.after_after]

theorem drain_eq (h : Reads limit input ms buf) :
    drain limit input = (drain limit buf).after ms := by
  simpa using h []

/-- What has been taken is the beginning of what there is to take. -/
theorem messages_isPrefix (h : Reads limit input ms buf) (more : List UInt8) :
    ms <+: (drain limit (input ++ more)).messages := by
  rw [h more, Drained.messages_after]
  exact List.prefix_append _ _

end Reads

/-- Draining is reading through a buffer. -/
theorem reads_drain (limit : Nat) (buf : List UInt8) :
    Reads limit buf (drain limit buf : Drained κ).messages (drain limit buf : Drained κ).rest := by
  fun_induction drain (κ := κ) limit buf with
  | case1 buf h => exact .refl limit buf
  | case2 buf e h => exact .refl limit buf
  | case3 buf m rest h _ after ih => exact ((Reads.refl limit buf).take h).trans ih

theorem drain_append (limit : Nat) (buf more : List UInt8) :
    (drain limit (buf ++ more) : Drained κ) =
      (drain limit ((drain limit buf : Drained κ).rest ++ more)).after
        (drain limit buf : Drained κ).messages :=
  reads_drain limit buf more

/-! ### Feeding a stream in pieces -/

/-- Put the pieces of a stream behind a buffer one after the other and take all frames off after
each, up to the first failure. -/
def feed (limit : Nat) (buf : List UInt8) : List (List UInt8) → Drained κ
  | [] => ⟨[], buf, none⟩
  | chunk :: chunks =>
    let d := drain limit (buf ++ chunk)
    match d.fault with
    | some _ => d
    | none => (feed limit d.rest chunks).after d.messages

/-- **Feeding a stream in pieces is draining it at once**, but for the bytes that a failure keeps
from being fed. -/
theorem drain_flatten_eq_feed {limit : Nat} {buf : List UInt8}
    (h : (decode limit buf : Answer κ) = .ok none)
    (chunks : List (List UInt8)) :
    ∃ unread, (drain limit (buf ++ chunks.flatten) : Drained κ) =
        { feed limit buf chunks with
          rest := (feed limit buf chunks : Drained κ).rest ++ unread } ∧
      ((feed limit buf chunks : Drained κ).fault = none → unread = []) := by
  induction chunks generalizing buf with
  | nil => exact ⟨[], by simp [feed, drain_of_none h], fun _ => rfl⟩
  | cons chunk chunks ih =>
    have hlast := decode_rest_drain (κ := κ) limit (buf ++ chunk)
    rw [List.flatten_cons, ← List.append_assoc, drain_append, feed]
    cases hf : (drain limit (buf ++ chunk) : Drained κ).fault with
    | some e =>
      rw [hf] at hlast
      refine ⟨chunks.flatten, ?_, fun hn => by simp [hf] at hn⟩
      rw [drain_of_fault (decode_append_of_fault hlast chunks.flatten)]
      simp [Drained.after, hf]
    | none =>
      rw [hf] at hlast
      obtain ⟨unread, hd, hnone⟩ := ih hlast
      exact ⟨unread, by rw [hd]; rfl, hnone⟩

/-- From the start, in three equations. -/
theorem feed_eq_drain (limit : Nat) (chunks : List (List UInt8)) :
    (feed limit [] chunks : Drained κ).messages = (drain limit chunks.flatten : Drained κ).messages ∧
      (feed limit [] chunks : Drained κ).fault = (drain limit chunks.flatten : Drained κ).fault ∧
      ((feed limit [] chunks : Drained κ).fault = none →
        (feed limit [] chunks : Drained κ).rest = (drain limit chunks.flatten : Drained κ).rest) := by
  obtain ⟨unread, hd, hnone⟩ := drain_flatten_eq_feed (decode_nil (κ := κ) limit) chunks
  rw [List.nil_append] at hd
  refine ⟨by rw [hd], by rw [hd], fun h => ?_⟩
  rw [hd, hnone h, List.append_nil]

/-! ### Streams that were encoded -/

/-- Write a message behind a buffer, which stays as it is when the message is refused. -/
def put (limit : Nat) (buf : List UInt8) (m : Message κ) : List UInt8 × Option Fault :=
  match encode limit m with
  | .ok bs => (buf ++ bs, none)
  | .error e => (buf, some e)

/-- Write messages behind a buffer one after the other: the buffer in the end, and for each message
why it was refused, if it was. -/
def putAll (limit : Nat) (buf : List UInt8) :
    List (Message κ) → List UInt8 × List (Option Fault)
  | [] => (buf, [])
  | m :: ms =>
    let o := put limit buf m
    let p := putAll limit o.1 ms
    (p.1, o.2 :: p.2)

theorem put_of_le {limit : Nat} {m : Message κ} (h : m.body.length ≤ limit) (buf : List UInt8) :
    put limit buf m = (buf ++ bytes m, none) := by
  rw [put, encode_eq_ok_iff.mpr ⟨h, rfl⟩]

theorem put_of_lt {limit : Nat} {m : Message κ} (h : limit < m.body.length) (buf : List UInt8) :
    put limit buf m = (buf, some (.oversized m.body.length)) := by
  rw [put, encode_eq_error_iff.mpr ⟨h, rfl⟩]

/-- The messages whose writing succeeded, in order. -/
def accepted (limit : Nat) (buf : List UInt8) (ms : List (Message κ)) : List (Message κ) :=
  ((ms.zip (putAll limit buf ms).2).filter (·.2.isNone)).map (·.1)

theorem accepted_cons_of_le {limit : Nat} {m : Message κ} (h : m.body.length ≤ limit)
    (buf : List UInt8) (ms : List (Message κ)) :
    accepted limit buf (m :: ms) = m :: accepted limit (buf ++ bytes m) ms := by
  simp [accepted, putAll, put_of_le h]

theorem accepted_cons_of_lt {limit : Nat} {m : Message κ} (h : limit < m.body.length)
    (buf : List UInt8) (ms : List (Message κ)) :
    accepted limit buf (m :: ms) = accepted limit buf ms := by
  simp [accepted, putAll, put_of_lt h]

/-- The buffer gets the frames of these messages and no other byte. -/
theorem fst_putAll (limit : Nat) (buf : List UInt8) (ms : List (Message κ)) :
    (putAll limit buf ms).1 = buf ++ (accepted limit buf ms).flatMap bytes := by
  induction ms generalizing buf with
  | nil => simp [putAll, accepted]
  | cons m ms ih =>
    rcases Nat.lt_or_ge limit m.body.length with h | h
    · rw [accepted_cons_of_lt h, putAll, put_of_lt h, ih]
    · rw [accepted_cons_of_le h, putAll, put_of_le h, ih]
      simp

theorem le_of_mem_accepted (limit : Nat) (buf : List UInt8) (ms : List (Message κ)) :
    ∀ m ∈ accepted limit buf ms, m.body.length ≤ limit := by
  induction ms generalizing buf with
  | nil => simp [accepted]
  | cons n ms ih =>
    rcases Nat.lt_or_ge limit n.body.length with hn | hn
    · rw [accepted_cons_of_lt hn]
      exact ih buf
    · rw [accepted_cons_of_le hn]
      intro m hm
      rcases List.mem_cons.mp hm with rfl | hm
      · exact hn
      · exact ih _ m hm

/-- Frames within the limit are read back one by one. -/
theorem reads_flatMap_bytes (hk : Kind.WrittenReads κ) {limit : Nat} {ms : List (Message κ)}
    (h : ∀ m ∈ ms, m.body.length ≤ limit) : Reads limit (ms.flatMap bytes) ms [] := by
  induction ms with
  | nil => exact .start limit
  | cons m ms ih =>
    have hm : Reads limit (bytes m ++ ms.flatMap bytes) [m] (ms.flatMap bytes) :=
      (Reads.refl limit _).take (decode_bytes_append hk (h m List.mem_cons_self) _)
    exact hm.trans (ih fun n hn => h n (List.mem_cons_of_mem m hn))

/-- Whatever is the beginning of written messages is read as the first of them. -/
theorem messages_drain_isPrefix (hk : Kind.WrittenReads κ) (limit : Nat) {buf : List UInt8}
    {ms : List (Message κ)} (h : buf <+: ms.flatMap bytes) :
    (drain limit buf : Drained κ).messages <+: ms := by
  induction ms generalizing buf with
  | nil =>
    obtain rfl := List.prefix_nil.mp h
    have hnone : (drain limit [] : Drained κ) = ⟨[], [], none⟩ := drain_of_none (decode_nil limit)
    exact List.prefix_nil.mpr (congrArg Drained.messages hnone)
  | cons m ms ih =>
    obtain ⟨more, hmore⟩ := h
    rw [List.flatMap_cons] at hmore
    cases hd : (decode limit buf : Answer κ) with
    | error e =>
      rw [drain_of_fault hd]
      exact List.nil_prefix
    | ok answer =>
      cases answer with
      | none =>
        rw [drain_of_none hd]
        exact List.nil_prefix
      | some p =>
        have hlong := decode_append_of_message hd more
        rw [hmore] at hlong
        rcases Nat.lt_or_ge limit m.body.length with hm | hm
        · rw [decode_bytes_append_of_lt hk hm] at hlong
          cases hlong
        · rw [decode_bytes_append hk hm] at hlong
          obtain ⟨rfl, hrest⟩ : m = p.1 ∧ ms.flatMap bytes = p.2 ++ more := by
            simpa using hlong
          rw [drain_of_message hd, Drained.messages_after, List.singleton_append]
          exact List.cons_prefix_cons.mpr ⟨rfl, ih ⟨more, hrest.symm⟩⟩

/-- Written messages are all read, unless one is refused. -/
theorem messages_drain_flatMap (hk : Kind.WrittenReads κ) {limit : Nat} {ms : List (Message κ)}
    (h : (drain limit (ms.flatMap bytes) : Drained κ).fault = none) :
    (drain limit (ms.flatMap bytes) : Drained κ).messages = ms := by
  induction ms with
  | nil =>
    rw [List.flatMap_nil, drain_of_none (decode_nil limit)]
  | cons m ms ih =>
    rw [List.flatMap_cons] at h ⊢
    rcases Nat.lt_or_ge limit m.body.length with hm | hm
    · rw [drain_of_fault (decode_bytes_append_of_lt hk hm _)] at h
      cases h
    · rw [drain_of_message (decode_bytes_append hk hm _)] at h ⊢
      rw [Drained.messages_after, ih h]
      rfl

/-- **Round trip of a stream.**  Writing a message fails exactly when its body is over the limit, with
the length of the body, and then leaves the buffer alone; and however the bytes of many messages are
cut, feeding the pieces gives the messages whose writing succeeded, and nothing is left over. -/
theorem feed_encoded_stream (hk : Kind.WrittenReads κ) (limit : Nat) (ms : List (Message κ)) :
    (∀ (buf : List UInt8) (m : Message κ),
      ((put limit buf m).2 ≠ none ↔ limit < m.body.length) ∧
        ∀ e, (put limit buf m).2 = some e →
          e = .oversized m.body.length ∧ (put limit buf m).1 = buf) ∧
      ∀ chunks : List (List UInt8), chunks.flatten = (putAll limit [] ms).1 →
        feed limit [] chunks = ⟨accepted limit [] ms, [], none⟩ := by
  refine ⟨fun buf m => ?_, fun chunks hchunks => ?_⟩
  · rcases Nat.lt_or_ge limit m.body.length with h | h
    · rw [put_of_lt h]
      exact ⟨⟨fun _ => h, fun _ => nofun⟩, fun e he => ⟨(Option.some.inj he).symm, rfl⟩⟩
    · rw [put_of_le h]
      exact ⟨⟨fun hne => absurd rfl hne, fun hlt => absurd h (Nat.not_le.mpr hlt)⟩, nofun⟩
  · obtain ⟨hmessages, hfault, hrest⟩ := feed_eq_drain (κ := κ) limit chunks
    have hread := (reads_flatMap_bytes hk (le_of_mem_accepted limit [] ms)).drain_eq
    rw [fst_putAll, List.nil_append] at hchunks
    rw [← hchunks, drain_of_none (decode_nil limit)] at hread
    rw [hread] at hmessages hfault hrest
    have h := hrest hfault
    cases hd : (feed limit [] chunks : Drained κ) with
    | mk messages rest fault =>
      rw [hd] at hmessages hfault h
      simp only [Drained.messages_after, Drained.fault_after, Drained.rest_after,
        List.append_nil] at hmessages hfault h
      rw [hmessages, hfault, h]

/-- Two messages of a game and one between them that is too long, cut inside both headers and the
body, with an empty piece. -/
theorem feed_encoded_game :
    Kind.WrittenReads GameTag ∧
      feed 4 [] [[1, 0, 0], [], [0, 2, 0, 0, 0, 7], [8, 0, 0, 0, 0], [0, 0, 0, 0]] =
        (⟨[⟨⟨.chat, 2⟩, [7, 8], rfl⟩, ⟨⟨.ping, 0⟩, [], rfl⟩], [], none⟩ : Drained GameTag) :=
  ⟨Kind.gameTag_writtenReads,
    (feed_encoded_stream Kind.gameTag_writtenReads 4
      [⟨⟨.chat, 2⟩, [7, 8], rfl⟩, ⟨⟨.position, 5⟩, [1, 2, 3, 4, 5], rfl⟩, ⟨⟨.ping, 0⟩, [], rfl⟩]).2
      [[1, 0, 0], [], [0, 2, 0, 0, 0, 7], [8, 0, 0, 0, 0], [0, 0, 0, 0]] (by decide)⟩

/-! ### Streams from anywhere -/

/-- A complete frame: a known tag, a length within the limit, and a body of that length. -/
def IsFrame (κ : Type) [Kind κ] (limit : Nat) (bs : List UInt8) : Prop :=
  ∃ (w n : UInt32) (body : List UInt8), bs = Header.words w n ++ body ∧
    (Kind.ofWord? w : Option κ).isSome ∧ body.length = n.toNat ∧ n.toNat ≤ limit

/-- A frame in front of a buffer is taken off. -/
theorem exists_decode_of_isFrame {limit : Nat} {frame : List UInt8} (h : IsFrame κ limit frame)
    (rest : List UInt8) :
    ∃ m : Message κ, decode limit (frame ++ rest) = .ok (some (m, rest)) := by
  obtain ⟨w, n, body, rfl, hw, hbody, hn⟩ := h
  obtain ⟨tag, htag⟩ := Option.isSome_iff_exists.mp hw
  refine ⟨⟨⟨tag, n⟩, body, hbody.symm⟩, decode_eq_iff.mpr ?_⟩
  rw [List.append_assoc]
  exact @Decoded.whole κ _ limit w rest ⟨⟨tag, n⟩, body, hbody.symm⟩ htag (by simp only; omega)

/-- What is taken off is a frame. -/
theorem exists_isFrame_of_decode {limit : Nat} {buf rest : List UInt8} {m : Message κ}
    (h : decode limit buf = .ok (some (m, rest))) :
    ∃ frame, IsFrame κ limit frame ∧ buf = frame ++ rest := by
  cases decode_eq_iff.mp h with
  | @whole w _ _ hw hn =>
    refine ⟨Header.words w m.header.size ++ m.body, ?_, (List.append_assoc _ _ _).symm⟩
    exact ⟨w, m.header.size, m.body, rfl, by simp [hw], m.size_eq.symm, m.size_eq ▸ hn⟩

/-- Nothing is left and nothing failed exactly on a row of frames. -/
theorem drain_complete_iff {limit : Nat} {buf : List UInt8} :
    (drain limit buf : Drained κ).fault = none ∧ (drain limit buf : Drained κ).rest = [] ↔
      ∃ frames : List (List UInt8), buf = frames.flatten ∧ ∀ f ∈ frames, IsFrame κ limit f := by
  constructor
  · fun_induction drain (κ := κ) limit buf with
    | case1 buf h => exact fun ⟨_, hrest⟩ => ⟨[], hrest, by simp⟩
    | case2 buf e h => exact fun ⟨hfault, _⟩ => nomatch hfault
    | case3 buf m rest h _ after ih =>
      intro hafter
      obtain ⟨frame, hframe, hbuf⟩ := exists_isFrame_of_decode h
      obtain ⟨frames, hrest, hframes⟩ := ih hafter
      refine ⟨frame :: frames, by rw [hbuf, hrest, List.flatten_cons], fun f hf => ?_⟩
      rcases List.mem_cons.mp hf with rfl | hf
      · exact hframe
      · exact hframes f hf
  · rintro ⟨frames, rfl, hframes⟩
    induction frames with
    | nil =>
      rw [List.flatten_nil, drain_of_none (decode_nil limit)]
      exact ⟨rfl, rfl⟩
    | cons frame frames ih =>
      obtain ⟨m, hm⟩ :=
        exists_decode_of_isFrame (hframes frame List.mem_cons_self) frames.flatten
      rw [List.flatten_cons, drain_of_message hm]
      exact ih fun f hf => hframes f (List.mem_cons_of_mem frame hf)

theorem decodeEnd_of_none {limit : Nat} {buf : List UInt8}
    (h : (decode limit buf : Answer κ) = .ok none) :
    (decodeEnd limit buf : Answer κ) = .ok none ↔ buf = [] := by
  rw [decodeEnd, h]
  cases buf with
  | nil => simp
  | cons b bs => simp

theorem decodeEnd_of_fault {limit : Nat} {buf : List UInt8} {e : Fault}
    (h : (decode limit buf : Answer κ) = .error e) :
    (decodeEnd limit buf : Answer κ) = .error e := by
  rw [decodeEnd, h]

/-- The end of the stream is accepted exactly when nothing failed and nothing is left. -/
theorem decodeEnd_rest_drain {limit : Nat} {buf : List UInt8} :
    (decodeEnd limit (drain limit buf : Drained κ).rest :
        Answer κ) = .ok none ↔
      (drain limit buf : Drained κ).fault = none ∧ (drain limit buf : Drained κ).rest = [] := by
  have hlast := decode_rest_drain (κ := κ) limit buf
  cases hf : (drain limit buf : Drained κ).fault with
  | none =>
    rw [hf] at hlast
    rw [decodeEnd_of_none hlast]
    simp
  | some e =>
    rw [hf] at hlast
    rw [decodeEnd_of_fault hlast]
    simp

/-- A failure leaves the bytes of the bad frame in the buffer, so that it is met again. -/
theorem decode_rest_feed (limit : Nat) (buf : List UInt8) (chunks : List (List UInt8)) {e : Fault}
    (h : (feed limit buf chunks : Drained κ).fault = some e) :
    (decode limit (feed limit buf chunks : Drained κ).rest :
      Answer κ) = .error e := by
  induction chunks generalizing buf with
  | nil => cases h
  | cons chunk chunks ih =>
    have hlast := decode_rest_drain (κ := κ) limit (buf ++ chunk)
    rw [feed] at h ⊢
    cases hf : (drain limit (buf ++ chunk) : Drained κ).fault with
    | some e' =>
      simp only [hf] at h hlast ⊢
      rw [hlast]
      exact congrArg _ (Option.some.inj h)
    | none =>
      simp only [hf] at h ⊢
      exact ih _ h

/-- **Any stream.**  Repeated decoding ends with one message for every eight bytes at most and with
the decoder wanting more or failing; the frames of the messages and what is left make up the stream;
cutting the stream changes neither the messages nor the outcome; and the end of the stream is
accepted exactly when the stream is a row of complete frames. -/
theorem feed_any_stream (hk : Kind.ReadWrites κ) (limit : Nat) (b : List UInt8) :
    (drain limit b : Drained κ).messages.length ≤ b.length / 8 ∧
      (decode limit (drain limit b : Drained κ).rest :
          Answer κ) =
        (match (drain limit b : Drained κ).fault with
          | none => .ok none
          | some e => .error e) ∧
      (drain limit b : Drained κ).messages.flatMap bytes ++ (drain limit b : Drained κ).rest = b ∧
      ∀ chunks : List (List UInt8), chunks.flatten = b →
        (feed limit [] chunks : Drained κ).messages = (drain limit b : Drained κ).messages ∧
          (feed limit [] chunks : Drained κ).fault = (drain limit b : Drained κ).fault ∧
          ((decodeEnd limit (feed limit [] chunks : Drained κ).rest :
              Answer κ) = .ok none ↔
            ∃ frames : List (List UInt8), b = frames.flatten ∧ ∀ f ∈ frames, IsFrame κ limit f) := by
  have hlen := length_messages_drain (κ := κ) limit b
  refine ⟨by omega, decode_rest_drain limit b, bytes_drain hk limit b, ?_⟩
  rintro chunks rfl
  obtain ⟨hmessages, hfault, hrest⟩ := feed_eq_drain (κ := κ) limit chunks
  refine ⟨hmessages, hfault, ?_⟩
  rw [← drain_complete_iff]
  cases hf : (feed limit [] chunks : Drained κ).fault with
  | none => rw [hrest hf, decodeEnd_rest_drain]
  | some e =>
    rw [decodeEnd_of_fault (decode_rest_feed limit [] chunks hf), ← hfault, hf]
    simp

/-- A good frame and the header of a bad one, cut inside both headers. -/
theorem feed_bad_game :
    let b : List UInt8 := [1, 0, 0, 0, 1, 0, 0, 0, 7, 9, 0, 0, 0, 5, 0, 0, 0]
    let chunks : List (List UInt8) := [[1, 0, 0], [0, 1, 0, 0, 0, 7, 9, 0], [0, 0, 5, 0, 0, 0]]
    Kind.ReadWrites GameTag ∧ chunks.flatten = b ∧
      (feed 4 [] chunks : Drained GameTag).messages = (drain 4 b : Drained GameTag).messages ∧
      (feed 4 [] chunks : Drained GameTag).fault = (drain 4 b : Drained GameTag).fault := by
  intro b chunks
  have h := (feed_any_stream Kind.gameTag_readWrites 4 b).2.2.2 chunks rfl
  exact ⟨Kind.gameTag_readWrites, rfl, h.1, h.2.1⟩

end Parley.Frame

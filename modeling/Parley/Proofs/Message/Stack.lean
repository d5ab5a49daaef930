import Parley.Proofs.Message.Editing

/-!
# Parley.Proofs.Message.Stack — what is pushed comes off again

A value of a layout is read back from its bytes whatever comes after them (`decode_encode_append`),
and written back as the bytes it was read from (`encode_decode`); both are by induction on the layout,
with the items of an array counted off one width after the other.

So taking an item off a body undoes putting it there (`edited_pop_of_push`), and putting it back
undoes taking it off (`exists_edited_pop`).  Of items put on in a row the last comes off first, each as
it was put on, down to the message from before (`last_in_first_out`).
-/

namespace Parley

theorem Bytes.bound_eq_two_pow (w : Nat) : bound w = 2 ^ (8 * w) := by
  rw [Nat.pow_mul]
  rfl

namespace Layout

/-! ### Numbers -/

theorem ofNat_toNat_take (w : Nat) (v : BitVec (8 * w)) (more : List UInt8) :
    BitVec.ofNat (8 * w) (Bytes.toNat ((Bytes.ofNat w v.toNat ++ more).take w)) = v := by
  have hv : v.toNat < Bytes.bound w := by
    rw [Bytes.bound_eq_two_pow]
    exact v.isLt
  rw [List.take_left' (Bytes.length_ofNat w _), Bytes.toNat_ofNat_of_lt hv, BitVec.ofNat_toNat,
    BitVec.setWidth_eq]

theorem ofNat_toNat_ofNat {w : Nat} {bs : List UInt8} (h : w ≤ bs.length) :
    Bytes.ofNat w (BitVec.ofNat (8 * w) (Bytes.toNat (bs.take w))).toNat = bs.take w := by
  have hlength : (bs.take w).length = w := List.length_take_of_le h
  have hlt : Bytes.toNat (bs.take w) < 2 ^ (8 * w) := by
    have hbound := Bytes.toNat_lt (bs.take w)
    rwa [hlength, Bytes.bound_eq_two_pow] at hbound
  have hback := Bytes.ofNat_toNat (bs.take w)
  rw [hlength] at hback
  rw [BitVec.toNat_ofNat, Nat.mod_eq_of_lt hlt, hback]

/-! ### The items of an array -/

variable {item : Layout}

/-- As many widths in, the bytes of the item of that index begin. -/
theorem drop_flatMap_encode (vs : List item.Value) (more : List UInt8) {i : Nat}
    (hi : i < vs.length) :
    ∃ tail, (vs.flatMap item.encode ++ more).drop (i * item.width) = item.encode vs[i] ++ tail := by
  induction vs generalizing i with
  | nil => exact absurd hi (Nat.not_lt_zero i)
  | cons v vs ih =>
    rw [List.flatMap_cons, List.append_assoc]
    cases i with
    | zero => exact ⟨vs.flatMap item.encode ++ more, by rw [Nat.zero_mul]; rfl⟩
    | succ i =>
      obtain ⟨tail, htail⟩ := ih (Nat.lt_of_succ_lt_succ hi)
      have hskip : (i + 1) * item.width = (item.encode v).length + i * item.width := by
        rw [length_encode, Nat.succ_mul, Nat.add_comm]
      exact ⟨tail, by rw [hskip, List.drop_length_add_append, htail]; rfl⟩

/-- Items that were read one width after the other are written back as the bytes they cover. -/
theorem flatMap_encode_decode (hitem : ∀ bs : List UInt8, item.width ≤ bs.length →
      item.encode (item.decode bs) = bs.take item.width)
    (count : Nat) (bs : List UInt8) (h : count * item.width ≤ bs.length) :
    (List.ofFn fun i : Fin count => item.decode (bs.drop (i * item.width))).flatMap item.encode =
      bs.take (count * item.width) := by
  induction count with
  | zero => rw [Nat.zero_mul]; rfl
  | succ count ih =>
    rw [Nat.succ_mul] at h
    have hlast : item.width ≤ (bs.drop (count * item.width)).length := by
      rw [List.length_drop]
      omega
    rw [List.ofFn_succ_last, List.flatMap_append, Nat.succ_mul, List.take_add]
    refine congrArg₂ (· ++ ·) (ih (by omega)) ?_
    rw [List.flatMap_singleton]
    exact hitem _ hlast

/-! ### Values and their bytes -/

/-- A value is read back from its bytes, whatever comes after them. -/
theorem decode_encode_append (l : Layout) (v : l.Value) (more : List UInt8) :
    l.decode (l.encode v ++ more) = v := by
  induction l generalizing more with
  | unsigned w | signed w | float w => exact ofNat_toNat_take w v more
  | array count item ih =>
    apply Vector.ext
    intro i hi
    have hlength : i < v.toList.length := by rwa [Vector.length_toList]
    obtain ⟨tail, htail⟩ := drop_flatMap_encode v.toList more hlength
    simp only [decode, encode, Vector.getElem_ofFn]
    rw [htail, ih, Vector.getElem_toList]
  | unit => rfl
  | field first rest ihf ihr =>
    simp only [decode, encode]
    rw [List.append_assoc, ihf, List.drop_left' (length_encode first v.1), ihr]

/-- What was read as a value is written back as the bytes it was read from. -/
theorem encode_decode (l : Layout) (bs : List UInt8) (h : l.width ≤ bs.length) :
    l.encode (l.decode bs) = bs.take l.width := by
  induction l generalizing bs with
  | unsigned w | signed w | float w => exact ofNat_toNat_ofNat h
  | array count item ih =>
    simp only [encode, decode, Vector.toList_ofFn]
    exact flatMap_encode_decode ih count bs h
  | unit => rfl
  | field first rest ihf ihr =>
    have hsum : first.width + rest.width ≤ bs.length := h
    have hrest : rest.width ≤ (bs.drop first.width).length := by
      rw [List.length_drop]
      omega
    simp only [encode, decode, width]
    rw [ihf bs (by omega), ihr _ hrest, List.take_add]

end Layout

namespace Message

variable {κ : Type}

/-! ### Items -/

/-- What may be put on a body in one go. -/
inductive Item where
  | value (l : Layout) (v : l.Value)
  | bytes (bs : List UInt8)

/-- What may be asked back in one go: a value of a layout, or so many bytes. -/
inductive Shape where
  | value (l : Layout)
  | bytes (n : Nat)

namespace Item

def shape : Item → Shape
  | value l _ => .value l
  | bytes bs => .bytes bs.length

/-- The bytes an item takes on a body. -/
def encode : Item → List UInt8
  | value l v => l.encode v
  | bytes bs => bs

/-- Put the item on the body. -/
def push : Item → Edit κ
  | value l v => .push l v
  | bytes bs => .pushBytes bs

/-- The reply in which the item is given back. -/
def reply : Item → Reply
  | value l v => .value l v
  | bytes bs => .bytes bs

end Item

namespace Shape

def width : Shape → Nat
  | value l => l.width
  | bytes n => n

/-- Take an item of the shape off the body. -/
def pop : Shape → Edit κ
  | value l => .pop l
  | bytes n => .popBytes n

end Shape

theorem Item.length_encode (i : Item) : i.encode.length = i.shape.width := by
  cases i with
  | value l v => exact Layout.length_encode l v
  | bytes bs => rfl

/-- An item is put on a body by appending its bytes. -/
theorem edited_push_eq_ok_iff {m n : Message κ} {i : Item} {reply : Reply} :
    m.edited i.push = .ok (reply, n) ↔
      reply = .done ∧ n.header.tag = m.header.tag ∧ n.body = m.body ++ i.encode := by
  have hpush : m.edited i.push = (m.pushBytes i.encode).map fun n => (.done, n) := by
    cases i with
    | value l v => rfl
    | bytes bs => rfl
  rw [hpush, ← pushBytes_eq_ok_iff]
  cases m.pushBytes i.encode with
  | error e => simp [Except.map]
  | ok n' => simp [Except.map, eq_comm]

/-- The item whose bytes are the last of a body is what is given back when its shape is asked for. -/
theorem edited_pop_of_body {m n : Message κ} {i : Item} (htag : n.header.tag = m.header.tag)
    (hbody : n.body = m.body ++ i.encode) : n.edited i.shape.pop = .ok (i.reply, m) := by
  have hlength : n.body.length = m.body.length + i.shape.width := by
    rw [hbody, List.length_append, i.length_encode]
  have hstart : n.body.length - i.shape.width = m.body.length := by omega
  have hrest : n.truncate m.body.length = m :=
    ext htag (by rw [body_truncate, hbody, List.take_left])
  have hpop : n.popBytes i.shape.width = .ok (i.encode, m) := by
    rw [popBytes, if_pos (by omega)]
    simp only
    rw [hstart, hrest, hbody, List.drop_left]
  cases i with
  | bytes bs =>
    show (n.popBytes bs.length).map _ = _
    rw [show n.popBytes bs.length = .ok (bs, m) from hpop]
    rfl
  | value l v =>
    have hread : l.decode (l.encode v) = v := by
      have happend := l.decode_encode_append v []
      rwa [List.append_nil] at happend
    show ((n.popBytes l.width).map _).map _ = _
    rw [show n.popBytes l.width = .ok (l.encode v, m) from hpop]
    show Except.ok (Reply.value l (l.decode (l.encode v)), m) = _
    rw [hread]
    rfl

/-- Taking off what was put on undoes it. -/
theorem edited_pop_of_push {m n : Message κ} {i : Item} {reply : Reply}
    (h : m.edited i.push = .ok (reply, n)) : n.edited i.shape.pop = .ok (i.reply, m) := by
  obtain ⟨-, htag, hbody⟩ := edited_push_eq_ok_iff.mp h
  exact edited_pop_of_body htag hbody

/-- Bytes are an item of every shape of their length. -/
theorem Shape.exists_item (s : Shape) {bs : List UInt8} (h : bs.length = s.width) :
    ∃ i : Item, i.shape = s ∧ i.encode = bs := by
  cases s with
  | value l =>
    have hwidth : bs.length = l.width := h
    have hwrite := l.encode_decode bs (Nat.le_of_eq hwidth.symm)
    rw [List.take_of_length_le (Nat.le_of_eq hwidth)] at hwrite
    exact ⟨.value l (l.decode bs), rfl, hwrite⟩
  | bytes n => exact ⟨.bytes bs, congrArg Shape.bytes h, rfl⟩

/-- What fits a body comes off it, and putting it back undoes that. -/
theorem exists_edited_pop (m : Message κ) {s : Shape} (h : s.width ≤ m.body.length) :
    ∃ (i : Item) (n : Message κ), i.shape = s ∧ m.edited s.pop = .ok (i.reply, n) ∧
      n.edited i.push = .ok (.done, m) := by
  have htail : (m.body.drop (m.body.length - s.width)).length = s.width := by
    rw [List.length_drop]
    omega
  obtain ⟨i, rfl, hencode⟩ := s.exists_item htail
  have hbody : m.body = (m.truncate (m.body.length - i.shape.width)).body ++ i.encode := by
    rw [body_truncate, hencode, List.take_append_drop]
  exact ⟨i, m.truncate (m.body.length - i.shape.width), rfl, edited_pop_of_body rfl hbody,
    edited_push_eq_ok_iff.mpr ⟨rfl, rfl, hbody⟩⟩

/-! ### Operations in a row -/

/-- Operations in a row with what they give back; one that is refused ends them. -/
def editedAll (m : Message κ) : List (Edit κ) → Except Fault (List Reply × Message κ)
  | [] => .ok ([], m)
  | ed :: eds =>
    match m.edited ed with
    | .error e => .error e
    | .ok (reply, n) => (n.editedAll eds).map fun o => (reply :: o.1, o.2)

theorem editedAll_cons_eq_ok_iff {m n : Message κ} {ed : Edit κ} {eds : List (Edit κ)}
    {replies : List Reply} :
    m.editedAll (ed :: eds) = .ok (replies, n) ↔
      ∃ reply m' rest, m.edited ed = .ok (reply, m') ∧ m'.editedAll eds = .ok (rest, n) ∧
        replies = reply :: rest := by
  rw [editedAll]
  cases m.edited ed with
  | error e => simp
  | ok o =>
    obtain ⟨reply, m'⟩ := o
    simp only [Except.ok.injEq, Prod.mk.injEq]
    cases hrest : m'.editedAll eds with
    | error e => simp [Except.map, hrest]
    | ok o' =>
      constructor
      · intro h
        cases h
        exact ⟨reply, m', o'.1, ⟨rfl, rfl⟩, hrest, rfl⟩
      · rintro ⟨_, _, rest, ⟨rfl, rfl⟩, h, rfl⟩
        rw [hrest] at h
        cases h
        rfl

/-- One row of operations after the other is a row. -/
theorem editedAll_append_of_eq_ok {m m' n : Message κ} {eds eds' : List (Edit κ)}
    {replies replies' : List Reply} (h : m.editedAll eds = .ok (replies, m'))
    (h' : m'.editedAll eds' = .ok (replies', n)) :
    m.editedAll (eds ++ eds') = .ok (replies ++ replies', n) := by
  induction eds generalizing m replies with
  | nil =>
    cases h
    exact h'
  | cons ed eds ih =>
    obtain ⟨reply, m₁, rest, hed, hrest, rfl⟩ := editedAll_cons_eq_ok_iff.mp h
    exact editedAll_cons_eq_ok_iff.mpr ⟨reply, m₁, rest ++ replies', hed, ih hrest, rfl⟩

/-- Items come off in the reverse order, down to the message they were put on. -/
theorem editedAll_pop_of_push {m n : Message κ} {items : List Item} {replies : List Reply}
    (h : m.editedAll (items.map Item.push) = .ok (replies, n)) :
    n.editedAll (items.reverse.map fun i => i.shape.pop) = .ok (items.reverse.map Item.reply, m) := by
  induction items generalizing m replies with
  | nil =>
    cases h
    rfl
  | cons i items ih =>
    obtain ⟨reply, m', rest, hpush, hrest, -⟩ := editedAll_cons_eq_ok_iff.mp h
    have hlast : m'.editedAll [i.shape.pop] = .ok ([i.reply], m) :=
      editedAll_cons_eq_ok_iff.mpr ⟨i.reply, m, [], edited_pop_of_push hpush, rfl, rfl⟩
    rw [List.reverse_cons, List.map_append, List.map_append]
    exact editedAll_append_of_eq_ok (ih hrest) hlast

/-! ### In memory -/

namespace Raw

/-- Operations in a row on a message in memory, with their replies; a refusal does not end them. -/
def applyAll (r : Raw κ) : List (Edit κ) → List (Except Fault Reply) × Raw κ
  | [] => ([], r)
  | ed :: eds =>
    let o := (r.apply ed).2.applyAll eds
    ((r.apply ed).1 :: o.1, o.2)

/-- The operations of a row are all done in memory exactly when they are done on the message, with
the same replies. -/
theorem applyAll_raw_eq_iff {m : Message κ} {eds : List (Edit κ)} {replies : List Reply}
    {r : Raw κ} : m.raw.applyAll eds = (replies.map Except.ok, r) ↔
      ∃ n, m.editedAll eds = .ok (replies, n) ∧ r = n.raw := by
  induction eds generalizing m replies with
  | nil =>
    cases replies with
    | nil => simp [applyAll, editedAll, eq_comm]
    | cons reply replies => simp [applyAll, editedAll]
  | cons ed eds ih =>
    rw [applyAll, apply_raw]
    cases hed : m.edited ed with
    | error e =>
      cases replies with
      | nil => simp [editedAll, hed]
      | cons reply replies => simp [editedAll, hed]
    | ok o =>
      obtain ⟨reply, m'⟩ := o
      simp only [editedAll_cons_eq_ok_iff, hed]
      cases replies with
      | nil => simp
      | cons reply' rest =>
        constructor
        · intro h
          obtain ⟨hreplies, hr⟩ := Prod.mk.inj h
          obtain ⟨hreply, hrest⟩ := List.cons.inj hreplies
          obtain ⟨n, hn, rfl⟩ := ih.mp (Prod.ext hrest hr)
          cases hreply
          exact ⟨n, ⟨reply, m', rest, rfl, hn, rfl⟩, rfl⟩
        · rintro ⟨n, ⟨_, _, _, ho, hn, hcons⟩, rfl⟩
          cases ho
          cases hcons
          have hrest := ih.mpr ⟨n, hn, rfl⟩
          rw [hrest]
          rfl

end Raw

/-! ### The stack -/

/-- A body is a stack of items. -/
structure LastInFirstOut (κ : Type) : Prop where
  /-- Items that could all be put on a message come off in the reverse order, each as it was put on,
  and leave the message as it was before. -/
  pops (m n : Message κ) (items : List Item) (replies : List Reply) :
    m.editedAll (items.map Item.push) = .ok (replies, n) →
      n.editedAll (items.reverse.map fun i => i.shape.pop) = .ok (items.reverse.map Item.reply, m)
  /-- An item that is not wider than the body comes off, and putting it back makes the message what
  it was. -/
  pushes (m : Message κ) (s : Shape) : s.width ≤ m.body.length →
    ∃ (i : Item) (n : Message κ), i.shape = s ∧ m.edited s.pop = .ok (i.reply, n) ∧
      n.edited i.push = .ok (.done, m)
  /-- The same of items put on a message in memory and taken off there. -/
  memory_pops (m : Message κ) (items : List Item) (r : Raw κ) :
    m.raw.applyAll (items.map Item.push) = (items.map fun _ => .ok .done, r) →
      r.applyAll (items.reverse.map fun i => i.shape.pop) =
        (items.reverse.map fun i => .ok i.reply, m.raw)
  /-- The same of an item taken off in memory and put back. -/
  memory_pushes (m : Message κ) (s : Shape) : s.width ≤ m.body.length →
    ∃ i : Item, i.shape = s ∧ m.raw.applyAll [s.pop, i.push] = ([.ok i.reply, .ok .done], m.raw)

/-- **Pushing and popping undo each other**, the last in being the first out, whatever the layouts
of the values and whatever is on the body below them. -/
theorem last_in_first_out (κ : Type) : LastInFirstOut κ := by
  constructor
  case pops =>
    intro m n items replies h
    exact editedAll_pop_of_push h
  case pushes =>
    intro m s h
    exact exists_edited_pop m h
  case memory_pops =>
    intro m items r h
    have hdone : (items.map fun _ => Except.ok Reply.done : List (Except Fault Reply)) =
        (items.map fun _ => Reply.done).map Except.ok := by
      rw [List.map_map]
      rfl
    rw [hdone] at h
    obtain ⟨n, hn, rfl⟩ := Raw.applyAll_raw_eq_iff.mp h
    have hback := Raw.applyAll_raw_eq_iff.mpr ⟨m, editedAll_pop_of_push hn, rfl⟩
    rwa [List.map_map] at hback
  case memory_pushes =>
    intro m s h
    obtain ⟨i, n, hshape, hpop, hpush⟩ := exists_edited_pop m h
    have hboth : m.editedAll [s.pop, i.push] = .ok ([i.reply, .done], m) :=
      editedAll_cons_eq_ok_iff.mpr ⟨i.reply, n, [.done], hpop,
        editedAll_cons_eq_ok_iff.mpr ⟨.done, m, [], hpush, rfl, rfl⟩, rfl⟩
    exact ⟨i, hshape, Raw.applyAll_raw_eq_iff.mpr ⟨m, hboth, rfl⟩⟩

/-- A negative number, bytes, a point with a coordinate that is no number, a record without fields and
an array of arrays on a body that was not empty. -/
theorem last_in_first_out_mixed :
    let m : Message GameTag := ⟨⟨.chat, 2⟩, [1, 2], rfl⟩
    let items : List Item :=
      [.value .i16 (BitVec.ofNat 16 0xFFFE), .bytes [9, 8, 7],
        .value .position (BitVec.ofNat 32 0x7FA00001, BitVec.ofNat 32 0xBFA00000, ()), .value .unit (),
        .value (.array 2 (.array 1 .u8)) #v[#v[BitVec.ofNat 8 5], #v[BitVec.ofNat 8 6]]]
    let n : Message GameTag := ⟨⟨.chat, 17⟩,
      [1, 2, 0xFE, 0xFF, 9, 8, 7, 1, 0, 0xA0, 0x7F, 0, 0, 0xA0, 0xBF, 5, 6], rfl⟩
    m.editedAll (items.map Item.push) = .ok ([.done, .done, .done, .done, .done], n) ∧
      n.editedAll (items.reverse.map fun i => i.shape.pop) =
        .ok (items.reverse.map Item.reply, m) := by
  intro m items n
  have hpush : m.editedAll (items.map Item.push) = .ok ([.done, .done, .done, .done, .done], n) := rfl
  exact ⟨hpush, (last_in_first_out GameTag).pops m n items _ hpush⟩

end Message
end Parley

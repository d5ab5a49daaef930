import Mathlib.Algebra.Group.Nat.Defs
import Parley.Message.Layout
import Parley.Run

/-!
# Parley.Proofs.Message.Editing — messages that are changed in place

A `Message` carries the proof that its header tells the length of its body, and an operation that is
refused returns no message at all.  In memory there is neither: `Raw` is a header beside a body with
nothing between them, and an operation changes it field by field.  Growing a body goes through a
checked sum and a checked conversion of the length, shrinking it through a plain conversion that
drops what does not fit 32 bits.

`Raw.apply` is one operation on one raw message, `Raw.step` one on a pool of them, among which
messages are created, built around a body and copied.  `apply_raw` says that on the raw form of a
message an operation does what it does to the message, or refuses and leaves it; so whatever was
done to a pool, everything in it is the raw form of a message (`raw_run`).
-/

namespace Parley

variable {κ : Type}

namespace Message

theorem map_eq_error_iff {α β : Type} {x : Except Fault α} {f : α → β} {e : Fault} :
    x.map f = .error e ↔ x = .error e := by
  cases x with
  | error e' => simp [Except.map]
  | ok a => simp [Except.map]

/-! ### When an operation on a message is refused -/

theorem grown_eq_error_iff {current extra : Nat} {e : Fault} :
    grown current extra = .error e ↔
      2 ^ 32 - 1 < current + extra ∧ e = .oversized (min (current + extra) (2 ^ 64 - 1)) := by
  have hsize : UInt32.size = 2 ^ 32 := rfl
  unfold grown
  cases hs : sizeWord? (current + extra) with
  | none =>
    have hge := sizeWord?_eq_none_iff.mp hs
    constructor
    · intro h
      exact ⟨by omega, (Except.error.inj h).symm⟩
    · rintro ⟨-, rfl⟩
      rfl
  | some size =>
    have hlt := size.toNat_lt
    rw [toNat_of_sizeWord? hs] at hlt
    constructor
    · intro h
      cases h
    · rintro ⟨hgt, -⟩
      omega

theorem pushBytes_eq_ok_iff {m n : Message κ} {bytes : List UInt8} :
    m.pushBytes bytes = .ok n ↔ n.header.tag = m.header.tag ∧ n.body = m.body ++ bytes := by
  unfold pushBytes
  split
  · constructor
    · intro h
      cases h
      exact ⟨rfl, rfl⟩
    · rintro ⟨htag, hbody⟩
      exact congrArg Except.ok (ext htag.symm hbody.symm)
  · next e he =>
    constructor
    · intro h
      cases h
    · rintro ⟨-, hbody⟩
      have hgt := (grown_eq_error_iff.mp he).1
      have hlt := n.length_body_lt
      have hsize : UInt32.size = 2 ^ 32 := rfl
      rw [hbody, List.length_append] at hlt
      omega

theorem pushBytes_eq_error_iff {m : Message κ} {bytes : List UInt8} {e : Fault} :
    m.pushBytes bytes = .error e ↔ 2 ^ 32 - 1 < m.body.length + bytes.length ∧
      e = .oversized (min (m.body.length + bytes.length) (2 ^ 64 - 1)) := by
  rw [← grown_eq_error_iff]
  unfold pushBytes
  split
  · next hs => simp [hs]
  · next hs => rw [hs]; simp

theorem popBytes_eq_error_iff {m : Message κ} {n : Nat} {e : Fault} :
    m.popBytes n = .error e ↔ m.body.length < n ∧ e = .outOfRange n m.body.length := by
  unfold popBytes
  by_cases hn : n ≤ m.body.length
  · rw [if_pos hn]
    constructor
    · intro h
      cases h
    · rintro ⟨hlt, -⟩
      omega
  · rw [if_neg hn]
    constructor
    · intro h
      exact ⟨Nat.not_le.mp hn, (Except.error.inj h).symm⟩
    · rintro ⟨-, rfl⟩
      rfl

theorem push_eq_error_iff {m : Message κ} {l : Layout} {v : l.Value} {e : Fault} :
    m.push l v = .error e ↔ 2 ^ 32 - 1 < m.body.length + l.width ∧
      e = .oversized (min (m.body.length + l.width) (2 ^ 64 - 1)) := by
  unfold push
  rw [pushBytes_eq_error_iff, Layout.length_encode]

theorem pop_eq_error_iff {m : Message κ} {l : Layout} {e : Fault} :
    m.pop l = .error e ↔ m.body.length < l.width ∧ e = .outOfRange l.width m.body.length := by
  unfold pop
  rw [map_eq_error_iff, popBytes_eq_error_iff]

/-- Building around a body and pushing the body onto an empty message come to the same. -/
theorem ofBody_eq_ok_iff_pushBytes {tag : κ} {body : List UInt8} {m : Message κ} :
    ofBody tag body = .ok m ↔ (empty tag).pushBytes body = .ok m := by
  rw [ofBody_eq_ok_iff, pushBytes_eq_ok_iff]
  exact Iff.rfl

/-! ### The operations as data -/

/-- An operation on one message. -/
inductive Edit (κ : Type) where
  | push (l : Layout) (v : l.Value)
  | pushBytes (bytes : List UInt8)
  | pop (l : Layout)
  | popBytes (n : Nat)
  | clear
  | retag (tag : κ)

/-- What an operation gives back. -/
inductive Reply where
  | done
  | value (l : Layout) (v : l.Value)
  | bytes (bs : List UInt8)

/-- The message after an operation, with what is given back. -/
def edited (m : Message κ) : Edit κ → Except Fault (Reply × Message κ)
  | .push l v => (m.push l v).map fun n => (.done, n)
  | .pushBytes bytes => (m.pushBytes bytes).map fun n => (.done, n)
  | .pop l => (m.pop l).map fun (v, n) => (.value l v, n)
  | .popBytes n => (m.popBytes n).map fun (bs, n) => (.bytes bs, n)
  | .clear => .ok (.done, m.clear)
  | .retag tag => .ok (.done, m.retag tag)

/-! ### Messages in memory -/

/-- A header and a body with nothing between them. -/
structure Raw (κ : Type) where
  header : Header κ
  body : List UInt8
  deriving DecidableEq

/-- A message as it lies in memory. -/
def raw (m : Message κ) : Raw κ := ⟨m.header, m.body⟩

namespace Raw

/-- The bytes on the wire: header and body. -/
def total (r : Raw κ) : Nat := headerSize + r.body.length

def create (tag : κ) : Raw κ := ⟨⟨tag, 0⟩, []⟩

/-- Build around a body whose length is converted with a check. -/
def build (tag : κ) (body : List UInt8) : Except Fault (Raw κ) :=
  match sizeWord? body.length with
  | some size => .ok ⟨⟨tag, size⟩, body⟩
  | none => .error (.oversized body.length)

/-- A sum of counts, if it is one. -/
def checkedAdd (a b : Nat) : Option Nat := if a + b ≤ addressMax then some (a + b) else none

/-- A sum of counts that stops at the largest. -/
def saturatingAdd (a b : Nat) : Nat := min (a + b) addressMax

/-- The length of a body that grows: a checked sum, converted with a check. -/
def grownSize (current extra : Nat) : Except Fault UInt32 :=
  match (checkedAdd current extra).bind sizeWord? with
  | some size => .ok size
  | none => .error (.oversized (saturatingAdd current extra))

/-- Where the last `n` bytes begin. -/
def tailStart (r : Raw κ) (n : Nat) : Except Fault Nat :=
  if n ≤ r.body.length then .ok (r.body.length - n) else .error (.outOfRange n r.body.length)

/-- Write the length of the body into the header, without a check: 32 bits are kept of it. -/
def sync (r : Raw κ) : Raw κ := ⟨⟨r.header.tag, UInt32.ofNat r.body.length⟩, r.body⟩

def pushBytes (r : Raw κ) (bytes : List UInt8) : Except Fault Reply × Raw κ :=
  match grownSize r.body.length bytes.length with
  | .error e => (.error e, r)
  | .ok size => (.ok .done, ⟨⟨r.header.tag, size⟩, r.body ++ bytes⟩)

def popBytes (r : Raw κ) (n : Nat) : Except Fault Reply × Raw κ :=
  match r.tailStart n with
  | .error e => (.error e, r)
  | .ok start => (.ok (.bytes (r.body.drop start)), sync ⟨r.header, r.body.take start⟩)

/-- Read a value off the tail, which must have exactly its width, and then cut the tail off. -/
def pop (r : Raw κ) (l : Layout) : Except Fault Reply × Raw κ :=
  match r.tailStart l.width with
  | .error e => (.error e, r)
  | .ok start =>
    let tail := r.body.drop start
    if tail.length = l.width then
      (.ok (.value l (l.decode tail)), sync ⟨r.header, r.body.take start⟩)
    else (.error (.outOfRange l.width r.body.length), r)

/-- An operation on a message in memory. -/
def apply (r : Raw κ) : Edit κ → Except Fault Reply × Raw κ
  | .push l v => r.pushBytes (l.encode v)
  | .pushBytes bytes => r.pushBytes bytes
  | .pop l => r.pop l
  | .popBytes n => r.popBytes n
  | .clear => (.ok .done, sync ⟨r.header, []⟩)
  | .retag tag => (.ok .done, ⟨⟨tag, r.header.size⟩, r.body⟩)

/-! ### An operation in memory is the operation on the message -/

/-- A length that fits 32 bits is below the largest count, so the check of the sum changes
nothing. -/
theorem grownSize_eq (current extra : Nat) : grownSize current extra = grown current extra := by
  unfold grownSize grown checkedAdd saturatingAdd
  by_cases hle : current + extra ≤ addressMax
  · rw [if_pos hle]
    rfl
  · have hnone : sizeWord? (current + extra) = none := by
      have hmax : UInt32.size ≤ addressMax := by decide
      exact sizeWord?_eq_none_iff.mpr (by omega)
    rw [if_neg hle, hnone]
    rfl

/-- What is put together in memory from the parts of a message that was checked. -/
theorem eq_raw {tag : κ} {size : UInt32} {body : List UInt8} {m : Message κ}
    (htag : m.header.tag = tag) (hbody : m.body = body) (hsize : size.toNat = body.length) :
    (⟨⟨tag, size⟩, body⟩ : Raw κ) = m.raw := by
  have hword : m.header.size = size :=
    UInt32.toNat_inj.mp (by rw [m.size_eq, hbody, hsize])
  unfold raw
  rw [← htag, ← hbody, ← hword]

theorem pushBytes_raw (m : Message κ) (bytes : List UInt8) :
    m.raw.pushBytes bytes =
      match m.pushBytes bytes with
      | .ok n => (.ok .done, n.raw)
      | .error e => (.error e, m.raw) := by
  unfold pushBytes
  rw [grownSize_eq]
  cases hpush : m.pushBytes bytes with
  | error e =>
    have hgrown : grown m.body.length bytes.length = .error e :=
      grown_eq_error_iff.mpr (pushBytes_eq_error_iff.mp hpush)
    simp only [raw, hgrown]
  | ok n =>
    obtain ⟨htag, hbody⟩ := pushBytes_eq_ok_iff.mp hpush
    cases hgrown : grown m.body.length bytes.length with
    | error e =>
      have herror : m.pushBytes bytes = .error e :=
        pushBytes_eq_error_iff.mpr (grown_eq_error_iff.mp hgrown)
      rw [hpush] at herror
      cases herror
    | ok size =>
      simp only [raw, hgrown]
      have hsize : size.toNat = (m.body ++ bytes).length := by
        rw [toNat_of_grown hgrown, List.length_append]
      rw [eq_raw htag hbody hsize]
      rfl

/-- A body that was cut has its length written back without loss. -/
theorem popBytes_raw (m : Message κ) (n : Nat) :
    m.raw.popBytes n =
      match m.popBytes n with
      | .ok (bs, m') => (.ok (.bytes bs), m'.raw)
      | .error e => (.error e, m.raw) := by
  unfold popBytes Message.popBytes tailStart
  by_cases hn : n ≤ m.body.length
  · have hraw : n ≤ m.raw.body.length := hn
    rw [if_pos hn, if_pos hraw]
    rfl
  · have hraw : ¬ n ≤ m.raw.body.length := hn
    rw [if_neg hn, if_neg hraw]
    rfl

/-- The tail has the width of the value, so reading the value is not refused. -/
theorem pop_raw (m : Message κ) (l : Layout) :
    m.raw.pop l =
      match m.pop l with
      | .ok (v, m') => (.ok (.value l v), m'.raw)
      | .error e => (.error e, m.raw) := by
  unfold pop Message.pop Message.popBytes tailStart
  by_cases hn : l.width ≤ m.body.length
  · have hraw : l.width ≤ m.raw.body.length := hn
    have htail : (m.raw.body.drop (m.raw.body.length - l.width)).length = l.width := by
      rw [List.length_drop]
      omega
    rw [if_pos hn, if_pos hraw]
    simp only
    rw [if_pos htail]
    rfl
  · have hraw : ¬ l.width ≤ m.raw.body.length := hn
    rw [if_neg hn, if_neg hraw]
    rfl

/-- **In memory an operation does what it does to the message**, or it is refused and the message
stays as it was. -/
theorem apply_raw (m : Message κ) (ed : Edit κ) :
    m.raw.apply ed =
      match m.edited ed with
      | .ok (reply, n) => (.ok reply, n.raw)
      | .error e => (.error e, m.raw) := by
  cases ed with
  | push l v =>
    unfold apply edited push
    simp only
    rw [pushBytes_raw]
    cases m.pushBytes (l.encode v) with
    | ok n => rfl
    | error e => rfl
  | pushBytes bytes =>
    unfold apply edited
    simp only
    rw [pushBytes_raw]
    cases m.pushBytes bytes with
    | ok n => rfl
    | error e => rfl
  | pop l =>
    unfold apply edited
    simp only
    rw [pop_raw]
    cases m.pop l with
    | ok o => rfl
    | error e => rfl
  | popBytes n =>
    unfold apply edited
    simp only
    rw [popBytes_raw]
    cases m.popBytes n with
    | ok o => rfl
    | error e => rfl
  | clear => rfl
  | retag tag => rfl

/-- Building in memory is building the message. -/
theorem build_eq_ok_iff {tag : κ} {body : List UInt8} {r : Raw κ} :
    build tag body = .ok r ↔ ∃ m, ofBody tag body = .ok m ∧ r = m.raw := by
  unfold build
  cases hs : sizeWord? body.length with
  | none =>
    have herror : ofBody tag body = .error (.oversized body.length) :=
      ofBody_of_ge (sizeWord?_eq_none_iff.mp hs)
    rw [herror]
    constructor
    · intro h
      cases h
    · rintro ⟨m, h, -⟩
      cases h
  | some size =>
    have hsize : size.toNat = body.length := toNat_of_sizeWord? hs
    constructor
    · intro h
      cases h
      exact ⟨⟨⟨tag, size⟩, body, hsize⟩, ofBody_eq_ok_iff.mpr ⟨rfl, rfl⟩, rfl⟩
    · rintro ⟨m, h, rfl⟩
      obtain ⟨htag, hbody⟩ := ofBody_eq_ok_iff.mp h
      exact congrArg Except.ok (eq_raw htag hbody hsize)

/-- Pushing a body onto an empty message succeeds exactly when building around it does, with the
same message. -/
theorem build_eq_ok_iff_pushBytes {tag : κ} {body : List UInt8} {r : Raw κ} :
    build tag body = .ok r ↔ (create tag).pushBytes body = (.ok .done, r) := by
  have hcreate : create tag = (empty tag).raw := rfl
  rw [build_eq_ok_iff, hcreate, pushBytes_raw]
  simp only [ofBody_eq_ok_iff_pushBytes]
  cases (empty tag).pushBytes body with
  | error e => simp
  | ok m => simp [eq_comm]

/-! ### A pool of messages -/

/-- What can be done to a pool of messages: create one, build one around a body, copy one, or
operate on one. -/
inductive Action (κ : Type) where
  | create (tag : κ)
  | build (tag : κ) (body : List UInt8)
  | copy (i : Nat)
  | edit (i : Nat) (ed : Edit κ)

/-- Do one thing to a pool; there is nothing to copy or to operate on outside of it. -/
def step (pool : List (Raw κ)) : Action κ → Option (List (Raw κ) × List (Except Fault Reply))
  | .create tag => some (pool ++ [create tag], [.ok .done])
  | .build tag body =>
    match build tag body with
    | .ok r => some (pool ++ [r], [.ok .done])
    | .error e => some (pool, [.error e])
  | .copy i => pool[i]?.map fun r => (pool ++ [r], [.ok .done])
  | .edit i ed => pool[i]?.map fun r => (pool.set i (r.apply ed).2, [(r.apply ed).1])

/-- Everything in the pool is the raw form of a message. -/
def Typed (pool : List (Raw κ)) : Prop := ∀ r ∈ pool, ∃ m : Message κ, r = m.raw

theorem Typed.concat {pool : List (Raw κ)} (h : Typed pool) (m : Message κ) :
    Typed (pool ++ [m.raw]) := by
  intro r hr
  rcases List.mem_append.mp hr with hr | hr
  · exact h r hr
  · exact ⟨m, List.mem_singleton.mp hr⟩

theorem Typed.step {pool : List (Raw κ)} (h : Typed pool) {a : Action κ}
    {o : List (Raw κ) × List (Except Fault Reply)} (ha : step pool a = some o) : Typed o.1 := by
  cases a with
  | create tag =>
    cases ha
    exact h.concat (empty tag)
  | build tag body =>
    cases hb : build tag body with
    | error e =>
      simp only [Raw.step, hb] at ha
      cases ha
      exact h
    | ok r =>
      obtain ⟨m, -, rfl⟩ := build_eq_ok_iff.mp hb
      simp only [Raw.step, hb] at ha
      cases ha
      exact h.concat m
  | copy i =>
    obtain ⟨r, hr, rfl⟩ := Option.map_eq_some_iff.mp ha
    obtain ⟨m, rfl⟩ := h r (List.mem_of_getElem? hr)
    exact h.concat m
  | edit i ed =>
    obtain ⟨r, hr, rfl⟩ := Option.map_eq_some_iff.mp ha
    obtain ⟨m, rfl⟩ := h r (List.mem_of_getElem? hr)
    intro r' hr'
    rcases List.mem_or_eq_of_mem_set hr' with hmem | rfl
    · exact h r' hmem
    · rw [apply_raw]
      cases m.edited ed with
      | ok o => exact ⟨o.2, rfl⟩
      | error e => exact ⟨m, rfl⟩

/-- Whatever was done to a pool, everything in it is the raw form of a message. -/
theorem typed_run {as : List (Action κ)} {o : List (Raw κ) × List (Except Fault Reply)}
    (h : Run.all Raw.step [] as = some o) : Typed o.1 :=
  Run.all_invariant (fun _ _ _ hpool ha => hpool.step ha) (by intro r hr; cases hr) h

/-! ### What a refusal leaves -/

/-- An operation is refused in memory exactly when it is refused on the message, and then the
message stays. -/
theorem apply_raw_eq_error_iff {m : Message κ} {ed : Edit κ} {e : Fault} {r : Raw κ} :
    m.raw.apply ed = (.error e, r) ↔ m.edited ed = .error e ∧ r = m.raw := by
  rw [apply_raw]
  cases m.edited ed with
  | error e' => simp [eq_comm]
  | ok o => simp

theorem fst_apply_raw_eq_error_iff {m : Message κ} {ed : Edit κ} {e : Fault} :
    (m.raw.apply ed).1 = .error e ↔ m.edited ed = .error e := by
  rw [apply_raw]
  cases m.edited ed with
  | error e' => simp
  | ok o => simp

/-- A refused action leaves the whole pool. -/
theorem Typed.eq_of_step_error {pool pool' : List (Raw κ)} (h : Typed pool) {a : Action κ}
    {e : Fault} (ha : Raw.step pool a = some (pool', [.error e])) : pool' = pool := by
  cases a with
  | create tag => cases ha
  | build tag body =>
    cases hb : build tag body with
    | error e' =>
      simp only [Raw.step, hb] at ha
      cases ha
      rfl
    | ok r =>
      simp only [Raw.step, hb] at ha
      cases ha
  | copy i =>
    obtain ⟨r, -, hr⟩ := Option.map_eq_some_iff.mp ha
    cases hr
  | edit i ed =>
    obtain ⟨r, hr, ho⟩ := Option.map_eq_some_iff.mp ha
    obtain ⟨m, rfl⟩ := h r (List.mem_of_getElem? hr)
    obtain ⟨hset, hreply⟩ := Prod.mk.inj ho
    have herror : (m.raw.apply ed).1 = .error e := by simpa using hreply
    have hkept := (apply_raw_eq_error_iff (r := (m.raw.apply ed).2)).mp (Prod.ext herror rfl)
    rw [← hset, hkept.2]
    obtain ⟨hi, hget⟩ := List.getElem?_eq_some_iff.mp hr
    rw [← hget]
    exact List.set_getElem_self hi

/-! ### The whole of it -/

/-- What is known of a pool of messages in memory. -/
structure Sound (pool : List (Raw κ)) : Prop where
  /-- A header tells the length of its body, all of it; the length fits 32 bits, and eight bytes
  more go on the wire. -/
  sized : ∀ r ∈ pool, r.header.size.toNat = r.body.length ∧ r.body.length ≤ 2 ^ 32 - 1 ∧
    r.total = 8 + r.header.size.toNat
  /-- An operation does what it does to the message in memory, or it is refused and leaves tag,
  header and body. -/
  apply : ∀ r ∈ pool, ∃ m : Message κ, r = m.raw ∧ ∀ ed, r.apply ed =
    match m.edited ed with
    | .ok (reply, n) => (.ok reply, n.raw)
    | .error e => (.error e, r)
  /-- A value is refused exactly when the body would outgrow 32 bits. -/
  push : ∀ r ∈ pool, ∀ (l : Layout) (v : l.Value) (e : Fault), (r.apply (.push l v)).1 = .error e ↔
    2 ^ 32 - 1 < r.body.length + l.width ∧
      e = .oversized (min (r.body.length + l.width) (2 ^ 64 - 1))
  /-- And so are bytes. -/
  pushBytes : ∀ r ∈ pool, ∀ (bytes : List UInt8) (e : Fault),
    (r.apply (.pushBytes bytes)).1 = .error e ↔
      2 ^ 32 - 1 < r.body.length + bytes.length ∧
        e = .oversized (min (r.body.length + bytes.length) (2 ^ 64 - 1))
  /-- A value is not given back exactly when the body is shorter than it. -/
  pop : ∀ r ∈ pool, ∀ (l : Layout) (e : Fault), (r.apply (.pop l)).1 = .error e ↔
    r.body.length < l.width ∧ e = .outOfRange l.width r.body.length
  /-- And so are bytes. -/
  popBytes : ∀ r ∈ pool, ∀ (n : Nat) (e : Fault), (r.apply (.popBytes n)).1 = .error e ↔
    r.body.length < n ∧ e = .outOfRange n r.body.length
  /-- Nothing in the pool changes when something is refused. -/
  atomic : ∀ (a : Action κ) (pool' : List (Raw κ)) (e : Fault),
    step pool a = some (pool', [.error e]) → pool' = pool
  /-- An operation on one message leaves the others. -/
  apart : ∀ (i j : Nat) (ed : Edit κ) (o : List (Raw κ) × List (Except Fault Reply)),
    step pool (.edit i ed) = some o → j ≠ i → o.1[j]? = pool[j]?
  /-- Building around a body and pushing the body onto an empty message come to the same. -/
  build : ∀ (tag : κ) (body : List UInt8) (r : Raw κ),
    build tag body = .ok r ↔ (create tag).apply (.pushBytes body) = (.ok .done, r)

/-- **The length in a header is that of the body, whatever was done**, and what is refused is refused
for want of room or of bytes and changes nothing. -/
theorem editing_sound {as : List (Action κ)} {pool : List (Raw κ)}
    {replies : List (Except Fault Reply)} (h : Run.all step [] as = some (pool, replies)) :
    Sound pool := by
  have htyped : Typed pool := typed_run h
  constructor
  case sized =>
    intro r hr
    obtain ⟨m, rfl⟩ := htyped r hr
    have hsize : m.raw.header.size.toNat = m.raw.body.length := m.size_eq
    have hlt := m.length_body_lt
    have hword : UInt32.size = 2 ^ 32 := rfl
    refine ⟨hsize, ?_, ?_⟩
    · show m.body.length ≤ 2 ^ 32 - 1
      omega
    · rw [hsize]
      rfl
  case apply =>
    intro r hr
    obtain ⟨m, rfl⟩ := htyped r hr
    exact ⟨m, rfl, apply_raw m⟩
  case push =>
    intro r hr l v e
    obtain ⟨m, rfl⟩ := htyped r hr
    rw [fst_apply_raw_eq_error_iff]
    exact map_eq_error_iff.trans push_eq_error_iff
  case pushBytes =>
    intro r hr bytes e
    obtain ⟨m, rfl⟩ := htyped r hr
    rw [fst_apply_raw_eq_error_iff]
    exact map_eq_error_iff.trans pushBytes_eq_error_iff
  case pop =>
    intro r hr l e
    obtain ⟨m, rfl⟩ := htyped r hr
    rw [fst_apply_raw_eq_error_iff]
    exact map_eq_error_iff.trans pop_eq_error_iff
  case popBytes =>
    intro r hr n e
    obtain ⟨m, rfl⟩ := htyped r hr
    rw [fst_apply_raw_eq_error_iff]
    exact map_eq_error_iff.trans popBytes_eq_error_iff
  case atomic =>
    intro a pool' e ha
    exact htyped.eq_of_step_error ha
  case apart =>
    intro i j ed o ha hj
    obtain ⟨r, -, rfl⟩ := Option.map_eq_some_iff.mp ha
    exact List.getElem?_set_ne (Ne.symm hj)
  case build =>
    intro tag body r
    exact build_eq_ok_iff_pushBytes

/-- A byte too many is asked back from the copy of a message of one byte. -/
theorem editing_sound_copied :
    let as : List (Action GameTag) :=
      [.create .chat, .edit 0 (.push .u8 (BitVec.ofNat 8 7)), .copy 0, .edit 1 (.popBytes 2),
        .edit 0 (.popBytes 1), .build .ping [1, 2]]
    let pool : List (Raw GameTag) := [⟨⟨.chat, 0⟩, []⟩, ⟨⟨.chat, 1⟩, [7]⟩, ⟨⟨.ping, 2⟩, [1, 2]⟩]
    Run.all step [] as = some (pool, [.ok .done, .ok .done, .ok .done,
      .error (.outOfRange 2 1), .ok (.bytes [7]), .ok .done]) ∧ Sound pool := by
  intro as pool
  have hrun : Run.all step [] as = some (pool, [.ok .done, .ok .done, .ok .done,
      .error (.outOfRange 2 1), .ok (.bytes [7]), .ok .done]) := rfl
  exact ⟨hrun, editing_sound hrun⟩

end Raw
end Message
end Parley

import Mathlib.Data.List.Infix
import Parley.Proofs.Connection.Orderly

/-!
# Parley.Proofs.Connection.Writing — what a connection writes

A connection writes its word of the handshake and then, once it is open, the frames of the enqueued
messages in the order of the queue (`HasWritten`).  What carries this is the state of the pipeline
behind the word (`Flow`): while the connection is open there is a write chain exactly if the queue is
not empty, and never more than one, and the first message of the queue leaves it when its frame is
written.  Closing empties the queue, and what is left of a chain writes at most the frame it has
begun.
-/

namespace Parley.Connection

variable {κ : Type}

/-! ### The part of a connection that writing frames depends on -/

/-- What writing frames depends on. -/
structure Outlet (κ : Type) where
  phase : Phase
  limit : Nat
  attended : Bool
  writer : Option (List UInt8)
  queue : List (Message κ)
  chains : List (Chain κ)

/-- The part of a connection that writing frames depends on. -/
def outlet (c : Connection κ) : Outlet κ where
  phase := c.phase
  limit := c.limit
  attended := c.attended
  writer := c.writer
  queue := c.outbound.toList
  chains := c.chains

/-- Closing, as writing sees it. -/
def Outlet.close (v : Outlet κ) : Outlet κ :=
  match v.phase with
  | .closed => v
  | _ =>
    { v with
      phase := .closed
      queue := []
      writer := if v.chains.any (fun | .waiting => false | .writing _ => true) then v.writer
        else none }

theorem outlet_close (c : Connection κ) : c.close.1.outlet = c.outlet.close := by
  rcases close_cases c with ⟨hphase, h⟩ | ⟨hphase, h, -⟩
  · rw [h]
    simp only [Outlet.close, show c.outlet.phase = _ from hphase]
  · rw [h]
    unfold Outlet.close
    split
    · next hclosed => exact absurd hclosed hphase
    · rfl

/-- Events that are none of the pipeline's. -/
structure Silent (es : List (Event κ)) : Prop where
  wrote_eq : wrote es = []
  sent_eq : sent es = []
  enqueued_eq : enqueued es = []

theorem Silent.nil : Silent ([] : List (Event κ)) := ⟨rfl, rfl, rfl⟩

theorem Silent.append {es fs : List (Event κ)} (hes : Silent es) (hfs : Silent fs) :
    Silent (es ++ fs) where
  wrote_eq := by rw [wrote_append, hes.wrote_eq, hfs.wrote_eq]; rfl
  sent_eq := by rw [sent_append, hes.sent_eq, hfs.sent_eq]; rfl
  enqueued_eq := by rw [enqueued_append, hes.enqueued_eq, hfs.enqueued_eq]; rfl

theorem silent_close (c : Connection κ) : Silent c.close.2 := by
  rcases events_close c with h | h
  · rw [h]; exact ⟨rfl, rfl, rfl⟩
  · rw [h]; exact ⟨rfl, rfl, rfl⟩

theorem silent_failHandshake (c : Connection κ) : Silent c.failHandshake.2 := by
  rw [failHandshake_eq]
  refine .append ?_ (silent_close _)
  cases c.side with
  | server => exact ⟨rfl, rfl, rfl⟩
  | client => exact ⟨rfl, rfl, rfl⟩

theorem silent_stopReading (errored : Bool) (c : Connection κ) :
    Silent (c.stopReading errored).2 := by
  obtain ⟨hw, hs, he⟩ := silent_close { c with stage := .leaving }
  cases errored with
  | false => exact ⟨hw, hs, he⟩
  | true => exact ⟨hw, hs, he⟩

theorem silent_failWriting (i : Nat) (c : Connection κ) : Silent (c.failWriting i).2 := by
  obtain ⟨h₁, h₂, h₃⟩ := silent_close { c with writer := none, chains := c.chains.eraseIdx i }
  exact ⟨h₁, h₂, h₃⟩

/-- The only chain there is. -/
theorem only_chain {x y : Chain κ} {xs : List (Chain κ)} {i : Nat} (hi : xs[i]? = some y)
    (hxs : xs = [x]) : i = 0 ∧ y = x := by
  rw [hxs, List.getElem?_singleton] at hi
  split at hi
  · next h => exact ⟨h, (Option.some.inj hi).symm⟩
  · cases hi

/-! ### The word -/

/-- The bytes of its own word that a connection has written before it opens, by the stage. -/
def Word (c : Connection κ) (bs : List UInt8) : Prop :=
  match c.stage with
  | .absent | .starting | .connecting => bs = []
  | .sending unsent => bs ++ unsent = Bytes.ofWord c.out
  | .awaiting _ => bs = match c.side with | .server => Bytes.ofWord c.out | .client => []
  | .admitted => bs = Bytes.ofWord c.out
  | .reading _ | .leaving => False
  | .finished => bs <+: Bytes.ofWord c.out

/-- In these stages the connection may have been open. -/
def Stage.isLate : Stage → Bool
  | .reading _ | .leaving | .finished => true
  | _ => false

/-- A word is begun, being written, or written. -/
theorem Word.isPrefix {c : Connection κ} {bs : List UInt8} (h : c.Word bs) : bs <+: Bytes.ofWord c.out := by
  unfold Word at h
  split at h
  · rw [h]; exact List.nil_prefix
  · rw [h]; exact List.nil_prefix
  · rw [h]; exact List.nil_prefix
  · exact ⟨_, h⟩
  · rw [h]
    cases c.side with
    | server => exact List.prefix_refl _
    | client => exact List.nil_prefix
  · rw [h]
  · cases h
  · cases h
  · exact h

variable [Kind κ]

/-! ### The pipeline -/

/-- The frame of a message, which is not too long, is begun: a part of it is written and something is
left. -/
structure Begun (limit : Nat) (m : Message κ) (part unsent : List UInt8) : Prop where
  bytes_eq : part ++ unsent = Frame.bytes m
  unsent_ne : unsent ≠ []
  fits : m.body.length ≤ limit

namespace Begun

variable {limit : Nat} {m : Message κ} {part unsent : List UInt8}

/-- A frame of which nothing is written yet. -/
theorem start (hfits : m.body.length ≤ limit) : Begun limit m [] (Frame.bytes m) := by
  refine ⟨rfl, fun hnone => ?_, hfits⟩
  have hlength := Frame.length_bytes m
  rw [hnone] at hlength
  simp [Message.total, headerSize] at hlength
  omega

/-- A piece of what is left is written, but not all of it. -/
theorem write (h : Begun limit m part unsent) {n : Nat} (hlt : n < unsent.length) :
    Begun limit m (part ++ unsent.take n) (unsent.drop n) where
  bytes_eq := by rw [List.append_assoc, List.take_append_drop, h.bytes_eq]
  unsent_ne := by
    intro hnone
    exact Nat.not_le_of_lt hlt (List.drop_eq_nil_iff.mp hnone)
  fits := h.fits

theorem isPrefix (h : Begun limit m part unsent) : part <+: Frame.bytes m := ⟨unsent, h.bytes_eq⟩

theorem part_ne (h : Begun limit m part unsent) : part ≠ Frame.bytes m := by
  intro hall
  have hbytes := h.bytes_eq
  rw [hall] at hbytes
  exact h.unsent_ne (List.append_right_eq_self.mp hbytes)

end Begun

variable {limit : Nat} {enq done : List (Message κ)} {frames : List UInt8}

/-- The frames of the messages sent were written, and then the beginning of the next one at most. -/
def Cut (limit : Nat) (enq done : List (Message κ)) (frames : List UInt8) : Prop :=
  ∃ part, frames = done.flatMap Frame.bytes ++ part ∧
    ((part = [] ∧ done <+: enq) ∨ ∃ m unsent, done ++ [m] <+: enq ∧ Begun limit m part unsent)

theorem Cut.frames_isPrefix (h : Cut limit enq done frames) :
    frames <+: enq.flatMap Frame.bytes := by
  obtain ⟨part, rfl, ⟨rfl, hdone⟩ | ⟨m, unsent, hdone, hbegun⟩⟩ := h
  · rw [List.append_nil]
    exact hdone.flatMap Frame.bytes
  · have hframes := hdone.flatMap Frame.bytes
    rw [List.flatMap_append, List.flatMap_singleton] at hframes
    exact ((List.prefix_append_right_inj _).mpr hbegun.isPrefix).trans hframes

/-- The state of the pipeline behind the word of the handshake: of the messages `enq` that were
enqueued, `done` were sent, and `frames` was written. -/
inductive Flow (v : Outlet κ) (enq done : List (Message κ)) (frames : List UInt8) : Prop
  /-- Between two frames: a chain waits for the lock unless the queue is empty. -/
  | ready (hphase : v.phase = .opened) (hwriter : v.writer = some [])
    (hchains : v.chains = if v.queue.isEmpty then [] else [.waiting])
    (henq : enq = done ++ v.queue) (hframes : frames = done.flatMap Frame.bytes)
  /-- The chain is writing the first message of the queue. -/
  | writing {m : Message κ} {rest : List (Message κ)} {part unsent : List UInt8}
    (hphase : v.phase = .opened) (hwriter : v.writer = some unsent)
    (hchains : v.chains = [.writing m]) (hqueue : v.queue = m :: rest)
    (henq : enq = done ++ v.queue) (hframes : frames = done.flatMap Frame.bytes ++ part)
    (hbegun : Begun v.limit m part unsent)
  /-- The tasks were dropped. -/
  | dropped (hattended : v.attended = false) (hchains : v.chains = [])
    (hcut : Cut v.limit enq done frames)
  /-- The connection was closed; a chain that still waits for the lock will find nothing. -/
  | closed (hphase : v.phase = .closed) (hqueue : v.queue = [])
    (hchains : v.chains = [] ∨ v.chains = [.waiting]) (hcut : Cut v.limit enq done frames)
  /-- The connection was closed while a chain was writing. -/
  | closing {m : Message κ} {part unsent : List UInt8} (hphase : v.phase = .closed)
    (hqueue : v.queue = []) (hwriter : v.writer = some unsent) (hchains : v.chains = [.writing m])
    (henq : done ++ [m] <+: enq) (hframes : frames = done.flatMap Frame.bytes ++ part)
    (hbegun : Begun v.limit m part unsent)

namespace Flow

variable {v : Outlet κ}

theorem cut (h : Flow v enq done frames) : Cut v.limit enq done frames := by
  cases h with
  | ready hphase hwriter hchains henq hframes =>
    exact ⟨[], by rw [hframes, List.append_nil], .inl ⟨rfl, v.queue, henq.symm⟩⟩
  | @writing m rest part unsent hphase hwriter hchains hqueue henq hframes hbegun =>
    refine ⟨part, hframes, .inr ⟨m, unsent, ⟨rest, ?_⟩, hbegun⟩⟩
    rw [henq, hqueue, List.append_assoc]
    rfl
  | dropped hattended hchains hcut => exact hcut
  | closed hphase hqueue hchains hcut => exact hcut
  | @closing m part unsent hphase hqueue hwriter hchains henq hframes hbegun =>
    exact ⟨part, hframes, .inr ⟨m, unsent, henq, hbegun⟩⟩

/-- Closing stops the pipeline, or leaves it the frame it has begun. -/
theorem close (h : Flow v enq done frames) : Flow v.close enq done frames := by
  have hcut := h.cut
  have hopen : v.phase = .opened → v.close =
      { v with
        phase := .closed
        queue := []
        writer := if v.chains.any (fun | .waiting => false | .writing _ => true) then v.writer
          else none } := by
    intro hphase
    simp only [Outlet.close, hphase]
  cases h with
  | ready hphase hwriter hchains henq hframes =>
    rw [hopen hphase]
    refine .closed rfl rfl ?_ hcut
    show v.chains = [] ∨ v.chains = [.waiting]
    rw [hchains]
    split
    · exact .inl rfl
    · exact .inr rfl
  | @writing m rest part unsent hphase hwriter hchains hqueue henq hframes hbegun =>
    rw [hopen hphase]
    refine .closing rfl rfl ?_ hchains ⟨rest, ?_⟩ hframes hbegun
    · simpa [hchains] using hwriter
    · rw [henq, hqueue, List.append_assoc]
      rfl
  | dropped hattended hchains hcut =>
    unfold Outlet.close
    split
    · exact .dropped hattended hchains hcut
    · exact .dropped hattended hchains hcut
  | closed hphase hqueue hchains hcut =>
    rw [Outlet.close, hphase]
    exact .closed hphase hqueue hchains hcut
  | closing hphase hqueue hwriter hchains henq hframes hbegun =>
    rw [Outlet.close, hphase]
    exact .closing hphase hqueue hwriter hchains henq hframes hbegun

/-- A message is put behind the others; if it is the first, a chain is started. -/
theorem enqueue (h : Flow v enq done frames) (hphase : v.phase ≠ .closed)
    (hattended : v.attended = true) (m : Message κ) :
    Flow
      { v with
        queue := v.queue ++ [m]
        chains := if v.queue.isEmpty && v.phase == .opened then v.chains ++ [.waiting]
          else v.chains }
      (enq ++ [m]) done frames := by
  cases h with
  | ready hopened hwriter hchains henq hframes =>
    refine .ready hopened hwriter ?_ (by rw [henq, List.append_assoc]) hframes
    show (if v.queue.isEmpty && v.phase == .opened then v.chains ++ [.waiting] else v.chains) =
      if (v.queue ++ [m]).isEmpty then [] else [.waiting]
    rw [hchains, hopened]
    cases v.queue with
    | nil => rfl
    | cons _ _ => rfl
  | @writing n rest part unsent hopened hwriter hchains hqueue henq hframes hbegun =>
    have hqueue' : v.queue ++ [m] = n :: (rest ++ [m]) := by rw [hqueue]; rfl
    refine .writing hopened hwriter ?_ hqueue' (by rw [henq, List.append_assoc]) hframes hbegun
    simp [hqueue, hchains]
  | dropped hdropped => rw [hdropped] at hattended; cases hattended
  | closed hclosed => exact absurd hclosed hphase
  | closing hclosed => exact absurd hclosed hphase

end Flow

/-! ### Chains keep the pipeline -/

theorem Flow.of_failWriting {c : Connection κ} {x : Chain κ} (hchains : c.chains = [x])
    (hqueue : c.phase = .closed → c.outbound.toList = []) (hcut : Cut c.limit enq done frames) :
    Flow (c.failWriting 0).1.outlet enq done frames := by
  have hview : (c.failWriting 0).1.outlet =
      (outlet { c with writer := none, chains := c.chains.eraseIdx 0 }).close := outlet_close _
  have hnone : c.chains.eraseIdx 0 = [] := by rw [hchains]; rfl
  rw [hview]
  unfold Outlet.close
  split
  · next hphase => exact .closed hphase (hqueue hphase) (.inl hnone) hcut
  · exact .closed rfl rfl (.inl hnone) hcut

/-- A chain that has the lock of an open connection goes on to the first message of the queue. -/
theorem Flow.of_proceeds {c : Connection κ} {i : Nat} {o : Outcome κ} {x y : Chain κ}
    (hnext : Proceeds i c o) (hi : c.chains[i]? = some y) (hchains : c.chains = [x])
    (hphase : c.phase = .opened) (hwriter : c.writer = some [])
    (henq : enq = done ++ c.outbound.toList) (hframes : frames = done.flatMap Frame.bytes) :
    Flow o.1.outlet enq done frames ∧ Silent o.2 := by
  obtain ⟨rfl, -⟩ := only_chain hi hchains
  cases hnext with
  | @starts m unsent hqueue hunsent hlen =>
    obtain ⟨rest, hqueue⟩ := List.head?_eq_some_iff.mp hqueue
    obtain rfl : unsent = [] := Option.some.inj (hunsent.symm.trans hwriter)
    refine ⟨.writing hphase rfl ?_ hqueue henq (hframes.trans (List.append_nil _).symm)
      (.start hlen), .nil⟩
    show c.chains.set 0 (.writing m) = [.writing m]
    rw [hchains]
    rfl
  | refuses hqueue hunsent hlen =>
    have hcut : Cut c.limit enq done frames :=
      ⟨[], by rw [hframes, List.append_nil], .inl ⟨rfl, _, henq.symm⟩⟩
    refine ⟨.of_failWriting hchains (fun hclosed => ?_) hcut, silent_failWriting 0 c⟩
    cases hphase.symm.trans hclosed
  | ends hend =>
    have hqueue : c.outbound.toList = [] := hend.resolve_right (by rw [hwriter]; nofun)
    refine ⟨.ready hphase hwriter ?_ henq hframes, .nil⟩
    show c.chains.eraseIdx 0 = if c.outbound.toList.isEmpty then [] else [.waiting]
    rw [hchains, hqueue]
    rfl

/-- On a closed connection it finds nothing and ends. -/
theorem Flow.of_proceeds_closed {c : Connection κ} {i : Nat} {o : Outcome κ} {x y : Chain κ}
    (hnext : Proceeds i c o) (hi : c.chains[i]? = some y) (hchains : c.chains = [x])
    (hphase : c.phase = .closed) (hqueue : c.outbound.toList = [])
    (hcut : Cut c.limit enq done frames) :
    Flow o.1.outlet enq done frames ∧ Silent o.2 := by
  obtain ⟨rfl, -⟩ := only_chain hi hchains
  cases hnext with
  | starts hfirst => rw [hqueue] at hfirst; cases hfirst
  | refuses hfirst => rw [hqueue] at hfirst; cases hfirst
  | ends hend =>
    refine ⟨.closed hphase hqueue (.inl ?_) hcut, .nil⟩
    show c.chains.eraseIdx 0 = []
    rw [hchains]
    rfl

/-- Whether a chain waits or writes says which states of the pipeline it can be in. -/
theorem Flow.of_waiting {c : Connection κ} {i : Nat} (h : Flow c.outlet enq done frames)
    (hi : c.chains[i]? = some .waiting) :
    c.chains = [.waiting] ∧
      ((c.phase = .opened ∧ c.writer = some [] ∧ enq = done ++ c.outbound.toList ∧
          frames = done.flatMap Frame.bytes) ∨
        (c.phase = .closed ∧ c.outbound.toList = [])) := by
  cases h with
  | ready hphase hwriter hchains henq hframes =>
    have hchains : c.chains = if c.outbound.toList.isEmpty then [] else [.waiting] := hchains
    split at hchains
    · rw [hchains] at hi; cases hi
    · exact ⟨hchains, .inl ⟨hphase, hwriter, henq, hframes⟩⟩
  | writing hphase hwriter hchains => cases (only_chain hi hchains).2
  | dropped hattended hchains =>
    rw [show c.chains = _ from hchains] at hi
    cases hi
  | closed hphase hqueue hchains =>
    rcases hchains with hchains | hchains
    · rw [show c.chains = _ from hchains] at hi
      cases hi
    · exact ⟨hchains, .inr ⟨hphase, hqueue⟩⟩
  | closing hphase hqueue hwriter hchains => cases (only_chain hi hchains).2

theorem Flow.of_writing {c : Connection κ} {i : Nat} {m : Message κ}
    (h : Flow c.outlet enq done frames) (hi : c.chains[i]? = some (.writing m)) :
    c.chains = [.writing m] ∧ ∃ part unsent, c.writer = some unsent ∧
      frames = done.flatMap Frame.bytes ++ part ∧ Begun c.limit m part unsent ∧
      ((c.phase = .opened ∧ enq = done ++ c.outbound.toList ∧
          ∃ rest, c.outbound.toList = m :: rest) ∨
        (c.phase = .closed ∧ c.outbound.toList = [] ∧ done ++ [m] <+: enq)) := by
  cases h with
  | ready hphase hwriter hchains henq hframes =>
    have hchains : c.chains = if c.outbound.toList.isEmpty then [] else [.waiting] := hchains
    split at hchains
    · rw [hchains] at hi; cases hi
    · cases (only_chain hi hchains).2
  | @writing n rest part unsent hphase hwriter hchains hqueue henq hframes hbegun =>
    cases (only_chain hi hchains).2
    exact ⟨hchains, part, unsent, hwriter, hframes, hbegun, .inl ⟨hphase, henq, rest, hqueue⟩⟩
  | dropped hattended hchains =>
    rw [show c.chains = _ from hchains] at hi
    cases hi
  | closed hphase hqueue hchains =>
    rcases hchains with hchains | hchains
    · rw [show c.chains = _ from hchains] at hi
      cases hi
    · cases (only_chain hi hchains).2
  | @closing n part unsent hphase hqueue hwriter hchains henq hframes hbegun =>
    cases (only_chain hi hchains).2
    exact ⟨hchains, part, unsent, hwriter, hframes, hbegun, .inr ⟨hphase, hqueue, henq⟩⟩

/-- **A turn of a chain keeps the pipeline**: what it writes is the next piece of the frame of the
first message, and it has sent the message when the frame is complete. -/
theorem Flow.chainMove {c : Connection κ} {i : Nat} {t : Turn} {o : Outcome κ}
    (h : Flow c.outlet enq done frames) (hmove : ChainMove i c t o) :
    Flow o.1.outlet enq (done ++ sent o.2) (frames ++ wrote o.2) ∧ enqueued o.2 = [] := by
  have hcut := h.cut
  cases hmove with
  | locks hchain hlock hnext =>
    obtain ⟨hchains, ⟨hphase, hwriter, henq, hframes⟩ | ⟨hphase, hqueue⟩⟩ := h.of_waiting hchain
    · obtain ⟨hflow, hw, hs, he⟩ :=
        Flow.of_proceeds hnext hchain hchains hphase hwriter henq hframes
      rw [hs, hw, List.append_nil, List.append_nil]
      exact ⟨hflow, he⟩
    · obtain ⟨hflow, hw, hs, he⟩ :=
        Flow.of_proceeds_closed hnext hchain hchains hphase hqueue hcut
      rw [hs, hw, List.append_nil, List.append_nil]
      exact ⟨hflow, he⟩
  | @writePart m unsent n hchain hwriter hn hlt =>
    obtain ⟨hchains, part, left, hleft, hframes, hbegun, hcase⟩ := h.of_writing hchain
    obtain rfl : unsent = left := Option.some.inj (hwriter.symm.trans hleft)
    have hframes' : frames ++ unsent.take n = done.flatMap Frame.bytes ++ (part ++ unsent.take n) := by
      rw [hframes, List.append_assoc]
    have hbegun' := hbegun.write hlt
    show Flow (outlet { c with writer := some (unsent.drop n) }) enq (done ++ [])
      (frames ++ (unsent.take n ++ [])) ∧ _
    rw [List.append_nil, List.append_nil]
    refine ⟨?_, rfl⟩
    rcases hcase with ⟨hphase, henq, rest, hqueue⟩ | ⟨hphase, hqueue, henq⟩
    · exact .writing hphase rfl hchains hqueue henq hframes' hbegun'
    · exact .closing hphase hqueue rfl hchains henq hframes' hbegun'
  | @writeRest m unsent o hchain hwriter hnext =>
    obtain ⟨hchains, part, left, hleft, hframes, hbegun, hcase⟩ := h.of_writing hchain
    obtain rfl : unsent = left := Option.some.inj (hwriter.symm.trans hleft)
    have hframes' : frames ++ unsent = (done ++ [m]).flatMap Frame.bytes := by
      rw [hframes, List.append_assoc, hbegun.bytes_eq, List.flatMap_append,
        List.flatMap_singleton]
    have hresult : Flow o.1.outlet enq (done ++ [m]) (frames ++ unsent) ∧ Silent o.2 := by
      rcases hcase with ⟨hphase, henq, rest, hqueue⟩ | ⟨hphase, hqueue, henq⟩
      · refine Flow.of_proceeds hnext hchain hchains hphase rfl ?_ hframes'
        rw [henq, hqueue, Deque.toList_dropFront, hqueue, List.append_assoc]
        rfl
      · refine Flow.of_proceeds_closed hnext hchain hchains hphase ?_ ?_
        · rw [Deque.toList_dropFront, hqueue]
          rfl
        · exact ⟨[], by rw [hframes', List.append_nil], .inl ⟨rfl, henq⟩⟩
    obtain ⟨hflow, hw, hs, he⟩ := hresult
    show Flow o.1.outlet enq (done ++ (m :: sent o.2)) (frames ++ (unsent ++ wrote o.2)) ∧
      enqueued o.2 = []
    rw [hs, hw, List.append_nil]
    exact ⟨hflow, he⟩
  | writeFail hchain =>
    obtain ⟨hchains, part, left, -, -, -, hcase⟩ := h.of_writing hchain
    obtain ⟨rfl, -⟩ := only_chain hchain hchains
    obtain ⟨hw, hs, he⟩ := silent_failWriting 0 c
    rw [hs, hw, List.append_nil, List.append_nil]
    refine ⟨.of_failWriting hchains (fun hclosed => ?_) hcut, he⟩
    rcases hcase with ⟨hphase, -⟩ | ⟨-, hqueue, -⟩
    · cases hphase.symm.trans hclosed
    · exact hqueue
  | cancel hchain hphase =>
    obtain ⟨hchains, part, left, -, -, -, hcase⟩ := h.of_writing hchain
    obtain ⟨rfl, -⟩ := only_chain hchain hchains
    have hqueue : c.outbound.toList = [] := by
      rcases hcase with ⟨hopened, -⟩ | ⟨-, hqueue, -⟩
      · cases hphase.symm.trans hopened
      · exact hqueue
    have hnone : c.chains.eraseIdx 0 = [] := by rw [hchains]; rfl
    show Flow (outlet { c with chains := c.chains.eraseIdx 0 }) enq (done ++ []) (frames ++ []) ∧ _
    rw [List.append_nil, List.append_nil]
    exact ⟨.closed hphase hqueue (.inl hnone) hcut, rfl⟩

/-! ### The word and the frames -/

variable {c : Connection κ} {es fs : List (Event κ)}

/-- What a connection has written: before it opens a part of its word, and then the whole word and
what came through the pipeline. -/
inductive HasWritten (c : Connection κ) (es : List (Event κ)) : Prop
  | before (hphase : c.phase ≠ .opened) (hword : c.Word (wrote es)) (hchains : c.chains = [])
    (hsent : sent es = []) (hqueue : c.phase ≠ .closed → c.outbound.toList = enqueued es)
  | after (hstage : c.stage.isLate = true) (hopened : readerEvents es ≠ []) {frames : List UInt8}
    (hwrote : wrote es = Bytes.ofWord c.out ++ frames)
    (hflow : Flow c.outlet (enqueued es) (sent es) frames)

/-- What was written behind the eight bytes of the word: the frames of the messages sent, and a part of
the next one at most. -/
theorem HasWritten.cut (h : HasWritten c es) :
    Cut c.limit (enqueued es) (sent es) ((wrote es).drop handshakeSize) := by
  cases h with
  | before hphase hword hchains hsent hqueue =>
    have hle : (wrote es).length ≤ handshakeSize := by
      simpa [handshakeSize] using hword.isPrefix.length_le
    rw [List.drop_eq_nil_of_le hle, hsent]
    exact ⟨[], rfl, .inl ⟨rfl, List.nil_prefix⟩⟩
  | after hstage hopened hwrote hflow =>
    rw [hwrote, List.drop_left' (show _ = handshakeSize from Bytes.length_ofWord _)]
    exact hflow.cut

/-- Everything behind the eight bytes of the word is the beginning of the enqueued messages. -/
theorem HasWritten.frames_isPrefix (h : HasWritten c es) :
    (wrote es).drop handshakeSize <+: (enqueued es).flatMap Frame.bytes :=
  h.cut.frames_isPrefix

/-- When an open connection has emptied its queue, the frames of all enqueued messages are written. -/
theorem HasWritten.drop_wrote_of_flushed (h : HasWritten c es) (hphase : c.phase = .opened)
    (hattended : c.attended = true) (hflushed : c.outbound.toList = []) :
    (wrote es).drop handshakeSize = (enqueued es).flatMap Frame.bytes := by
  have hqueue : c.outlet.queue = [] := hflushed
  cases h with
  | before hnot => exact absurd hphase hnot
  | after hstage hopened hwrote hflow =>
    rw [hwrote, List.drop_left' (show _ = handshakeSize from Bytes.length_ofWord _)]
    cases hflow with
    | ready _ hwriter hchains henq hframes =>
      rw [henq, hqueue, List.append_nil]
      exact hframes
    | writing _ hwriter hchains hfirst => cases hqueue.symm.trans hfirst
    | dropped hdropped => cases hattended.symm.trans hdropped
    | closed hclosed => cases hphase.symm.trans hclosed
    | closing hclosed => cases hphase.symm.trans hclosed

theorem HasWritten.of_early (h : HasWritten c es) (hstage : c.stage.isLate = false) :
    c.phase ≠ .opened ∧ c.Word (wrote es) ∧ c.chains = [] ∧ sent es = [] ∧
      (c.phase ≠ .closed → c.outbound.toList = enqueued es) := by
  cases h with
  | before hphase hword hchains hsent hqueue => exact ⟨hphase, hword, hchains, hsent, hqueue⟩
  | after hlate => rw [hstage] at hlate; cases hlate

theorem HasWritten.of_late (h : HasWritten c es)
    (hstage : (∃ buf, c.stage = .reading buf) ∨ c.stage = .leaving) :
    readerEvents es ≠ [] ∧ ∃ frames, wrote es = Bytes.ofWord c.out ++ frames ∧
      Flow c.outlet (enqueued es) (sent es) frames := by
  cases h with
  | before hphase hword =>
    unfold Word at hword
    rcases hstage with ⟨buf, hstage⟩ | hstage
    · rw [hstage] at hword; cases hword
    · rw [hstage] at hword; cases hword
  | after hlate hopened hwrote hflow => exact ⟨hopened, _, hwrote, hflow⟩

/-! ### Steps that write no frame -/

/-- A step that leaves writing alone. -/
theorem HasWritten.frame {c' : Connection κ} (h : HasWritten c es) (hstage : c'.stage = c.stage)
    (hside : c'.side = c.side) (hout : c'.out = c.out) (hview : c'.outlet = c.outlet)
    (hfs : Silent fs) : HasWritten c' (es ++ fs) := by
  obtain ⟨hw, hs, he⟩ := hfs
  have hphase : c'.phase = c.phase := congrArg Outlet.phase hview
  have hqueues : c'.outbound.toList = c.outbound.toList := congrArg Outlet.queue hview
  have hchains' : c'.chains = c.chains := congrArg Outlet.chains hview
  cases h with
  | before hopen hword hchains hsent hqueue =>
    refine .before (by rwa [hphase]) ?_ (by rw [hchains', hchains]) ?_ ?_
    · rw [wrote_append, hw, List.append_nil]
      unfold Word at hword ⊢
      rwa [hstage, hside, hout]
    · rw [sent_append, hsent, hs]
      rfl
    · rwa [hphase, hqueues, enqueued_append, he, List.append_nil]
  | after hlate hopened hwrote hflow =>
    refine .after (by rwa [hstage]) (readerEvents_ne_nil hopened fs)
      (by rw [wrote_append, hw, List.append_nil, hwrote, hout]) ?_
    rwa [hview, enqueued_append, he, List.append_nil, sent_append, hs, List.append_nil]

/-- A step of the main task before the connection opens, which may write bytes of the word. -/
theorem HasWritten.advance {c' : Connection κ} (h : HasWritten c es)
    (hearly : c.stage.isLate = false) (hphase : c'.phase ≠ .opened)
    (hclosed : c'.phase ≠ .closed → c.phase ≠ .closed) (hchains : c'.chains = c.chains)
    (houtbound : c'.outbound = c.outbound) (hsent : sent fs = []) (hfs : enqueued fs = [])
    (hword : c.Word (wrote es) → c'.Word (wrote es ++ wrote fs)) : HasWritten c' (es ++ fs) := by
  obtain ⟨-, hword₀, hchains₀, hsent₀, hqueue₀⟩ := h.of_early hearly
  refine .before hphase ?_ (hchains.trans hchains₀) ?_ fun hopen => ?_
  · rw [wrote_append]
    exact hword hword₀
  · rw [sent_append, hsent₀, hsent]
    rfl
  · rw [houtbound, enqueued_append, hfs, List.append_nil]
    exact hqueue₀ (hclosed hopen)

/-- The main task ends. -/
theorem HasWritten.finish (h : HasWritten c es) :
    HasWritten { c with stage := .finished } es := by
  cases h with
  | before hphase hword hchains hsent hqueue =>
    exact .before hphase hword.isPrefix hchains hsent hqueue
  | after hlate hopened hwrote hflow => exact .after rfl hopened hwrote hflow

/-- The main task reads on or stops reading. -/
theorem HasWritten.goOn (h : HasWritten c es) {buf : List UInt8} (hstage : c.stage = .reading buf)
    {stage : Stage} (hlate : stage.isLate = true) : HasWritten { c with stage := stage } es := by
  obtain ⟨hopened, frames, hwrote, hflow⟩ := h.of_late (.inl ⟨buf, hstage⟩)
  exact .after hlate hopened hwrote hflow

/-- The connection is closed. -/
theorem HasWritten.close (h : HasWritten c es) (hfs : Silent fs) :
    HasWritten c.close.1 (es ++ fs) := by
  obtain ⟨hw, hs, he⟩ := hfs
  cases h with
  | before hphase hword hchains hsent hqueue =>
    refine .before (by rw [phase_close]; nofun) ?_ (by rw [chains_close, hchains]) ?_ ?_
    · rw [wrote_append, hw, List.append_nil]
      unfold Word at hword ⊢
      rwa [stage_close, side_close, out_close]
    · rw [sent_append, hsent, hs]
      rfl
    · intro hopen
      exact absurd (phase_close c) hopen
  | @after hlate hopened frames hwrote hflow =>
    have hlate' : c.close.1.stage.isLate = true := by rwa [stage_close]
    refine @HasWritten.after _ _ _ _ hlate' (readerEvents_ne_nil hopened fs) frames ?_ ?_
    · rw [wrote_append, hw, List.append_nil, out_close]
      exact hwrote
    · rw [outlet_close, enqueued_append, he, List.append_nil, sent_append, hs, List.append_nil]
      exact hflow.close

/-- The handshake fails. -/
theorem HasWritten.failHandshake (h : HasWritten c es) :
    HasWritten c.failHandshake.1 (es ++ c.failHandshake.2) := by
  have hclose := h.finish.close (silent_failHandshake c)
  rw [failHandshake_eq] at hclose ⊢
  exact hclose

theorem HasWritten.stopReading (h : HasWritten c es) {buf : List UInt8}
    (hstage : c.stage = .reading buf) (errored : Bool) :
    HasWritten (c.stopReading errored).1 (es ++ (c.stopReading errored).2) :=
  (h.goOn hstage rfl).close (silent_stopReading errored c)

/-- Without the lock of the writer, the writer of a connection that is not open does not matter. -/
theorem Flow.dropWriter (h : Flow c.outlet enq done frames) (hphase : c.phase ≠ .opened)
    (hlock : c.isLocked = false) (w : Option (List UInt8)) :
    Flow (outlet { c with writer := w }) enq done frames := by
  cases h with
  | ready hopened => exact absurd hopened hphase
  | writing hopened => exact absurd hopened hphase
  | dropped hattended hchains hcut => exact .dropped hattended hchains hcut
  | closed hclosed hqueue hchains hcut => exact .closed hclosed hqueue hchains hcut
  | closing hclosed hqueue hwriter hchains =>
    have hchains : c.chains = _ := hchains
    simp [isLocked, hchains] at hlock

/-! ### Every step keeps it -/

theorem HasWritten.taskMove {t : Turn} {o : Outcome κ} (h : HasWritten c es) (horder : Orderly c)
    (hmove : TaskMove c t o) : HasWritten o.1 (es ++ o.2) := by
  have hword : ∀ {bs : List UInt8} {stage : Stage}, c.stage = stage → c.Word bs →
      Word { c with stage := stage } bs := by
    rintro bs stage rfl h
    exact h
  have hopen : c.stage.isLate = false → c.phase ≠ .opened := fun hearly => (h.of_early hearly).1
  -- Up to `enter` the main task writes the word, in as many parts as it takes, and after that nothing.
  cases hmove with
  | begin hstage hsocket =>
    have hearly : c.stage.isLate = false := by rw [hstage]; rfl
    refine h.advance hearly (hopen hearly) (fun h => h) rfl rfl rfl rfl fun hw => ?_
    have hnone : wrote es = [] := hword hstage hw
    rw [hnone]
    rfl
  | beginLate hstage hsocket => exact h.finish.frame rfl rfl rfl rfl .nil
  | attach hstage hphase =>
    have hearly : c.stage.isLate = false := by rw [hstage]; rfl
    refine h.advance hearly nofun (fun _ => by rw [hphase]; nofun) rfl rfl rfl rfl fun hw => ?_
    have hnone : wrote es = [] := hword hstage hw
    show wrote es ++ [] = match c.side with | .server => Bytes.ofWord c.out | .client => []
    rw [hnone, horder.connecting hstage]
    rfl
  | attachLate hstage hphase => exact h.finish.frame rfl rfl rfl rfl .nil
  | giveUp hstage =>
    obtain ⟨hw, hs, he⟩ := silent_close { c with stage := .finished }
    exact h.finish.close ⟨hw, hs, he⟩
  | @writePart unsent n hstage hn hlt =>
    have hearly : c.stage.isLate = false := by rw [hstage]; rfl
    refine h.advance hearly (hopen hearly) (fun h => h) rfl rfl rfl rfl fun hw => ?_
    have hrest : wrote es ++ unsent = Bytes.ofWord c.out := hword hstage hw
    show wrote es ++ (unsent.take n ++ []) ++ unsent.drop n = Bytes.ofWord c.out
    rw [List.append_nil, List.append_assoc, List.take_append_drop]
    exact hrest
  | @writeRest unsent hstage hside =>
    have hearly : c.stage.isLate = false := by rw [hstage]; rfl
    refine h.advance hearly (hopen hearly) (fun h => h) rfl rfl rfl rfl fun hw => ?_
    have hrest : wrote es ++ unsent = Bytes.ofWord c.out := hword hstage hw
    show wrote es ++ (unsent ++ []) =
      match c.side with | .server => Bytes.ofWord c.out | .client => []
    rw [List.append_nil, hside]
    exact hrest
  | @writeAnswer unsent hstage hside =>
    have hearly : c.stage.isLate = false := by rw [hstage]; rfl
    refine h.advance hearly (hopen hearly) (fun h => h) rfl rfl rfl rfl fun hw => ?_
    have hrest : wrote es ++ unsent = Bytes.ofWord c.out := hword hstage hw
    show wrote es ++ (unsent ++ []) = Bytes.ofWord c.out
    rw [List.append_nil]
    exact hrest
  | writeFail hstage => exact h.failHandshake
  | cutShort hstage hpending hending => exact h.failHandshake
  | readPart hstage hread hlen =>
    have hearly : c.stage.isLate = false := by rw [hstage]; rfl
    refine h.advance hearly (hopen hearly) (fun h => h) rfl rfl rfl rfl fun hw => ?_
    show Word _ (wrote es ++ [])
    rw [List.append_nil]
    exact hword hstage hw
  | welcome hstage hread hlen hside hexpected =>
    have hearly : c.stage.isLate = false := by rw [hstage]; rfl
    refine h.advance hearly (hopen hearly) (fun h => h) rfl rfl rfl rfl fun hw => ?_
    have hmine : wrote es = match c.side with | .server => Bytes.ofWord c.out | .client => [] :=
      hword hstage hw
    rw [hside] at hmine
    show wrote es ++ [] = Bytes.ofWord c.out
    rw [List.append_nil]
    exact hmine
  | @refuse got word pending hstage hread hlen hside hexpected =>
    have hheard : HasWritten
        { c with inlet := { c.inlet with pending := pending }, heard := Bytes.toWord word }
        (es ++ []) := h.frame rfl rfl rfl rfl .nil
    rw [List.append_nil] at hheard
    exact hheard.failHandshake
  | answer hstage hread hlen hside =>
    have hearly : c.stage.isLate = false := by rw [hstage]; rfl
    refine h.advance hearly (hopen hearly) (fun h => h) rfl rfl rfl rfl fun hw => ?_
    have hmine : wrote es = match c.side with | .server => Bytes.ofWord c.out | .client => [] :=
      hword hstage hw
    rw [hside] at hmine
    rw [hmine]
    rfl
  | enter hstage hlock hphase =>
    have hearly : c.stage.isLate = false := by rw [hstage]; rfl
    obtain ⟨-, hw, hchains, hsent, hqueue⟩ := h.of_early hearly
    have hmine : wrote es = Bytes.ofWord c.out := hword hstage hw
    have hqueue := hqueue (by rw [hphase]; nofun)
    have hopened : readerEvents (es ++ [.opened]) ≠ [] := by
      rw [readerEvents_append]
      exact List.append_ne_nil_of_right_ne_nil _ nofun
    refine @HasWritten.after _ _ _ _ rfl hopened [] ?_ ?_
    · rw [wrote_append, hmine]
      rfl
    · rw [enqueued_append, sent_append, hsent]
      refine .ready rfl rfl ?_ (by rw [← hqueue]; exact List.append_nil _) rfl
      show (if c.outbound.isEmpty then c.chains else c.chains ++ [.waiting]) =
        if c.outbound.toList.isEmpty then [] else [.waiting]
      rw [hchains, Deque.isEmpty_eq]
      rfl
  | enterLate hstage hlock hphase =>
    have hearly : c.stage.isLate = false := by rw [hstage]; rfl
    refine h.advance hearly (hopen hearly) (fun h => h) rfl rfl rfl rfl fun hw => ?_
    show wrote es ++ [] <+: Bytes.ofWord c.out
    rw [List.append_nil]
    exact hw.isPrefix
  | message hstage hdecode => exact (h.goOn hstage rfl).frame rfl rfl rfl rfl ⟨rfl, rfl, rfl⟩
  | fault hstage hdecode => exact h.stopReading hstage true
  | more hstage hdecode hpending => exact (h.goOn hstage rfl).frame rfl rfl rfl rfl .nil
  | streamEnd hstage hdecode hpending hending => exact h.stopReading hstage _
  | cancel hphase hstage => exact h.finish.frame rfl rfl rfl rfl .nil
  | cancelReading hphase hstage => exact (h.goOn hstage rfl).frame rfl rfl rfl rfl .nil
  | leave hstage hlock =>
    obtain ⟨hopened, frames, hwrote, hflow⟩ := h.of_late (.inr hstage)
    have hphase : c.phase ≠ .opened :=
      horder.not_opened (horder.attended_of_stage (by rw [hstage]; nofun) (by rw [hstage]; nofun))
        (by rw [hstage]; nofun)
    rw [List.append_nil]
    exact .after rfl hopened hwrote (hflow.dropWriter hphase hlock none)

/-- Chains leave the main task and the word alone. -/
theorem Proceeds.main_eq {i : Nat} {o : Outcome κ} (h : Proceeds i c o) :
    o.1.stage = c.stage ∧ o.1.out = c.out := by
  cases h with
  | starts => exact ⟨rfl, rfl⟩
  | refuses => exact ⟨stage_close _, out_close _⟩
  | ends => exact ⟨rfl, rfl⟩

theorem ChainMove.main_eq {i : Nat} {t : Turn} {o : Outcome κ} (h : ChainMove i c t o) :
    o.1.stage = c.stage ∧ o.1.out = c.out := by
  cases h with
  | locks _ _ hnext => exact hnext.main_eq
  | writePart => exact ⟨rfl, rfl⟩
  | writeRest _ _ hnext => exact hnext.main_eq
  | writeFail => exact ⟨stage_close _, out_close _⟩
  | cancel => exact ⟨rfl, rfl⟩

theorem HasWritten.chainMove {i : Nat} {t : Turn} {o : Outcome κ} (h : HasWritten c es)
    (hmove : ChainMove i c t o) : HasWritten o.1 (es ++ o.2) := by
  obtain ⟨hstage, hout⟩ := hmove.main_eq
  cases h with
  | before hphase hword hchains =>
    cases hmove with
    | locks hchain => rw [hchains] at hchain; cases hchain
    | writePart hchain => rw [hchains] at hchain; cases hchain
    | writeRest hchain => rw [hchains] at hchain; cases hchain
    | writeFail hchain => rw [hchains] at hchain; cases hchain
    | cancel hchain => rw [hchains] at hchain; cases hchain
  | @after hlate hopened frames hwrote hflow =>
    obtain ⟨hflow, he⟩ := hflow.chainMove hmove
    have hlate' : o.1.stage.isLate = true := by rwa [hstage]
    refine @HasWritten.after _ _ _ _ hlate' (readerEvents_ne_nil hopened o.2)
      (frames ++ wrote o.2) ?_ ?_
    · rw [wrote_append, hwrote, hout, List.append_assoc]
    · rw [enqueued_append, he, List.append_nil, sent_append]
      exact hflow

/-- A posted message is put into the queue. -/
theorem HasWritten.enqueue (h : HasWritten c es) (hphase : c.phase ≠ .closed)
    (hattended : c.attended = true) (m : Message κ) :
    HasWritten
      { c with
        outbound := c.outbound.pushBack m
        chains := if c.outbound.isEmpty && c.phase == .opened then c.chains ++ [.waiting]
          else c.chains }
      (es ++ [.enqueued m]) := by
  cases h with
  | before hopen hword hchains hsent hqueue =>
    have hnot : (c.phase == .opened) = false := by simpa using hopen
    refine .before hopen ?_ ?_ ?_ fun _ => ?_
    · rw [wrote_append]
      show Word c (wrote es ++ [])
      rw [List.append_nil]
      exact hword
    · simpa [hnot] using hchains
    · rw [sent_append, hsent]
      rfl
    · rw [enqueued_append, ← hqueue hphase]
      exact Deque.toList_pushBack c.outbound m
  | @after hlate hopened frames hwrote hflow =>
    refine @HasWritten.after _ _ _ _ hlate (readerEvents_ne_nil hopened _) frames ?_ ?_
    · rw [wrote_append, hwrote]
      exact List.append_nil _
    · have hflow := hflow.enqueue hphase hattended m
      rw [enqueued_append, sent_append]
      show Flow _ (enqueued es ++ [m]) (sent es ++ []) frames
      rw [List.append_nil]
      unfold outlet at hflow ⊢
      simpa [Deque.isEmpty_eq] using hflow

/-- **Writing.**  A step keeps what was written. -/
theorem HasWritten.step {a : Action κ} {o : Outcome κ} (h : HasWritten c es) (horder : Orderly c)
    (hstep : c.step a = some o) : HasWritten o.1 (es ++ o.2) := by
  cases move_of_step hstep with
  | send thread m =>
    have hsame : (c.send thread m).stage = c.stage ∧ (c.send thread m).side = c.side ∧
        (c.send thread m).out = c.out ∧ (c.send thread m).outlet = c.outlet := by
      unfold Connection.send
      split
      · exact ⟨rfl, rfl, rfl, rfl⟩
      · cases thread <;> exact ⟨rfl, rfl, rfl, rfl⟩
    exact h.frame hsame.1 hsame.2.1 hsame.2.2.1 hsame.2.2.2 .nil
  | disconnect thread => exact h.close (silent_close c)
  | approve id hside hstage hattended =>
    have hearly : c.stage.isLate = false := by rw [hstage]; rfl
    show HasWritten (c.approve id) (es ++ [])
    unfold Connection.approve
    split
    · refine h.advance hearly (h.of_early hearly).1 (fun h => h) rfl rfl rfl rfl fun hw => ?_
      unfold Word at hw
      rw [hstage] at hw
      rw [hw]
      rfl
    · rw [List.append_nil]
      exact h
  | abort =>
    rw [List.append_nil]
    cases h with
    | before hphase hword hchains hsent hqueue =>
      refine .before hphase ?_ rfl hsent hqueue
      unfold abort Word
      by_cases habsent : c.stage = .absent
      · simpa [Word, habsent] using hword
      · simpa [habsent] using hword.isPrefix
    | after hlate hopened hwrote hflow =>
      have hstage : c.abort.stage.isLate = true := by
        unfold abort
        split
        · next habsent => rw [habsent] at hlate; cases hlate
        · rfl
      exact .after hstage hopened hwrote (.dropped rfl rfl hflow.cut)
  | arrive bytes hending => exact h.frame rfl rfl rfl rfl .nil
  | expire ending hending => exact h.frame rfl rfl rfl rfl .nil
  | @refuse thread m rest hposted hphase =>
    cases thread with
    | application => exact h.frame rfl rfl rfl rfl .nil
    | reactor => exact h.frame rfl rfl rfl rfl .nil
  | @enqueue thread m rest hposted hphase =>
    have hattended := horder.attended_of_posted hposted
    cases thread with
    | application =>
      have hrest : HasWritten (c.withPosted rest .application) (es ++ []) :=
        h.frame rfl rfl rfl rfl .nil
      rw [List.append_nil] at hrest
      exact hrest.enqueue hphase hattended m
    | reactor =>
      have hrest : HasWritten (c.withPosted rest .reactor) (es ++ []) :=
        h.frame rfl rfl rfl rfl .nil
      rw [List.append_nil] at hrest
      exact hrest.enqueue hphase hattended m
  | task hmove => exact h.taskMove horder hmove
  | chain hmove => exact h.chainMove hmove

end Parley.Connection

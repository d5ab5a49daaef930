import Parley.Proofs.Connection.Sound

/-!
# Parley.Proofs.Connection.Pipeline — from the queue to the socket

What `HasWritten` says of the write chain, put together for every run of a connection from its
beginning (`write_pipeline`): there is one chain at most, and while the connection is open there is
one exactly if a message is queued; what is written behind the word of the handshake is the frames of
the messages sent and then the beginning of the next one at most; and a message leaves the queue when
its frame is written.  A message that is too long is where writing ends: the chain that comes to it
closes the connection and has written the messages before it and nothing else.
-/

namespace Parley.Connection

variable {κ : Type}

/-- A connection as a server or a client makes it. -/
inductive Fresh : Connection κ → Prop
  | accepted (limit : Nat) (ch : Challenge) : Fresh (accepted limit ch)
  | outgoing (limit : Nat) : Fresh (outgoing limit)

theorem Fresh.attended {c : Connection κ} (h : Fresh c) : c.attended = true := by
  cases h with
  | accepted => rfl
  | outgoing => rfl

variable [Kind κ] {c : Connection κ} {es : List (Event κ)}

theorem Fresh.sound (h : Fresh c) : Sound c [] [] := by
  cases h with
  | accepted limit ch => exact sound_accepted limit ch
  | outgoing limit => exact sound_outgoing limit

/-! ### What a step sends -/

theorem TaskMove.sent_eq {t : Turn} {o : Outcome κ} (h : TaskMove c t o) : sent o.2 = [] := by
  cases h with
  | giveUp => exact (silent_close { c with stage := .finished }).sent_eq
  | writeFail => exact (silent_failHandshake c).sent_eq
  | cutShort => exact (silent_failHandshake c).sent_eq
  | refuse => exact (silent_failHandshake _).sent_eq
  | fault => exact (silent_stopReading _ c).sent_eq
  | streamEnd => exact (silent_stopReading _ c).sent_eq
  | _ => rfl

theorem Proceeds.silent {i : Nat} {o : Outcome κ} (h : Proceeds i c o) : Silent o.2 := by
  cases h with
  | starts => exact .nil
  | refuses => exact silent_failWriting i c
  | ends => exact .nil

theorem ChainMove.sent_eq {i : Nat} {t : Turn} {o : Outcome κ} (h : ChainMove i c t o) :
    sent o.2 = [] ∨ ∃ m, c.chains[i]? = some (.writing m) ∧ sent o.2 = [m] := by
  cases h with
  | locks hchain hlock hnext => exact .inl hnext.silent.sent_eq
  | writePart => exact .inl rfl
  | writeRest hchain hwriter hnext =>
    refine .inr ⟨_, hchain, ?_⟩
    exact congrArg (_ :: ·) hnext.silent.sent_eq
  | writeFail => exact .inl (silent_failWriting i c).sent_eq
  | cancel => exact .inl rfl

/-- Only a chain sends, and what it sends is the message it was writing. -/
theorem sent_step {a : Action κ} {o : Outcome κ} (hstep : c.step a = some o) :
    sent o.2 = [] ∨ ∃ (i : Nat) (m : Message κ),
      c.chains[i]? = some (.writing m) ∧ sent o.2 = [m] := by
  cases move_of_step hstep with
  | disconnect => exact .inl (silent_close c).sent_eq
  | task hmove => exact .inl hmove.sent_eq
  | chain hmove => exact hmove.sent_eq.imp_right fun h => ⟨_, h⟩
  | _ => exact .inl rfl

/-- A chain that is writing a message has found it short enough. -/
theorem HasWritten.fits (h : HasWritten c es) {i : Nat} {m : Message κ}
    (hi : c.chains[i]? = some (.writing m)) : m.body.length ≤ c.limit := by
  cases h with
  | before _ _ hchains => rw [hchains] at hi; cases hi
  | after _ _ _ hflow =>
    obtain ⟨-, part, unsent, -, -, hbegun, -⟩ := hflow.of_writing hi
    exact hbegun.fits

/-! ### The pipeline at one moment -/

variable {enq done : List (Message κ)} {frames : List UInt8}

namespace Flow

theorem length_chains_le (h : Flow c.outlet enq done frames) : c.chains.length ≤ 1 := by
  cases h with
  | ready hphase hwriter hchains =>
    rw [show c.chains = _ from hchains]
    split
    · exact Nat.zero_le 1
    · exact Nat.le_refl 1
  | writing hphase hwriter hchains => rw [show c.chains = _ from hchains]; exact Nat.le_refl 1
  | dropped hattended hchains => rw [show c.chains = _ from hchains]; exact Nat.zero_le 1
  | closed hphase hqueue hchains =>
    rcases hchains with hchains | hchains
    · rw [show c.chains = _ from hchains]; exact Nat.zero_le 1
    · rw [show c.chains = _ from hchains]; exact Nat.le_refl 1
  | closing hphase hqueue hwriter hchains =>
    rw [show c.chains = _ from hchains]; exact Nat.le_refl 1

/-- As long as the connection is open and its tasks run, nothing is lost: the messages enqueued are
those sent and those queued, and a chain is there if any is queued. -/
theorem of_not_closed (h : Flow c.outlet enq done frames) (hphase : c.phase ≠ .closed)
    (hattended : c.attended = true) :
    enq = done ++ c.outbound.toList ∧ (c.outbound.toList ≠ [] ↔ c.chains.length = 1) := by
  cases h with
  | ready _ _ hchains henq =>
    refine ⟨henq, ?_⟩
    rw [show c.chains = _ from hchains]
    show c.outbound.toList ≠ [] ↔
      (if c.outbound.toList.isEmpty then [] else [Chain.waiting (κ := κ)]).length = 1
    cases c.outbound.toList with
    | nil => simp
    | cons m rest => simp
  | writing _ _ hchains hqueue henq =>
    refine ⟨henq, ?_⟩
    rw [show c.chains = _ from hchains, show c.outbound.toList = _ from hqueue]
    simp
  | dropped hdropped => cases hattended.symm.trans hdropped
  | closed hclosed => exact absurd hclosed hphase
  | closing hclosed => exact absurd hclosed hphase

/-- The frames of the messages sent, and then the beginning of the frame that is being written, or
was when the connection was closed. -/
theorem exists_part (h : Flow c.outlet enq done frames) :
    ∃ part, frames = done.flatMap Frame.bytes ++ part ∧
      ((part = [] ∧ done <+: enq) ∨ ∃ m unsent, done ++ [m] <+: enq ∧
        Begun c.limit m part unsent ∧
        (c.chains = [.writing m] ∨ c.phase = .closed ∨ c.attended = false)) := by
  by_cases hlate : c.phase = .closed ∨ c.attended = false
  · obtain ⟨part, hframes, hnone | ⟨m, unsent, hdone, hbegun⟩⟩ := h.cut
    · exact ⟨part, hframes, .inl hnone⟩
    · exact ⟨part, hframes, .inr ⟨m, unsent, hdone, hbegun, .inr hlate⟩⟩
  · cases h with
    | ready hphase hwriter hchains henq hframes =>
      exact ⟨[], by rw [hframes, List.append_nil], .inl ⟨rfl, _, henq.symm⟩⟩
    | @writing m rest part unsent hphase hwriter hchains hqueue henq hframes hbegun =>
      refine ⟨part, hframes, .inr ⟨m, unsent, ⟨rest, ?_⟩, hbegun, .inl hchains⟩⟩
      rw [henq, hqueue, List.append_assoc]
      rfl
    | dropped hattended => exact absurd (.inr hattended) hlate
    | closed hphase => exact absurd (.inl hphase) hlate
    | closing hphase => exact absurd (.inl hphase) hlate

end Flow

/-! ### A message that is too long -/

variable {before after : List (Message κ)} {m : Message κ}

omit [Kind κ] in
/-- Messages that are short enough are in front of the first one that is too long. -/
theorem isPrefix_of_fits {limit : Nat} (hdone : done <+: before ++ m :: after)
    (hfits : ∀ x ∈ done, x.body.length ≤ limit) (hlong : limit < m.body.length) :
    done <+: before := by
  have hm : before ++ [m] <+: before ++ m :: after := ⟨after, by simp⟩
  rcases List.prefix_or_prefix_of_prefix hdone hm with h | h
  · rcases List.prefix_concat_iff.mp h with rfl | h
    · exact absurd hlong (Nat.not_lt_of_le (hfits m (by simp)))
    · exact h
  · exact absurd hlong (Nat.not_lt_of_le (hfits m (h.subset (by simp))))

/-- A chain that goes on to a message that is too long closes the connection. -/
theorem Proceeds.closes {i : Nat} {o : Outcome κ} {rest : List (Message κ)}
    (h : Proceeds i c o) (hwriter : c.writer ≠ none) (hqueue : c.outbound.toList = m :: rest)
    (hlong : c.limit < m.body.length) : o.1.phase = .closed := by
  cases h with
  | starts hfirst hunsent hlen =>
    rw [hqueue] at hfirst
    cases hfirst
    exact absurd hlong (Nat.not_lt_of_le hlen)
  | refuses => exact phase_close _
  | ends hend =>
    rcases hend with hempty | hnone
    · rw [hqueue] at hempty; cases hempty
    · exact absurd hnone hwriter

namespace Flow

/-- Nothing is written of a message that is too long. -/
theorem unwritten (h : Flow c.outlet (before ++ m :: after) done frames)
    (hfits : ∀ x ∈ done, x.body.length ≤ c.limit) (hlong : c.limit < m.body.length) :
    done <+: before ∧ frames <+: before.flatMap Frame.bytes := by
  obtain ⟨part, hframes, ⟨hnone, hdone⟩ | ⟨m', unsent, hdone, hbegun⟩⟩ := h.cut
  · have hbefore := isPrefix_of_fits hdone hfits hlong
    have hcut : Cut c.limit before done frames := ⟨part, hframes, .inl ⟨hnone, hbefore⟩⟩
    exact ⟨hbefore, hcut.frames_isPrefix⟩
  · have hfits' : ∀ x ∈ done ++ [m'], x.body.length ≤ c.limit := by
      intro x hx
      rcases List.mem_append.mp hx with hx | hx
      · exact hfits x hx
      · exact List.mem_singleton.mp hx ▸ hbegun.fits
    have hbefore := isPrefix_of_fits hdone hfits' hlong
    have hcut : Cut c.limit before done frames :=
      ⟨part, hframes, .inr ⟨m', unsent, hbefore, hbegun⟩⟩
    exact ⟨(List.prefix_append _ _).trans hbefore, hcut.frames_isPrefix⟩

/-- A chain of an open connection comes to a message that is too long: the connection is closed, and
the frames written are those of the messages before it. -/
theorem closes {i : Nat} {t : Turn} {o : Outcome κ}
    (h : Flow c.outlet (before ++ m :: after) done frames) (hlong : c.limit < m.body.length)
    (hphase : c.phase = .opened) (hmove : ChainMove i c t o) (hdone : done ++ sent o.2 = before) :
    o.1.phase = .closed ∧ frames ++ wrote o.2 = before.flatMap Frame.bytes := by
  -- A chain that is still writing a message found it short enough, so it has not come to `m`.
  have hbusy : ∀ {m' : Message κ}, c.chains[i]? = some (.writing m') → done ≠ before := by
    rintro m' hchain rfl
    obtain ⟨-, part, unsent, -, -, hbegun, ⟨-, henq, rest, hqueue⟩ | ⟨hclosed, -⟩⟩ :=
      h.of_writing hchain
    · rw [hqueue] at henq
      obtain ⟨rfl, -⟩ := List.cons.inj (List.append_cancel_left henq)
      exact Nat.not_lt_of_le hbegun.fits hlong
    · cases hphase.symm.trans hclosed
  cases hmove with
  | locks hchain hlock hnext =>
    obtain ⟨-, ⟨-, hwriter, henq, hframes⟩ | ⟨hclosed, -⟩⟩ := h.of_waiting hchain
    · obtain ⟨hwrote, hsent, -⟩ := hnext.silent
      rw [hsent, List.append_nil] at hdone
      subst hdone
      refine ⟨hnext.closes (by rw [hwriter]; nofun) (List.append_cancel_left henq).symm hlong, ?_⟩
      rw [hwrote, List.append_nil, hframes]
    · cases hphase.symm.trans hclosed
  | writePart hchain => exact absurd ((List.append_nil _).symm.trans hdone) (hbusy hchain)
  | @writeRest m' unsent o hchain hwriter hnext =>
    obtain ⟨-, part, left, hleft, hframes, hbegun, ⟨-, henq, rest, hqueue⟩ | ⟨hclosed, -⟩⟩ :=
      h.of_writing hchain
    · obtain rfl : unsent = left := Option.some.inj (hwriter.symm.trans hleft)
      obtain ⟨hwrote, hsent, -⟩ := hnext.silent
      have hdone : done ++ [m'] = before := by rw [← hdone, ← hsent]; rfl
      have hrest : rest = m :: after := by
        rw [hqueue, ← hdone, List.append_assoc] at henq
        exact (List.cons.inj (List.append_cancel_left henq)).2.symm
      have hnow : c.outbound.dropFront.toList = m :: after := by
        rw [Deque.toList_dropFront, hqueue, hrest]
        rfl
      refine ⟨hnext.closes nofun hnow hlong, ?_⟩
      · show frames ++ (unsent ++ wrote o.2) = before.flatMap Frame.bytes
        rw [hwrote, List.append_nil, hframes, List.append_assoc, hbegun.bytes_eq, ← hdone,
          List.flatMap_append, List.flatMap_singleton]
    · cases hphase.symm.trans hclosed
  | writeFail hchain =>
    rw [(silent_failWriting i c).sent_eq, List.append_nil] at hdone
    exact absurd hdone (hbusy hchain)
  | cancel hchain => exact absurd ((List.append_nil _).symm.trans hdone) (hbusy hchain)

/-- When the messages before it are sent, a chain waits for nothing but the lock, which is free. -/
theorem comes (h : Flow c.outlet (before ++ m :: after) before frames)
    (hlong : c.limit < m.body.length) (hphase : c.phase = .opened) (hattended : c.attended = true) :
    ∃ o, c.step (.chain 0 .ready) = some o := by
  have hchains : c.chains = [.waiting] := by
    cases h with
    | ready _ _ hchains henq =>
      have hqueue : c.outbound.toList = m :: after := (List.append_cancel_left henq).symm
      have hchains : c.chains = if c.outbound.toList.isEmpty then [] else [.waiting] := hchains
      rwa [hqueue] at hchains
    | writing _ _ _ hqueue henq _ hbegun =>
      rw [hqueue] at henq
      obtain ⟨rfl, -⟩ := List.cons.inj (List.append_cancel_left henq)
      exact absurd hlong (Nat.not_lt_of_le hbegun.fits)
    | dropped hdropped => cases hattended.symm.trans hdropped
    | closed hclosed => cases hphase.symm.trans hclosed
    | closing hclosed => cases hphase.symm.trans hclosed
  exact ⟨c.writeNext 0, by simp [step, chainTurn, isLocked, hchains]⟩

end Flow

/-! ### The tasks go on -/

theorem TaskMove.attended_eq {t : Turn} {o : Outcome κ} (h : TaskMove c t o) :
    o.1.attended = c.attended := by
  cases h with
  | giveUp => exact attended_close _
  | writeFail => rw [failHandshake_eq]; exact attended_close _
  | cutShort => rw [failHandshake_eq]; exact attended_close _
  | refuse => rw [failHandshake_eq]; exact attended_close _
  | fault => exact attended_close _
  | streamEnd => exact attended_close _
  | _ => rfl

theorem Proceeds.attended_eq {i : Nat} {o : Outcome κ} (h : Proceeds i c o) :
    o.1.attended = c.attended := by
  cases h with
  | starts => rfl
  | refuses => exact attended_close _
  | ends => rfl

theorem ChainMove.attended_eq {i : Nat} {t : Turn} {o : Outcome κ} (h : ChainMove i c t o) :
    o.1.attended = c.attended := by
  cases h with
  | locks _ _ hnext => exact hnext.attended_eq
  | writePart => rfl
  | writeRest _ _ hnext => exact hnext.attended_eq
  | writeFail => exact attended_close _
  | cancel => rfl

/-- Tasks are dropped by nothing but the end of their thread. -/
theorem attended_step {a : Action κ} {o : Outcome κ} (hstep : c.step a = some o)
    (ha : a ≠ .abort) : o.1.attended = c.attended := by
  cases move_of_step hstep with
  | send thread m =>
    show (c.send thread m).attended = c.attended
    unfold Connection.send
    split
    · rfl
    · cases thread <;> rfl
  | disconnect => exact attended_close c
  | approve id =>
    show (c.approve id).attended = c.attended
    unfold Connection.approve
    split <;> rfl
  | abort => exact absurd rfl ha
  | arrive => rfl
  | expire => rfl
  | @refuse thread => cases thread <;> rfl
  | @enqueue thread => cases thread <;> rfl
  | task hmove => exact hmove.attended_eq
  | chain hmove => exact hmove.attended_eq

/-! ### The pipeline of a run -/

/-- The way from the queue to the socket, of a connection `c` with the history `es`. -/
structure Pipelined (limit : Nat) (c : Connection κ) (es : List (Event κ)) : Prop where
  /-- There is one write chain at most, running or waiting. -/
  single : c.chains.length ≤ 1
  /-- While the connection is open, there is one exactly if a message is queued. -/
  busy : c.phase = .opened → c.attended = true →
    (c.outbound.toList ≠ [] ↔ c.chains.length = 1)
  /-- The first bytes written are those of the handshake. -/
  word : (wrote es).take handshakeSize <+: Bytes.ofWord c.out
  /-- Messages are sent in the order in which they were enqueued. -/
  order : sent es <+: enqueued es
  /-- Behind the handshake are the frames of the messages sent, and then a part of the next one at
  most, which a chain is writing, unless the connection was closed or its tasks were dropped. -/
  frames : ∃ part, (wrote es).drop handshakeSize = (sent es).flatMap Frame.bytes ++ part ∧
    (part = [] ∨ ∃ m, sent es ++ [m] <+: enqueued es ∧ part <+: Frame.bytes m ∧
      part ≠ Frame.bytes m ∧ (c.chains = [.writing m] ∨ c.phase = .closed ∨ c.attended = false))
  /-- Until the connection is closed, what was enqueued and not sent is queued. -/
  kept : c.phase ≠ .closed → c.attended = true → enqueued es = sent es ++ c.outbound.toList
  /-- Nothing is written of a message that is too long, nor of those behind it. -/
  unwritten : ∀ before m after, enqueued es = before ++ m :: after → limit < m.body.length →
    sent es <+: before ∧ (wrote es).drop handshakeSize <+: before.flatMap Frame.bytes
  /-- When the messages before it are sent, a chain can come to it, -/
  comes : ∀ before m after, enqueued es = before ++ m :: after → limit < m.body.length →
    sent es = before → c.phase = .opened → c.attended = true →
      ∃ o, c.step (.chain 0 .ready) = some o
  /-- and a chain that comes to it closes the connection, with the messages before it written. -/
  closes : ∀ before m after i t o, enqueued es = before ++ m :: after → limit < m.body.length →
    c.phase = .opened → c.step (.chain i t) = some o → sent (es ++ o.2) = before →
      o.1.phase = .closed ∧
        (wrote (es ++ o.2)).drop handshakeSize = before.flatMap Frame.bytes

/-- What `HasWritten` says of the pipeline, if only messages that are short enough were sent. -/
theorem HasWritten.pipelined (h : HasWritten c es)
    (hfits : ∀ m ∈ sent es, m.body.length ≤ c.limit) : Pipelined c.limit c es := by
  cases h with
  | before hphase hword hchains hsent hqueue =>
    have hnone : (wrote es).drop handshakeSize = [] := by
      refine List.drop_eq_nil_of_le ?_
      simpa [handshakeSize] using hword.isPrefix.length_le
    exact {
      single := by rw [hchains]; exact Nat.zero_le 1
      busy := fun hopen => absurd hopen hphase
      word := (List.take_prefix _ _).trans hword.isPrefix
      order := by rw [hsent]; exact List.nil_prefix
      frames := ⟨[], by rw [hnone, hsent]; rfl, .inl rfl⟩
      kept := fun hopen _ => by rw [hsent, hqueue hopen]; rfl
      unwritten := fun before _ _ _ _ => by
        rw [hsent, hnone]
        exact ⟨List.nil_prefix, List.nil_prefix⟩
      comes := fun _ _ _ _ _ _ hopen => absurd hopen hphase
      closes := fun _ _ _ _ _ _ _ _ hopen => absurd hopen hphase }
  | @after hlate hopened frames hwrote hflow =>
    have hframes : (wrote es).drop handshakeSize = frames := by
      rw [hwrote, List.drop_left' (show _ = handshakeSize from Bytes.length_ofWord _)]
    obtain ⟨part, hpart, hcase⟩ := hflow.exists_part
    refine ⟨hflow.length_chains_le,
      fun hphase hattended => (hflow.of_not_closed (by simp [hphase]) hattended).2, ?_, ?_,
      ⟨part, hframes.trans hpart, ?_⟩,
      fun hphase hattended => (hflow.of_not_closed hphase hattended).1, ?_, ?_, ?_⟩
    · rw [hwrote, List.take_left' (show _ = handshakeSize from Bytes.length_ofWord _)]
    · rcases hcase with ⟨-, hdone⟩ | ⟨m, unsent, hdone, -⟩
      · exact hdone
      · exact (List.prefix_append _ _).trans hdone
    · rcases hcase with ⟨hnone, -⟩ | ⟨m, unsent, hdone, hbegun, hlast⟩
      · exact .inl hnone
      · exact .inr ⟨m, hdone, hbegun.isPrefix, hbegun.part_ne, hlast⟩
    · intro before m after henq hlong
      rw [henq] at hflow
      rw [hframes]
      exact hflow.unwritten hfits hlong
    · intro before m after henq hlong hsent hphase hattended
      rw [henq, hsent] at hflow
      exact hflow.comes hlong hphase hattended
    · intro before m after i t o henq hlong hphase hstep hsent
      rw [henq] at hflow
      rw [sent_append] at hsent
      cases move_of_step hstep with
      | chain hmove =>
        obtain ⟨hclosed, hwritten⟩ := hflow.closes hlong hphase hmove hsent
        refine ⟨hclosed, ?_⟩
        rw [wrote_append, hwrote, List.append_assoc, hwritten,
          List.drop_left' (show _ = handshakeSize from Bytes.length_ofWord _)]

/-- **The write pipeline.**  A connection is made, and whatever happens to it happens in any order.
At every moment of its life

* there is one write chain at most, and while the connection is open there is one exactly if a message
  is queued;
* what is written is a part of the word of the handshake, and behind the whole word the frames of the
  messages sent, which are some first ones of those enqueued, and then a part of the frame of the next
  one at most, and that only while a chain is writing it or after the connection was closed;
* a message leaves the queue when its frame is written, unless the connection is closed;
* a chain that comes to a message that is too long closes the connection, with the frames of the
  messages before it written, and nothing of it is ever written.

Only the end of the thread that runs the tasks can keep an open connection from writing on. -/
theorem write_pipeline {c₀ c : Connection κ} {as : List (Action κ)} {es : List (Event κ)}
    (hfresh : Fresh c₀) (hrun : c₀.run as = some (c, es)) :
    Pipelined c₀.limit c es ∧ (.abort ∉ as → c.attended = true) := by
  have hkept : c.limit = c₀.limit ∧ (.abort ∉ as → c.attended = true) ∧
      HasWritten c es ∧ ∀ m ∈ sent es, m.body.length ≤ c₀.limit := by
    refine Run.all_history (I := fun c as es => c.limit = c₀.limit ∧
      (.abort ∉ as → c.attended = true) ∧ HasWritten c es ∧
        ∀ m ∈ sent es, m.body.length ≤ c₀.limit)
      ⟨rfl, fun _ => hfresh.attended, hfresh.sound.hasWritten, nofun⟩ ?_ hrun
    rintro pre a post c₁ es₁ c₂ es₂ - hpre hstep ⟨hlimit, hattended, hwritten, hfits⟩
    have horder : Orderly c₁ := (hfresh.sound.run hpre).orderly
    refine ⟨(congrArg Terms.limit (terms_step hstep)).trans hlimit, fun habort => ?_,
      hwritten.step horder hstep, fun m hm => ?_⟩
    · rw [List.mem_append, not_or, List.mem_singleton] at habort
      exact (attended_step hstep (Ne.symm habort.2)).trans (hattended habort.1)
    · rw [sent_append, List.mem_append] at hm
      rcases hm with hm | hm
      · exact hfits m hm
      · rcases sent_step hstep with hnone | ⟨i, m', hi, hone⟩
        · rw [hnone] at hm
          cases hm
        · rw [hone, List.mem_singleton] at hm
          subst hm
          exact hlimit ▸ hwritten.fits hi
  obtain ⟨hlimit, hattended, hwritten, hfits⟩ := hkept
  rw [← hlimit] at hfits ⊢
  exact ⟨hwritten.pipelined hfits, hattended⟩

theorem write_pipeline_long :
    let m : Message GameTag := ⟨⟨.chat, 2⟩, [7, 8], rfl⟩
    let long : Message GameTag := ⟨⟨.chat, 3⟩, [1, 2, 3], rfl⟩
    let c₀ : Connection GameTag := accepted 2 (.ofWord 0)
    let as : List (Action GameTag) :=
      [.approve 1, .turn .ready, .turn (.wrote 8), .perform .application (.send m),
        .takeUp .application, .perform .application (.send long), .takeUp .application,
        .arrive (Bytes.ofWord (scramble 0)), .turn .ready, .turn .ready, .chain 0 .ready]
    ∃ c es o, Fresh c₀ ∧ c₀.run as = some (c, es) ∧ c.chains = [.writing m] ∧
      c.step (.chain 0 (.wrote 10)) = some o ∧ o.1.phase = .closed ∧
      (wrote (es ++ o.2)).drop 8 = Frame.bytes m := by
  intro m long c₀ as
  have hfresh : Fresh c₀ := .accepted 2 (.ofWord 0)
  have hruns : (c₀.run as).map (fun o => (o.1.chains, o.1.phase, enqueued o.2, sent o.2)) =
      some ([.writing m], .opened, [m, long], []) := by
    decide +kernel
  obtain ⟨⟨c, es⟩, hrun, hlast⟩ := Option.map_eq_some_iff.mp hruns
  obtain ⟨hchains, hphase, henq, hsent⟩ := by simpa only [Prod.mk.injEq] using hlast
  have hsteps : ((c₀.run as).bind (·.1.step (.chain 0 (.wrote 10)))).map (fun o => sent o.2) =
      some [m] := by
    decide +kernel
  rw [hrun] at hsteps
  obtain ⟨o, hstep, hsent'⟩ := Option.map_eq_some_iff.mp hsteps
  obtain ⟨hpipelined, -⟩ := write_pipeline hfresh hrun
  obtain ⟨hclosed, hwrote⟩ := hpipelined.closes [m] long [] 0 (.wrote 10) o henq (by decide) hphase
    hstep (by rw [sent_append, hsent, hsent']; rfl)
  exact ⟨c, es, o, hfresh, hrun, hchains, hstep, hclosed, hwrote⟩

end Parley.Connection

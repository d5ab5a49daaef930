import Mathlib.Data.List.Basic
import Parley.Proofs.Connection.Move

/-!
# Parley.Proofs.Connection.History — what a run of a connection did

A run leaves behind its actions and its events.  From the actions come the bytes that arrived; from
the events the messages that were enqueued, sent and received and the bytes that were written.  The
module also says what closing a connection changes, since half of the moves end with it.
-/

namespace Parley.Connection

variable {κ : Type}

/-! ### What arrived -/

/-- The bytes an action brings in. -/
def Action.brings : Action κ → List UInt8
  | .arrive bytes => bytes
  | _ => []

/-- The bytes that arrived. -/
def arrivals (as : List (Action κ)) : List UInt8 := as.flatMap Action.brings

@[simp] theorem arrivals_append (as bs : List (Action κ)) :
    arrivals (as ++ bs) = arrivals as ++ arrivals bs := by
  simp [arrivals]

@[simp] theorem arrivals_singleton (a : Action κ) : arrivals [a] = a.brings := by
  simp [arrivals]

/-! ### What happened -/

/-- The connection opened or a message came in: what the reading task tells the application. -/
def Event.isReaders : Event κ → Bool
  | .opened | .received _ => true
  | _ => false

def Event.received? : Event κ → Option (Message κ)
  | .received m => some m
  | _ => none

def Event.enqueued? : Event κ → Option (Message κ)
  | .enqueued m => some m
  | _ => none

def Event.sent? : Event κ → Option (Message κ)
  | .sent m => some m
  | _ => none

def Event.written : Event κ → List UInt8
  | .wrote bytes => bytes
  | _ => []

/-- The events of the reading task, in order. -/
def readerEvents (es : List (Event κ)) : List (Event κ) := es.filter Event.isReaders

/-- The messages read. -/
def received (es : List (Event κ)) : List (Message κ) := es.filterMap Event.received?

/-- The messages put into the outbound queue. -/
def enqueued (es : List (Event κ)) : List (Message κ) := es.filterMap Event.enqueued?

/-- The messages written completely. -/
def sent (es : List (Event κ)) : List (Message κ) := es.filterMap Event.sent?

/-- The bytes written to the socket. -/
def wrote (es : List (Event κ)) : List UInt8 := es.flatMap Event.written

section Append

variable (es fs : List (Event κ))

@[simp] theorem readerEvents_append :
    readerEvents (es ++ fs) = readerEvents es ++ readerEvents fs := by
  simp [readerEvents]

@[simp] theorem received_append : received (es ++ fs) = received es ++ received fs := by
  simp [received]

@[simp] theorem enqueued_append : enqueued (es ++ fs) = enqueued es ++ enqueued fs := by
  simp [enqueued]

@[simp] theorem sent_append : sent (es ++ fs) = sent es ++ sent fs := by
  simp [sent]

@[simp] theorem wrote_append : wrote (es ++ fs) = wrote es ++ wrote fs := by
  simp [wrote]

end Append

/-- Events that are none of the reading task's add nothing to what it told. -/
theorem readerEvents_append_quiet (es : List (Event κ)) {fs : List (Event κ)}
    (h : readerEvents fs = []) : readerEvents (es ++ fs) = readerEvents es := by
  rw [readerEvents_append, h, List.append_nil]

theorem readerEvents_ne_nil {es : List (Event κ)} (h : readerEvents es ≠ [])
    (fs : List (Event κ)) : readerEvents (es ++ fs) ≠ [] := by
  rw [readerEvents_append]
  exact List.append_ne_nil_of_left_ne_nil h _

theorem received_eq_readerEvents (es : List (Event κ)) :
    received es = (readerEvents es).filterMap Event.received? := by
  induction es with
  | nil => rfl
  | cons e es ih =>
    have hsplit : e :: es = [e] ++ es := rfl
    rw [hsplit, received_append, readerEvents_append, List.filterMap_append, ih]
    cases e <;> rfl

theorem received_of_readerEvents {es : List (Event κ)} {ms : List (Message κ)}
    (h : readerEvents es = .opened :: ms.map .received) : received es = ms := by
  rw [received_eq_readerEvents, h]
  show (ms.map Event.received).filterMap Event.received? = ms
  rw [List.filterMap_map]
  exact List.filterMap_some

/-! ### Closing -/

/-- What closing an open connection makes of it. -/
def shut (c : Connection κ) : Connection κ :=
  { c with
    phase := .closed
    socket := false
    outbound := .empty
    writer := if c.isLocked then c.writer else none }

theorem close_of_not_closed {c : Connection κ} (h : c.phase ≠ .closed) :
    c.close = (c.shut, if c.isConnected then [.closed] else []) := by
  unfold close
  split
  · next hclosed => exact absurd hclosed h
  · rfl

/-- Closing does nothing or shuts the connection, and has no event but `closed`. -/
theorem close_cases (c : Connection κ) :
    (c.phase = .closed ∧ c.close = (c, [])) ∨
      (c.phase ≠ .closed ∧ c.close.1 = c.shut ∧ c.close.2 = if c.isConnected then [.closed] else []) := by
  by_cases h : c.phase = .closed
  · exact .inl ⟨h, close_of_closed h⟩
  · rw [close_of_not_closed h]
    exact .inr ⟨h, rfl, rfl⟩

section CloseFields

variable (c : Connection κ)

@[simp] theorem stage_close : c.close.1.stage = c.stage := by
  unfold close; split <;> rfl

@[simp] theorem side_close : c.close.1.side = c.side := by
  unfold close; split <;> rfl

@[simp] theorem out_close : c.close.1.out = c.out := by
  unfold close; split <;> rfl

@[simp] theorem chains_close : c.close.1.chains = c.chains := by
  unfold close; split <;> rfl

@[simp] theorem posted_close : c.close.1.posted = c.posted := by
  unfold close; split <;> rfl

@[simp] theorem postedByHooks_close : c.close.1.postedByHooks = c.postedByHooks := by
  unfold close; split <;> rfl

@[simp] theorem attended_close : c.close.1.attended = c.attended := by
  unfold close; split <;> rfl

end CloseFields

theorem events_close (c : Connection κ) : c.close.2 = [] ∨ c.close.2 = [.closed] := by
  rcases close_cases c with ⟨-, h⟩ | ⟨-, -, h⟩
  · exact .inl (by rw [h])
  · rw [h]
    cases c.isConnected with
    | false => exact .inl rfl
    | true => exact .inr rfl

theorem eq_closed_of_mem_close {c : Connection κ} {e : Event κ} (he : e ∈ c.close.2) : e = .closed := by
  rcases events_close c with hnone | hclosed
  · rw [hnone] at he
    cases he
  · rw [hclosed] at he
    exact List.mem_singleton.mp he

/-- Nothing is read when a connection is closed. -/
@[simp] theorem received_close (c : Connection κ) : received c.close.2 = [] := by
  refine List.filterMap_eq_nil_iff.mpr fun e he => ?_
  rw [eq_closed_of_mem_close he]
  rfl

/-- A handshake that fails ends the main task and closes the connection. -/
theorem failHandshake_eq (c : Connection κ) :
    c.failHandshake =
      ((close { c with stage := .finished }).1,
        .failed :: (match c.side with | .server => [] | .client => [.errored])
          ++ (close { c with stage := .finished }).2) := by
  unfold failHandshake
  cases c.side with
  | server => rfl
  | client => rfl

/-! ### What stays as it is -/

/-- The end of the stream an action brings in. -/
def Action.ends : Action κ → Option Ending
  | .expire ending => some ending
  | _ => none

/-- What is agreed when a connection begins, and how the stream of arriving bytes has ended. -/
structure Terms where
  side : Side
  id : UInt32
  limit : Nat
  expected : UInt64
  ending : Option Ending

def terms (c : Connection κ) : Terms where
  side := c.side
  id := c.id
  limit := c.limit
  expected := c.expected
  ending := c.inlet.ending

@[simp] theorem terms_close (c : Connection κ) : c.close.1.terms = c.terms := by
  unfold close; split <;> rfl

theorem terms_failHandshake (c : Connection κ) : c.failHandshake.1.terms = c.terms := by
  rw [failHandshake_eq]
  exact terms_close { c with stage := .finished }

variable [Kind κ]

theorem TaskMove.terms_eq {c : Connection κ} {t : Turn} {o : Outcome κ} (h : TaskMove c t o) :
    o.1.terms = c.terms := by
  cases h with
  | giveUp => exact terms_close { c with stage := .finished }
  | writeFail => exact terms_failHandshake c
  | cutShort => exact terms_failHandshake c
  | refuse => exact terms_failHandshake _
  | fault => exact terms_close { c with stage := .leaving }
  | streamEnd => exact terms_close { c with stage := .leaving }
  | _ => rfl

theorem Proceeds.terms_eq {i : Nat} {c : Connection κ} {o : Outcome κ} (h : Proceeds i c o) :
    o.1.terms = c.terms := by
  cases h with
  | starts => rfl
  | refuses => exact terms_close _
  | ends => rfl

theorem ChainMove.terms_eq {i : Nat} {c : Connection κ} {t : Turn} {o : Outcome κ}
    (h : ChainMove i c t o) : o.1.terms = c.terms := by
  cases h with
  | locks _ _ hnext => exact hnext.terms_eq
  | writePart => rfl
  | writeRest _ _ hnext => exact hnext.terms_eq
  | writeFail => exact terms_close _
  | cancel => rfl

/-- Only the end of the stream and the server change what was agreed. -/
theorem Move.terms_eq {c : Connection κ} {a : Action κ} {o : Outcome κ} (h : Move c a o)
    (ha : ∀ id, a ≠ .approve id) : o.1.terms = { c.terms with ending := c.inlet.ending.or a.ends } := by
  have hstill : a.ends = none → o.1.terms = c.terms →
      o.1.terms = { c.terms with ending := c.inlet.ending.or a.ends } := by
    intro hnone hterms
    rw [hterms, hnone, Option.or_none]
    rfl
  cases h with
  | send thread m =>
    refine hstill rfl ?_
    show (c.send thread m).terms = c.terms
    unfold Connection.send
    split
    · rfl
    · cases thread <;> rfl
  | disconnect thread => exact hstill rfl (terms_close c)
  | approve id => exact absurd rfl (ha id)
  | abort => exact hstill rfl rfl
  | arrive bytes hending => exact hstill rfl rfl
  | expire ending hending =>
    rw [hending]
    rfl
  | @refuse thread => cases thread <;> exact hstill rfl rfl
  | @enqueue thread => cases thread <;> exact hstill rfl rfl
  | task hmove => exact hstill rfl hmove.terms_eq
  | chain hmove => exact hstill rfl hmove.terms_eq

theorem terms_step {c : Connection κ} {a : Action κ} {o : Outcome κ} (h : c.step a = some o) :
    o.1.terms = { c.terms with id := o.1.id, ending := c.inlet.ending.or a.ends } := by
  by_cases ha : ∀ id, a ≠ .approve id
  · have hterms := (move_of_step h).terms_eq ha
    have hid : o.1.id = c.id := congrArg Terms.id hterms
    rw [hterms, hid]
    rfl
  · obtain ⟨id, ha⟩ := not_forall.mp ha
    obtain rfl := not_not.mp ha
    cases move_of_step h with
    | approve _ hside =>
      show (c.approve id).terms = { c.terms with
        id := (c.approve id).id, ending := c.inlet.ending.or none }
      rw [Option.or_none]
      unfold approve
      split <;> rfl

/-- Only the server assigns ids. -/
theorem id_step {c : Connection κ} {a : Action κ} {o : Outcome κ} (h : c.step a = some o)
    (ha : a.isOwners = false) : o.1.id = c.id :=
  congrArg Terms.id ((move_of_step h).terms_eq fun id => by rintro rfl; cases ha)

/-! ### The phase -/

theorem Proceeds.phase_eq {i : Nat} {c : Connection κ} {o : Outcome κ} (h : Proceeds i c o) :
    o.1.phase = c.phase ∨ o.1.phase = .closed := by
  cases h with
  | starts => exact .inl rfl
  | refuses => exact .inr (phase_close _)
  | ends => exact .inl rfl

/-- A chain leaves the phase alone or closes the connection. -/
theorem ChainMove.phase_eq {i : Nat} {c : Connection κ} {t : Turn} {o : Outcome κ}
    (h : ChainMove i c t o) :
    o.1.phase = c.phase ∨ o.1.phase = .closed := by
  cases h with
  | locks _ _ hnext => exact hnext.phase_eq
  | writePart => exact .inl rfl
  | writeRest _ _ hnext => exact hnext.phase_eq
  | writeFail => exact .inr (phase_close _)
  | cancel => exact .inl rfl

/-- A step leaves the phase alone, goes on to the next one, or closes the connection. -/
theorem phase_step {c : Connection κ} {a : Action κ} {o : Outcome κ} (hstep : c.step a = some o) :
    o.1.phase = c.phase ∨ o.1.phase = .closed ∨ (c.phase = .connecting ∧ o.1.phase = .validating) ∨
      (c.phase = .validating ∧ o.1.phase = .opened) := by
  cases move_of_step hstep with
  | send thread m =>
    left
    show (c.send thread m).phase = c.phase
    unfold Connection.send
    split
    · rfl
    · cases thread <;> rfl
  | disconnect => exact .inr (.inl (phase_close c))
  | approve id =>
    left
    show (c.approve id).phase = c.phase
    unfold Connection.approve
    split <;> rfl
  | abort => exact .inl rfl
  | arrive => exact .inl rfl
  | expire => exact .inl rfl
  | @refuse thread => cases thread <;> exact .inl rfl
  | @enqueue thread => cases thread <;> exact .inl rfl
  | task hmove =>
    cases hmove with
    | attach hstage hphase => exact .inr (.inr (.inl ⟨hphase, rfl⟩))
    | giveUp => exact .inr (.inl (phase_close _))
    | writeFail => rw [failHandshake_eq]; exact .inr (.inl (phase_close _))
    | cutShort => rw [failHandshake_eq]; exact .inr (.inl (phase_close _))
    | refuse => rw [failHandshake_eq]; exact .inr (.inl (phase_close _))
    | enter hstage hlock hphase => exact .inr (.inr (.inr ⟨hphase, rfl⟩))
    | fault => exact .inr (.inl (phase_close _))
    | streamEnd => exact .inr (.inl (phase_close _))
    | _ => exact .inl rfl
  | chain hmove => exact hmove.phase_eq.imp_right .inl

/-- A closed connection stays closed. -/
theorem closed_step {c : Connection κ} {a : Action κ} {o : Outcome κ} (hstep : c.step a = some o)
    (h : c.phase = .closed) : o.1.phase = .closed := by
  rcases phase_step hstep with hsame | hclosed | ⟨hphase, -⟩ | ⟨hphase, -⟩
  · exact hsame.trans h
  · exact hclosed
  · cases h.symm.trans hphase
  · cases h.symm.trans hphase

/-- A connection that has a socket, or had one, does not begin to connect. -/
theorem phase_ne_connecting {c : Connection κ} {a : Action κ} {o : Outcome κ}
    (hstep : c.step a = some o) (h : c.phase ≠ .connecting) : o.1.phase ≠ .connecting := by
  intro hconnecting
  rcases phase_step hstep with hsame | hclosed | ⟨hphase, -⟩ | ⟨-, hphase⟩
  · exact h (hsame.symm.trans hconnecting)
  · cases hclosed.symm.trans hconnecting
  · exact h hphase
  · cases hphase.symm.trans hconnecting

/-- A closed connection keeps its id. -/
theorem id_step_of_closed {c : Connection κ} {a : Action κ} {o : Outcome κ}
    (hstep : c.step a = some o) (h : c.phase = .closed) : o.1.id = c.id := by
  by_cases ha : ∀ id, a ≠ .approve id
  · exact congrArg Terms.id ((move_of_step hstep).terms_eq ha)
  · obtain ⟨id, ha⟩ := not_forall.mp ha
    obtain rfl := not_not.mp ha
    cases move_of_step hstep with
    | approve _ hside =>
      show (c.approve id).id = c.id
      simp [Connection.approve, isConnected, h, Phase.isLive]

/-! ### What stays true -/

/-- Every step of a connection keeps a property. -/
def Stable (P : Connection κ → Prop) : Prop := ∀ c a o, c.step a = some o → P c → P o.1

/-- A connection is left alone or makes a step. -/
def Continues (c c' : Connection κ) : Prop := c' = c ∨ ∃ a o, c.step a = some o ∧ c' = o.1

theorem Stable.of_continues {P : Connection κ → Prop} (hP : Stable P) {c c' : Connection κ}
    (h : Continues c c') (hc : P c) : P c' := by
  rcases h with rfl | ⟨a, o, hstep, rfl⟩
  · exact hc
  · exact hP c a o hstep hc

theorem stable_closed : Stable fun c : Connection κ => c.phase = .closed :=
  fun _ _ _ hstep h => closed_step hstep h

theorem stable_closed_id (id : UInt32) :
    Stable fun c : Connection κ => c.phase = .closed ∧ c.id = id := by
  rintro c a o hstep ⟨hclosed, hid⟩
  exact ⟨closed_step hstep hclosed, (id_step_of_closed hstep hclosed).trans hid⟩

theorem stable_ne_connecting : Stable fun c : Connection κ => c.phase ≠ .connecting :=
  fun _ _ _ hstep h => phase_ne_connecting hstep h

end Parley.Connection

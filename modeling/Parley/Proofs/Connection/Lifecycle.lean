import Mathlib.Algebra.Group.Nat.Defs
import Parley.Proofs.Connection.Pipeline

/-!
# Parley.Proofs.Connection.Lifecycle — from the first phase to the last

A connection goes through its phases in one direction and may be closed at any time; once it is closed
it stays so, its queue is empty, and nothing that is done to it changes anything (`Settled`).  Of the
counters, the gauge of open connections goes with the phase: a step enters a connection when it gets a
socket and takes it out when it is closed, once (`Advances`).
-/

namespace Parley

namespace Metrics

/-- Entries that move the gauge of open connections. -/
def Entry.isMark : Entry → Bool
  | .established | .closed => true
  | _ => false

/-- What an entry makes of the gauge depends on nothing but the gauge. -/
theorem connectionsActive_record {m m' : Metrics} (h : m.connectionsActive = m'.connectionsActive)
    (e : Entry) : (m.record e).connectionsActive = (m'.record e).connectionsActive := by
  cases e with
  | established => exact congrArg (· + 1) h
  | closed => simp only [record, h]
  | _ => exact h

/-- Only the marks matter for the gauge. -/
theorem connectionsActive_recordAll {m m' : Metrics}
    (h : m.connectionsActive = m'.connectionsActive) (es : List Entry) :
    (m.recordAll es).connectionsActive =
      (m'.recordAll (es.filter Entry.isMark)).connectionsActive := by
  induction es generalizing m m' with
  | nil => exact h
  | cons e es ih =>
    cases hmark : e.isMark with
    | true =>
      rw [List.filter_cons_of_pos hmark]
      exact ih (connectionsActive_record h e)
    | false =>
      rw [List.filter_cons_of_neg (Bool.eq_false_iff.mp hmark)]
      refine ih (Eq.trans ?_ h)
      cases e with
      | established => cases hmark
      | closed => cases hmark
      | _ => rfl

end Metrics

namespace Connection

variable {κ : Type}

/-! ### The gauge of open connections -/

/-- How events are counted. -/
def entries (es : List (Event κ)) : List Metrics.Entry := es.filterMap Event.entry?

@[simp] theorem entries_append (es fs : List (Event κ)) :
    entries (es ++ fs) = entries es ++ entries fs := by
  simp [entries]

/-- The entries of events that move the gauge. -/
def marks (es : List (Event κ)) : List Metrics.Entry := (entries es).filter Metrics.Entry.isMark

/-- The entries by which the gauge follows a connection that was open or not and now is or not. -/
def marksBetween : Bool → Bool → List Metrics.Entry
  | false, true => [.established]
  | true, false => [.closed]
  | _, _ => []

@[simp] theorem marksBetween_self (b : Bool) : marksBetween b b = [] := by cases b <;> rfl

theorem isConnected_of_closed {c : Connection κ} (h : c.phase = .closed) : c.isConnected = false := by
  rw [isConnected, h]
  rfl

/-- Closing takes a connection out of the gauge that is in it. -/
theorem marks_close (c : Connection κ) :
    marks c.close.2 = marksBetween c.isConnected c.close.1.isConnected := by
  rw [isConnected_of_closed (phase_close c)]
  rcases close_cases c with ⟨hphase, hsame⟩ | ⟨-, -, hevents⟩
  · rw [hsame, isConnected_of_closed hphase]
    rfl
  · rw [hevents]
    cases c.isConnected with
    | false => rfl
    | true => rfl

theorem marks_failHandshake (c : Connection κ) :
    marks c.failHandshake.2 = marksBetween c.isConnected c.failHandshake.1.isConnected := by
  rw [failHandshake_eq]
  split
  · exact marks_close { c with stage := .finished }
  · exact marks_close { c with stage := .finished }

variable [Kind κ] {c : Connection κ}

theorem TaskMove.marks_eq {t : Turn} {o : Outcome κ} (h : TaskMove c t o) :
    marks o.2 = marksBetween c.isConnected o.1.isConnected := by
  have hstill : marks o.2 = [] → o.1.phase = c.phase →
      marks o.2 = marksBetween c.isConnected o.1.isConnected := by
    intro hnone hphase
    rw [hnone, isConnected, isConnected, hphase, marksBetween_self]
  cases h with
  | attach hstage hphase =>
    rw [isConnected, isConnected, hphase]
    rfl
  | giveUp hstage => exact marks_close { c with stage := .finished }
  | writeFail hstage => exact marks_failHandshake c
  | cutShort hstage hpending hending => exact marks_failHandshake c
  | refuse hstage hread hlen hside hword => exact marks_failHandshake _
  | enter hstage hlock hphase =>
    rw [isConnected, isConnected, hphase]
    rfl
  | fault hstage hdecode => exact marks_close { c with stage := .leaving }
  | @streamEnd buf ending hstage hdecode hpending hending =>
    have hclose := marks_close { c with stage := .leaving }
    cases herr : (ending == .broken || !buf.isEmpty) with
    | false => exact hclose
    | true => exact hclose
  | _ => exact hstill rfl rfl

theorem Proceeds.marks_eq {i : Nat} {o : Outcome κ} (h : Proceeds i c o) :
    marks o.2 = marksBetween c.isConnected o.1.isConnected := by
  cases h with
  | starts => exact (marksBetween_self _).symm
  | refuses => exact marks_close { c with writer := none, chains := c.chains.eraseIdx i }
  | ends => exact (marksBetween_self _).symm

theorem ChainMove.marks_eq {i : Nat} {t : Turn} {o : Outcome κ} (h : ChainMove i c t o) :
    marks o.2 = marksBetween c.isConnected o.1.isConnected := by
  cases h with
  | locks hchain hlock hnext => exact hnext.marks_eq
  | writePart => exact (marksBetween_self _).symm
  | writeRest hchain hwriter hnext => exact hnext.marks_eq
  | writeFail => exact marks_close { c with writer := none, chains := c.chains.eraseIdx i }
  | cancel => exact (marksBetween_self _).symm

/-- **The gauge goes with the phase**: a step enters the connection when it gets a socket and takes it
out when it is closed. -/
theorem marks_step {a : Action κ} {o : Outcome κ} (hstep : c.step a = some o) :
    marks o.2 = marksBetween c.isConnected o.1.isConnected := by
  cases move_of_step hstep with
  | send thread m =>
    show [] = marksBetween c.isConnected (c.send thread m).isConnected
    unfold Connection.send
    split
    · exact (marksBetween_self _).symm
    · cases thread <;> exact (marksBetween_self _).symm
  | disconnect thread => exact marks_close c
  | approve id hside hstage hattended =>
    show [] = marksBetween c.isConnected (c.approve id).isConnected
    unfold Connection.approve
    split
    · exact (marksBetween_self _).symm
    · exact (marksBetween_self _).symm
  | abort => exact (marksBetween_self _).symm
  | arrive => exact (marksBetween_self _).symm
  | expire => exact (marksBetween_self _).symm
  | @refuse thread => cases thread <;> exact (marksBetween_self _).symm
  | @enqueue thread => cases thread <;> exact (marksBetween_self _).symm
  | task hmove => exact hmove.marks_eq
  | chain hmove => exact hmove.marks_eq

/-! ### The queue of a closed connection -/

/-- If the connection is closed, its queue is empty. -/
def Drained (c : Connection κ) : Prop := c.phase = .closed → c.outbound.toList = []

namespace Drained

omit [Kind κ] in
theorem close (h : Drained c) : Drained c.close.1 := by
  rcases close_cases c with ⟨-, hsame⟩ | ⟨-, hshut, -⟩
  · rw [hsame]
    exact h
  · rw [hshut]
    exact fun _ => Deque.toList_empty

omit [Kind κ] in
theorem failHandshake (h : Drained c) : Drained c.failHandshake.1 := by
  have hclose : Drained (Connection.close { c with stage := .finished }).1 := close h
  rw [failHandshake_eq]
  exact hclose

omit [Kind κ] in
theorem stopReading (h : Drained c) (errored : Bool) : Drained (c.stopReading errored).1 := by
  have hclose : Drained (Connection.close { c with stage := .leaving }).1 := close h
  exact hclose

omit [Kind κ] in
theorem failWriting (h : Drained c) (i : Nat) : Drained (c.failWriting i).1 := by
  have hclose : Drained
      (Connection.close { c with writer := none, chains := c.chains.eraseIdx i }).1 := close h
  exact hclose

theorem taskMove {t : Turn} {o : Outcome κ} (h : Drained c) (hmove : TaskMove c t o) :
    Drained o.1 := by
  cases hmove with
  | attach => exact nofun
  | giveUp =>
    have hclose : Drained (Connection.close { c with stage := .finished }).1 := close h
    exact hclose
  | writeFail => exact h.failHandshake
  | cutShort => exact h.failHandshake
  | refuse => exact failHandshake h
  | enter => exact nofun
  | fault => exact h.stopReading true
  | streamEnd => exact h.stopReading _
  | _ => exact h

theorem proceeds {i : Nat} {o : Outcome κ} (h : Drained c) (hnext : Proceeds i c o) :
    Drained o.1 := by
  cases hnext with
  | starts => exact h
  | refuses => exact h.failWriting i
  | ends => exact h

theorem chainMove {i : Nat} {t : Turn} {o : Outcome κ} (h : Drained c) (hmove : ChainMove i c t o) :
    Drained o.1 := by
  cases hmove with
  | locks hchain hlock hnext => exact h.proceeds hnext
  | writePart => exact h
  | writeRest hchain hwriter hnext =>
    have hpopped : Drained { c with writer := some [], outbound := c.outbound.dropFront } := by
      intro hphase
      rw [Deque.toList_dropFront, h hphase]
      rfl
    have hnext' := hpopped.proceeds hnext
    exact hnext'
  | writeFail => exact h.failWriting i
  | cancel => exact h

theorem step {a : Action κ} {o : Outcome κ} (h : Drained c) (hstep : c.step a = some o) :
    Drained o.1 := by
  cases move_of_step hstep with
  | send thread m =>
    show Drained (c.send thread m)
    unfold Connection.send
    split
    · exact h
    · cases thread <;> exact h
  | disconnect thread => exact h.close
  | approve id hside hstage hattended =>
    show Drained (c.approve id)
    unfold Connection.approve
    split
    · exact h
    · exact h
  | abort => exact h
  | arrive => exact h
  | expire => exact h
  | @refuse thread => cases thread <;> exact h
  | @enqueue thread m rest hposted hphase => cases thread <;> exact fun hclosed => absurd hclosed hphase
  | task hmove => exact h.taskMove hmove
  | chain hmove => exact h.chainMove hmove

end Drained

/-! ### Steps -/

/-- What a step does to the life of a connection. -/
structure Advances (c : Connection κ) (o : Outcome κ) : Prop where
  /-- The phase stays, goes on to the next one, or becomes the last one. -/
  forward : o.1.phase = c.phase ∨ o.1.phase = .closed ∨
    (c.phase = .connecting ∧ o.1.phase = .validating) ∨
    (c.phase = .validating ∧ o.1.phase = .opened)
  /-- The gauge, in which the connection is counted if it is validating or open, falls by one if it
  is closed now, and rises by one if it has come to have a socket. -/
  gauge : ∀ m : Metrics, (c.isConnected = true → m.connectionsActive ≠ 0) →
    (m.recordAll (entries o.2)).connectionsActive =
      if c.isConnected && !o.1.isConnected then m.connectionsActive - 1
      else if !c.isConnected && o.1.isConnected then m.connectionsActive + 1
      else m.connectionsActive

theorem advances_of_step {a : Action κ} {o : Outcome κ} (hstep : c.step a = some o) :
    Advances c o := by
  refine ⟨phase_step hstep, fun m hcounted => ?_⟩
  rw [Metrics.connectionsActive_recordAll rfl, show (entries o.2).filter _ = _ from marks_step hstep]
  cases hbefore : c.isConnected with
  | false => cases o.1.isConnected <;> rfl
  | true =>
    cases o.1.isConnected with
    | false => exact if_neg (hcounted hbefore)
    | true => rfl

omit [Kind κ] in
/-- Phases come in the order of their numbers. -/
theorem Advances.toByte_le {o : Outcome κ} (h : Advances c o) :
    c.phase.toByte ≤ o.1.phase.toByte := by
  rcases h.forward with hsame | hclosed | ⟨hbefore, hafter⟩ | ⟨hbefore, hafter⟩
  · rw [hsame]
    exact UInt8.le_refl _
  · rw [hclosed]
    cases c.phase <;> decide
  · rw [hbefore, hafter]
    decide
  · rw [hbefore, hafter]
    decide

/-! ### Closed connections -/

/-- A connection that is closed for good. -/
structure Settled (c : Connection κ) : Prop where
  disconnected : c.isConnected = false
  drained : c.outbound.toList = []
  /-- Sending to it and disconnecting it do nothing at all. -/
  idle : ∀ thread deed, c.step (.perform thread deed) = some (c, [])
  /-- A message that was posted before is dropped when it is taken up. -/
  refuses : ∀ thread o, c.step (.takeUp thread) = some o →
    o.1.phase = c.phase ∧ o.1.outbound = c.outbound ∧ o.2 = []
  /-- Whatever happens, it stays closed, its queue stays empty, and the gauge stays as it is. -/
  final : ∀ as c' es, c.run as = some (c', es) → c'.phase = .closed ∧ c'.outbound.toList = [] ∧
    ∀ m : Metrics, (m.recordAll (entries es)).connectionsActive = m.connectionsActive

theorem settled_of_closed (hdrained : Drained c) (hphase : c.phase = .closed) : Settled c := by
  refine ⟨isConnected_of_closed hphase, hdrained hphase, fun thread deed => ?_,
    fun thread o hstep => ?_, fun as c' es hrun => ?_⟩
  · cases deed with
    | send m => exact congrArg (fun c => some (c, [])) (send_of_closed hphase thread m)
    | disconnect => exact congrArg some (close_of_closed hphase)
  · cases move_of_step hstep with
    | refuse => cases thread <;> exact ⟨rfl, rfl, rfl⟩
    | enqueue hposted hopen => exact absurd hphase hopen
  · refine Run.all_history (I := fun c _ es => c.phase = .closed ∧ c.outbound.toList = [] ∧
      ∀ m : Metrics, (m.recordAll (entries es)).connectionsActive = m.connectionsActive)
      ⟨hphase, hdrained hphase, fun _ => rfl⟩ ?_ hrun
    rintro pre a post c₁ es₁ c₂ es₂ - - hstep ⟨hclosed, hempty, hgauge⟩
    have hclosed' : c₂.phase = .closed := closed_step hstep hclosed
    refine ⟨hclosed', Drained.step (fun _ => hempty) hstep hclosed', fun m => ?_⟩
    have hmarks : (entries es₂).filter Metrics.Entry.isMark = [] := by
      show marks es₂ = []
      rw [marks_step hstep, isConnected_of_closed hclosed, isConnected_of_closed hclosed']
      rfl
    rw [entries_append, Metrics.recordAll_append,
      Metrics.connectionsActive_recordAll (hgauge m), hmarks]
    rfl

/-! ### Whole lives -/

/-- The entry with which a server counts a socket that it has accepted. -/
def birth (c : Connection κ) : List Metrics.Entry := marksBetween false c.isConnected

/-- From its beginning on a connection is counted in the gauge as long as it is validating or open. -/
theorem counted_run {c₀ c : Connection κ} {as : List (Action κ)} {es : List (Event κ)}
    (hrun : c₀.run as = some (c, es)) (m₀ : Metrics)
    (hroom : m₀.connectionsActive.toNat + 1 < 2 ^ 64) :
    (m₀.recordAll (birth c₀ ++ entries es)).connectionsActive =
      m₀.connectionsActive + if c.isConnected then 1 else 0 := by
  have hne : m₀.connectionsActive + 1 ≠ 0 := by
    intro hzero
    have hsum := congrArg UInt64.toNat hzero
    rw [UInt64.toNat_add] at hsum
    change (m₀.connectionsActive.toNat + 1) % 2 ^ 64 = 0 at hsum
    rw [Nat.mod_eq_of_lt hroom] at hsum
    cases hsum
  refine Run.all_history (I := fun c _ es =>
    (m₀.recordAll (birth c₀ ++ entries es)).connectionsActive =
      m₀.connectionsActive + if c.isConnected then 1 else 0) ?_ ?_ hrun
  · rw [birth]
    cases c₀.isConnected with
    | false => exact (UInt64.add_zero _).symm
    | true => rfl
  · intro pre a post c₁ es₁ c₂ es₂ _ _ hstep hbefore
    have hcounted : c₁.isConnected = true →
        (m₀.recordAll (birth c₀ ++ entries es₁)).connectionsActive ≠ 0 := by
      intro hlive
      rw [hbefore, if_pos hlive]
      exact hne
    have hgauge := (advances_of_step hstep).gauge _ hcounted
    rw [entries_append, ← List.append_assoc, Metrics.recordAll_append]
    refine hgauge.trans ?_
    rw [hbefore]
    cases c₁.isConnected with
    | false => cases c₂.isConnected <;> simp
    | true => cases c₂.isConnected <;> simp

theorem toByte_le_run {c c' : Connection κ} {as : List (Action κ)} {es : List (Event κ)}
    (hrun : c.run as = some (c', es)) : c.phase.toByte ≤ c'.phase.toByte := by
  refine Run.all_history (I := fun c' _ _ => c.phase.toByte ≤ c'.phase.toByte) (UInt8.le_refl _) ?_
    hrun
  intro pre a post c₁ es₁ c₂ es₂ _ _ hstep hle
  exact UInt8.le_trans hle (advances_of_step hstep).toByte_le

/-- **The life of a connection.**  A server's connection begins validating and a client's connecting.
At every moment of its life

* each step leaves the phase as it is, goes on to the next one, or closes the connection, and moves the
  gauge of open connections only if the connection has come to be open or validating, or was and is
  closed now;
* no run leads back to an earlier phase, and disconnecting leads to the last one from any phase;
* if the connection is closed, its queue is empty and nothing changes it, its queue or the gauge;
* the connection is counted in the gauge once if it is validating or open, and otherwise it is not,
  whatever was counted before it was made. -/
theorem lifecycle {c₀ c : Connection κ} {as : List (Action κ)} {es : List (Event κ)}
    (hfresh : Fresh c₀) (hrun : c₀.run as = some (c, es)) :
    c₀.phase = (match c₀.side with | .server => .validating | .client => .connecting) ∧
      (∀ a o, c.step a = some o → Advances c o) ∧
      (∀ bs c' es', c.run bs = some (c', es') → c.phase.toByte ≤ c'.phase.toByte) ∧
      (∀ thread, (c.perform thread .disconnect).1.phase = .closed) ∧
      (c.phase = .closed → Settled c) ∧
      ∀ m₀ : Metrics, m₀.connectionsActive.toNat + 1 < 2 ^ 64 →
        (m₀.recordAll (birth c₀ ++ entries es)).connectionsActive =
          m₀.connectionsActive + if c.isConnected then 1 else 0 := by
  have hbegins : c₀.phase = (match c₀.side with | .server => .validating | .client => .connecting) ∧
      Drained c₀ := by
    cases hfresh with
    | accepted => exact ⟨rfl, nofun⟩
    | outgoing => exact ⟨rfl, nofun⟩
  have hdrained : Drained c :=
    Run.all_invariant (I := Drained) (fun _ _ _ h hstep => h.step hstep) hbegins.2 hrun
  exact ⟨hbegins.1, fun _ _ => advances_of_step, fun _ _ _ => toByte_le_run,
    fun _ => phase_close c, settled_of_closed hdrained, counted_run hrun⟩

/-- A client's handshake ends after the application has disconnected it, and a message that was posted
before is taken up: the connection stays closed and is not counted any more. -/
theorem lifecycle_disconnected :
    let m : Message GameTag := ⟨⟨.chat, 2⟩, [7, 8], rfl⟩
    let c₀ : Connection GameTag := outgoing 2
    let as : List (Action GameTag) :=
      [.perform .application (.send m), .turn .ready, .arrive (Bytes.ofWord 0), .turn .ready,
        .turn (.wrote 8), .perform .application (.send m), .takeUp .application,
        .perform .application .disconnect, .turn .ready, .takeUp .application]
    ∃ c es, Fresh c₀ ∧ c₀.run as = some (c, es) ∧ enqueued es = [m] ∧ c.phase = .closed ∧
      Settled c ∧ (Metrics.recordAll {} (birth c₀ ++ entries es)).connectionsActive = 0 := by
  intro m c₀ as
  have hfresh : Fresh c₀ := .outgoing 2
  have hruns : (c₀.run as).any (fun o => enqueued o.2 == [m] && o.1.isClosed) = true := by
    decide +kernel
  obtain ⟨⟨c, es⟩, hrun, hlast⟩ := (Option.any_eq_true _ _).mp hruns
  simp only [Bool.and_eq_true, beq_iff_eq] at hlast
  obtain ⟨henqueued, hclosed⟩ := hlast
  have hphase := isClosed_iff.mp hclosed
  obtain ⟨-, -, -, -, hsettled, hcounted⟩ := lifecycle hfresh hrun
  refine ⟨c, es, hfresh, hrun, henqueued, hphase, hsettled hphase, ?_⟩
  rw [hcounted {} (by decide), (hsettled hphase).disconnected]
  rfl

end Connection
end Parley

import Parley.Proofs.Connection.Reading
import Parley.Proofs.Connection.Writing

/-!
# Parley.Proofs.Connection.Sound — connections from their beginning

A connection that has lived from its beginning has read what arrived and written what was enqueued
(`Sound`).  A server's connection keeps to the challenge it began with, and it opens only after the
right answer has arrived.
-/

namespace Parley.Connection

variable {κ : Type}

/-- A server's connection with a challenge. -/
structure Asks (c : Connection κ) (limit : Nat) (ch : Challenge) : Prop where
  side_eq : c.side = .server
  limit_eq : c.limit = limit
  out_eq : c.out = ch.out
  expected_eq : c.expected = ch.expected

theorem asks_accepted (limit : Nat) (ch : Challenge) :
    Asks (κ := κ) (accepted limit ch) limit ch := ⟨rfl, rfl, rfl, rfl⟩

/-- How the stream of arriving bytes has ended, if it has. -/
def endings (as : List (Action κ)) : List Ending := as.filterMap Action.ends

variable [Kind κ] {c : Connection κ} {arrived : List UInt8} {es : List (Event κ)}
  {as : List (Action κ)}

/-! ### Sound connections -/

/-- The tasks are in order, and what was read and written is accounted for. -/
structure Sound (c : Connection κ) (arrived : List UInt8) (es : List (Event κ)) : Prop where
  orderly : Orderly c
  hasRead : HasRead c arrived es
  hasWritten : HasWritten c es

theorem Sound.step {a : Action κ} {o : Outcome κ} (h : Sound c arrived es)
    (hstep : c.step a = some o) : Sound o.1 (arrived ++ a.brings) (es ++ o.2) where
  orderly := h.orderly.step hstep
  hasRead := h.hasRead.step hstep
  hasWritten := h.hasWritten.step h.orderly hstep

theorem Sound.run {o : Outcome κ} (h : Sound c [] []) (hrun : c.run as = some o) :
    Sound o.1 (arrivals as) o.2 := by
  refine Run.all_history (I := fun c as es => Sound c (arrivals as) es) h ?_ hrun
  intro pre a post c₁ es₁ c₂ es₂ _ _ hstep h₁
  rw [arrivals_append, arrivals_singleton]
  exact h₁.step hstep

theorem sound_accepted (limit : Nat) (ch : Challenge) :
    Sound (κ := κ) (accepted limit ch) [] [] where
  orderly := ⟨nofun, nofun, nofun⟩
  hasRead := ⟨[], rfl, rfl, rfl⟩
  hasWritten := .before nofun rfl rfl rfl fun _ => rfl

theorem sound_outgoing (limit : Nat) : Sound (κ := κ) (outgoing limit) [] [] where
  orderly := ⟨fun _ => rfl, nofun, nofun⟩
  hasRead := ⟨[], rfl, rfl, rfl⟩
  hasWritten := .before nofun rfl rfl rfl fun _ => rfl

/-- An open connection has said so. -/
theorem Sound.readerEvents_of_opened (h : Sound c arrived es) (hphase : c.phase = .opened) :
    readerEvents es ≠ [] := by
  cases h.hasWritten with
  | before hnot => exact absurd hphase hnot
  | after hstage hopened => exact hopened

/-! ### The stage of the main task -/

/-- A main task that has done something has a socket or has come to its end. -/
theorem TaskMove.stage_late {t : Turn} {o : Outcome κ} (h : TaskMove c t o) :
    o.1.stage ≠ .absent ∧ o.1.stage ≠ .connecting := by
  cases h with
  | giveUp => rw [show c.giveUp.1.stage = .finished from stage_close _]; exact ⟨nofun, nofun⟩
  | writeFail => rw [failHandshake_eq, stage_close]; exact ⟨nofun, nofun⟩
  | cutShort => rw [failHandshake_eq, stage_close]; exact ⟨nofun, nofun⟩
  | refuse => rw [failHandshake_eq, stage_close]; exact ⟨nofun, nofun⟩
  | fault =>
    rw [show (c.stopReading true).1.stage = .leaving from stage_close _]
    exact ⟨nofun, nofun⟩
  | streamEnd =>
    rw [show (c.stopReading _).1.stage = .leaving from stage_close _]
    exact ⟨nofun, nofun⟩
  | _ => exact ⟨nofun, nofun⟩

/-- A step leaves the main task where it stands, or the task has done its first step; nobody but the
owner of a connection posts it. -/
theorem stage_step {a : Action κ} {o : Outcome κ} (hstep : c.step a = some o) :
    o.1.stage = c.stage ∨ (o.1.stage ≠ .absent ∧ o.1.stage ≠ .connecting ∧
      (a.isOwners = false → c.stage ≠ .absent)) := by
  cases move_of_step hstep with
  | send thread m =>
    left
    show (c.send thread m).stage = c.stage
    unfold Connection.send
    split
    · rfl
    · cases thread <;> rfl
  | disconnect thread => exact .inl (stage_close c)
  | approve id =>
    show (c.approve id).stage = c.stage ∨ ((c.approve id).stage ≠ _ ∧ (c.approve id).stage ≠ _ ∧ _)
    unfold Connection.approve
    split
    · exact .inr ⟨nofun, nofun, nofun⟩
    · exact .inl rfl
  | abort =>
    by_cases habsent : c.stage = .absent
    · exact .inl (by simp [Connection.abort, habsent])
    · exact .inr (by simp [Connection.abort, habsent])
  | arrive => exact .inl rfl
  | expire => exact .inl rfl
  | @refuse thread => cases thread <;> exact .inl rfl
  | @enqueue thread => cases thread <;> exact .inl rfl
  | task hmove =>
    have hposted : c.stage ≠ .absent := fun h => by simp [Connection.step, turn, h] at hstep
    have hlate := hmove.stage_late
    exact .inr ⟨hlate.1, hlate.2, fun _ => hposted⟩
  | chain hmove => exact .inl hmove.main_eq.1

/-- A main task that was posted is not taken back. -/
theorem stage_ne_absent {a : Action κ} {o : Outcome κ} (hstep : c.step a = some o)
    (h : c.stage ≠ .absent) : o.1.stage ≠ .absent := by
  rcases stage_step hstep with hsame | ⟨hne, -⟩
  · rwa [hsame]
  · exact hne

theorem stage_ne_connecting {a : Action κ} {o : Outcome κ} (hstep : c.step a = some o)
    (h : c.stage ≠ .connecting) : o.1.stage ≠ .connecting := by
  rcases stage_step hstep with hsame | ⟨-, hne, -⟩
  · rwa [hsame]
  · exact hne

/-- Before the handshake is over the application has been told nothing. -/
theorem Sound.quiet_of_early (h : Sound c arrived es) (hearly : c.stage.isLate = false) :
    readerEvents es = [] := by
  obtain ⟨taken, -, htaken⟩ := h.hasRead
  unfold Reader.Taken at htaken
  cases hstage : c.stage with
  | absent => rw [show c.reader.stage = _ from hstage] at htaken; exact htaken.2
  | starting => rw [show c.reader.stage = _ from hstage] at htaken; exact htaken.2.2
  | connecting => rw [show c.reader.stage = _ from hstage] at htaken; exact htaken.2
  | sending unsent => rw [show c.reader.stage = _ from hstage] at htaken; exact htaken.2
  | awaiting got => rw [show c.reader.stage = _ from hstage] at htaken; exact htaken.2.2
  | admitted => rw [show c.reader.stage = _ from hstage] at htaken; exact htaken.2.2
  | reading buf => rw [hstage] at hearly; cases hearly
  | leaving => rw [hstage] at hearly; cases hearly
  | finished => rw [hstage] at hearly; cases hearly

/-- Where there is no main task, nothing was read. -/
theorem Sound.received_of_absent (h : Sound c arrived es) (hstage : c.stage = .absent) :
    received es = [] := by
  rw [received_eq_readerEvents, h.quiet_of_early (by rw [hstage]; rfl)]
  rfl

/-! ### The challenge of a server's connection -/

theorem TaskMove.out_eq {t : Turn} {o : Outcome κ} (h : TaskMove c t o) (hside : c.side = .server) :
    o.1.out = c.out := by
  cases h with
  | giveUp => exact out_close _
  | writeFail => rw [failHandshake_eq]; exact out_close _
  | cutShort => rw [failHandshake_eq]; exact out_close _
  | refuse => rw [failHandshake_eq]; exact out_close _
  | answer hstage hread hlen hclient => cases hside.symm.trans hclient
  | fault => exact out_close _
  | streamEnd => exact out_close _
  | _ => rfl

/-- Only the answer of a client changes the word to write. -/
theorem out_step {a : Action κ} {o : Outcome κ} (hside : c.side = .server)
    (hstep : c.step a = some o) : o.1.out = c.out := by
  cases move_of_step hstep with
  | send thread m =>
    show (c.send thread m).out = c.out
    unfold Connection.send
    split
    · rfl
    · cases thread <;> rfl
  | disconnect thread => exact out_close c
  | approve id =>
    show (c.approve id).out = c.out
    unfold Connection.approve
    split <;> rfl
  | abort => rfl
  | arrive => rfl
  | expire => rfl
  | @refuse thread => cases thread <;> rfl
  | @enqueue thread => cases thread <;> rfl
  | task hmove => exact hmove.out_eq hside
  | chain hmove => exact hmove.main_eq.2

theorem Asks.step {limit : Nat} {ch : Challenge} {a : Action κ} {o : Outcome κ}
    (h : Asks c limit ch) (hstep : c.step a = some o) : Asks o.1 limit ch := by
  have hterms := terms_step hstep
  refine ⟨?_, ?_, ?_, ?_⟩
  · exact (congrArg Terms.side hterms).trans h.side_eq
  · exact (congrArg Terms.limit hterms).trans h.limit_eq
  · exact (out_step h.side_eq hstep).trans h.out_eq
  · exact (congrArg Terms.expected hterms).trans h.expected_eq

theorem Asks.run {limit : Nat} {ch : Challenge} {o : Outcome κ} (h : Asks c limit ch)
    (hrun : c.run as = some o) : Asks o.1 limit ch := by
  refine Run.all_invariant (I := fun c => Asks c limit ch) ?_ h hrun
  intro c₁ a o₁ h₁ hstep
  exact h₁.step hstep

/-- A stream ends at most once, and the connection knows how. -/
theorem ending_run {o : Outcome κ} (hnone : c.inlet.ending = none) (hrun : c.run as = some o) :
    o.1.inlet.ending = (endings as).head? := by
  refine Run.all_history (I := fun c as _ => c.inlet.ending = (endings as).head?) hnone ?_ hrun
  intro pre a post c₁ es₁ c₂ es₂ _ _ hstep h₁
  have hterms : c₂.inlet.ending = c₁.inlet.ending.or a.ends :=
    congrArg Terms.ending (terms_step hstep)
  have hlast : ([a].filterMap Action.ends).head? = a.ends := by
    cases ha : a.ends <;> simp [ha]
  rw [hterms, h₁, endings, endings, List.filterMap_append, List.head?_append, hlast]

/-- **The gate.**  A server's connection that has told the application anything has read the answer
it expects. -/
theorem Sound.answered {limit : Nat} {ch : Challenge} (h : Sound c arrived es)
    (hasks : Asks c limit ch) (hopened : readerEvents es ≠ []) :
    arrived.take handshakeSize = Bytes.ofWord ch.expected := by
  obtain ⟨taken, harr, htaken⟩ := h.hasRead
  have hframed : readerEvents es = [] ∨ ∃ buf, c.reader.Framed taken es buf := htaken.finish
  obtain ⟨buf, hexpected, body, ms, htaken, -⟩ := hframed.resolve_left hopened
  have hheard : c.reader.heard = ch.expected := (hexpected hasks.side_eq).trans hasks.expected_eq
  rw [harr, htaken, hheard, List.append_assoc]
  exact List.take_left' (Bytes.length_ofWord _)

end Parley.Connection

import Parley.Proofs.Connection.Fate

/-!
# Parley.Proofs.Connection.Stopped — a connection whose thread has ended

When the thread that runs the tasks of a connection ends, all of them are dropped and nothing that is
posted later is taken up.  What is left of the connection can still be closed, by whoever knows it, and
bytes may still lie in its socket; but it reads none of them, writes nothing and queues nothing
(`Stopped.step`), and once it is closed nothing happens to it at all.
-/

namespace Parley.Connection

variable {κ : Type} {c : Connection κ}

/-- The thread is gone, and with it all tasks and what was posted for them. -/
structure Stopped (c : Connection κ) : Prop where
  unattended : c.attended = false
  posted : c.posted = []
  postedByHooks : c.postedByHooks = []
  chains : c.chains = []
  stage : c.stage = .absent ∨ c.stage = .finished

theorem stopped_abort (c : Connection κ) : Stopped c.abort := by
  refine ⟨rfl, rfl, rfl, rfl, ?_⟩
  show (if c.stage = .absent then Stage.absent else .finished) = .absent ∨
    (if c.stage = .absent then Stage.absent else .finished) = .finished
  by_cases habsent : c.stage = .absent
  · rw [if_pos habsent]
    exact .inl rfl
  · rw [if_neg habsent]
    exact .inr rfl

namespace Stopped

theorem orderly (h : Stopped c) : Orderly c where
  connecting hstage := by
    rcases h.stage with habsent | hfinished
    · cases habsent.symm.trans hstage
    · cases hfinished.symm.trans hstage
  opened _ hattended := by cases h.unattended.symm.trans hattended
  dropped _ := ⟨h.posted, h.postedByHooks, h.chains, h.stage⟩

theorem of_orderly (h : Orderly c) (hunattended : c.attended = false) : Stopped c := by
  obtain ⟨hposted, hhooks, hchains, hstage⟩ := h.dropped hunattended
  exact ⟨hunattended, hposted, hhooks, hchains, hstage⟩

/-- Nobody takes up what is posted. -/
theorem send_eq (h : Stopped c) (thread : Thread) (m : Message κ) : c.send thread m = c := by
  simp [send, h.unattended]

theorem close (h : Stopped c) : Stopped c.close.1 :=
  of_orderly h.orderly.close (by rw [attended_close, h.unattended])

variable [Kind κ] {a : Action κ} {o : Outcome κ}

/-- All that can still happen is that the connection is closed. -/
theorem step (h : Stopped c) (hstep : c.step a = some o) :
    Stopped o.1 ∧ (o.2 = [] ∨ o.2 = c.close.2) := by
  have hidle : c.attended ≠ true := by
    rw [h.unattended]
    exact Bool.false_ne_true
  cases move_of_step hstep with
  | send thread m =>
    rw [h.send_eq]
    exact ⟨h, .inl rfl⟩
  | disconnect thread => exact ⟨h.close, .inr rfl⟩
  | approve id hside hstage hattended => exact absurd hattended hidle
  | abort => exact ⟨stopped_abort c, .inl rfl⟩
  | arrive bytes hending =>
    exact ⟨⟨h.unattended, h.posted, h.postedByHooks, h.chains, h.stage⟩, .inl rfl⟩
  | expire ending hending =>
    exact ⟨⟨h.unattended, h.posted, h.postedByHooks, h.chains, h.stage⟩, .inl rfl⟩
  | refuse hposted hphase => exact absurd (h.orderly.attended_of_posted hposted) hidle
  | enqueue hposted hphase => exact absurd (h.orderly.attended_of_posted hposted) hidle
  | task hmove => exact absurd (h.orderly.attended_of_taskMove hmove) hidle
  | chain hmove =>
    obtain ⟨x, hx⟩ := hmove.exists_chain
    exact absurd (h.orderly.attended_of_chain hx) hidle

/-- Of a stopped connection nobody hears anything but that it was closed. -/
theorem eq_closed_of_mem (h : Stopped c) (hstep : c.step a = some o) {e : Event κ} (he : e ∈ o.2) :
    e = .closed := by
  rcases (h.step hstep).2 with hnone | hclose
  · rw [hnone] at he
    cases he
  · rw [hclose] at he
    exact eq_closed_of_mem_close he

/-- And after that, nothing. -/
theorem events_eq_nil (h : Stopped c) (hclosed : c.phase = .closed) (hstep : c.step a = some o) :
    o.2 = [] := by
  rcases (h.step hstep).2 with hnone | hclose
  · exact hnone
  · rw [hclose, close_of_closed hclosed]

/-- Whatever is done to it. -/
theorem run (h : Stopped c) (hclosed : c.phase = .closed) {as : List (Action κ)}
    (hrun : c.run as = some o) : o.1.phase = .closed ∧ o.2 = [] := by
  have hall := Run.all_history (I := fun c _ es => c.phase = .closed ∧ Stopped c ∧ es = [])
    ⟨hclosed, h, rfl⟩ ?_ hrun
  · exact ⟨hall.1, hall.2.2⟩
  rintro pre a post c₁ es₁ c₂ es₂ - - hstep ⟨hclosed₁, h₁, rfl⟩
  exact ⟨stable_closed c₁ a _ hstep hclosed₁, (h₁.step hstep).1,
    h₁.events_eq_nil hclosed₁ hstep⟩

end Stopped

end Parley.Connection

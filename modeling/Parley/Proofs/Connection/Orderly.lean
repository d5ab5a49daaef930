import Parley.Proofs.Connection.History

/-!
# Parley.Proofs.Connection.Orderly — where the main task stands

What the stage of the main task says about the rest of a connection (`Orderly`): only a client opens a
socket, an open connection reads frames, and when the tasks have been dropped none is left.  Every
step keeps it.
-/

namespace Parley.Connection

variable {κ : Type}

/-- What the stage of the main task says about the connection, and what is left of a connection
whose tasks were dropped. -/
structure Orderly (c : Connection κ) : Prop where
  connecting : c.stage = .connecting → c.side = .client
  opened : c.phase = .opened → c.attended = true → ∃ buf, c.stage = .reading buf
  dropped : c.attended = false →
    c.posted = [] ∧ c.postedByHooks = [] ∧ c.chains = [] ∧ (c.stage = .absent ∨ c.stage = .finished)

namespace Orderly

variable {c c' : Connection κ}

/-- A chain runs only as long as the tasks are not dropped. -/
theorem attended_of_chain (h : Orderly c) {i : Nat} {chain : Chain κ}
    (hchain : c.chains[i]? = some chain) : c.attended = true := by
  by_contra hnot
  obtain ⟨-, -, hchains, -⟩ := h.dropped (Bool.eq_false_iff.mpr hnot)
  rw [hchains] at hchain
  cases hchain

/-- A task runs only as long as the tasks are not dropped. -/
theorem attended_of_stage (h : Orderly c) (habsent : c.stage ≠ .absent)
    (hfinished : c.stage ≠ .finished) : c.attended = true := by
  by_contra hnot
  obtain ⟨-, -, -, hstage | hstage⟩ := h.dropped (Bool.eq_false_iff.mpr hnot)
  · exact habsent hstage
  · exact hfinished hstage

theorem attended_of_posted (h : Orderly c) {thread : Thread} {m : Message κ} {rest : List (Message κ)}
    (hposted : c.postedBy thread = m :: rest) : c.attended = true := by
  by_contra hnot
  obtain ⟨happlication, hhooks, -, -⟩ := h.dropped (Bool.eq_false_iff.mpr hnot)
  cases thread with
  | application => cases happlication.symm.trans hposted
  | reactor => cases hhooks.symm.trans hposted

/-- As long as the tasks are not dropped, only the stage of an open connection matters. -/
theorem of_attended (hattended : c.attended = true) (hconnecting : c.stage ≠ .connecting)
    (hopened : c.phase = .opened → ∃ buf, c.stage = .reading buf) : Orderly c where
  connecting h := absurd h hconnecting
  opened h _ := hopened h
  dropped h := by rw [hattended] at h; cases h

theorem close (h : Orderly c) : Orderly c.close.1 where
  connecting hstage := by
    rw [stage_close] at hstage
    rw [side_close]
    exact h.connecting hstage
  opened hphase := by rw [phase_close] at hphase; cases hphase
  dropped hattended := by
    rw [attended_close] at hattended
    simpa using h.dropped hattended

/-- A running task that closes the connection. -/
theorem close_of_attended (hattended : c.attended = true) (hconnecting : c.stage ≠ .connecting) :
    Orderly c.close.1 := by
  refine of_attended ?_ ?_ ?_
  · rw [attended_close]; exact hattended
  · rw [stage_close]; exact hconnecting
  · rw [phase_close]; nofun

theorem send (h : Orderly c) (thread : Thread) (m : Message κ) : Orderly (c.send thread m) := by
  unfold Connection.send
  split
  · exact h
  · next hopen =>
    have hattended : c.attended = true := by
      simp only [Bool.or_eq_true, not_or] at hopen
      simpa using hopen.2
    cases thread with
    | application =>
      exact ⟨h.connecting, h.opened, fun hdropped => absurd hattended (by simpa using hdropped)⟩
    | reactor =>
      exact ⟨h.connecting, h.opened, fun hdropped => absurd hattended (by simpa using hdropped)⟩

/-- Before the main task reads frames, the connection is not open. -/
theorem not_opened (h : Orderly c) (hattended : c.attended = true)
    (hstage : ∀ buf, c.stage ≠ .reading buf) : c.phase ≠ .opened := by
  intro hphase
  obtain ⟨buf, hreading⟩ := h.opened hphase hattended
  exact hstage buf hreading

variable [Kind κ]

theorem attended_of_taskMove {t : Turn} {o : Outcome κ} (h : Orderly c) (hmove : TaskMove c t o) :
    c.attended = true := by
  have hstage : c.stage ≠ .absent ∧ c.stage ≠ .finished := by
    cases hmove with
    | cancel hphase hstage =>
      rcases hstage with hs | ⟨unsent, hs⟩ | ⟨got, hs⟩ <;> simp [hs]
    | _ => simp_all
  exact h.attended_of_stage hstage.1 hstage.2

theorem taskMove {t : Turn} {o : Outcome κ} (h : Orderly c) (hmove : TaskMove c t o) :
    Orderly o.1 := by
  have hattended := h.attended_of_taskMove hmove
  have hclosed : ∀ c' : Connection κ, c'.attended = true → c'.stage = .finished →
      Orderly c'.close.1 := fun c' ha hs => close_of_attended ha (by rw [hs]; nofun)
  have hopened : ∀ stage : Stage, c.stage = stage → (∀ buf, stage ≠ .reading buf) →
      c.phase ≠ .opened := by
    intro stage hstage hnot
    exact h.not_opened hattended fun buf hreading => hnot buf (hstage.symm.trans hreading)
  cases hmove with
  | begin hstage hsocket =>
    exact of_attended hattended nofun fun hp => absurd hp (hopened _ hstage nofun)
  | beginLate hstage hsocket =>
    exact of_attended hattended nofun fun hp => absurd hp (hopened _ hstage nofun)
  | attach hstage hphase => exact of_attended hattended nofun nofun
  | attachLate hstage hphase =>
    exact of_attended hattended nofun fun hp => absurd hp (hopened _ hstage nofun)
  | giveUp hstage => exact hclosed _ hattended rfl
  | writePart hstage hn hlt =>
    exact of_attended hattended nofun fun hp => absurd hp (hopened _ hstage nofun)
  | writeRest hstage hside =>
    exact of_attended hattended nofun fun hp => absurd hp (hopened _ hstage nofun)
  | writeAnswer hstage hside =>
    exact of_attended hattended nofun fun hp => absurd hp (hopened _ hstage nofun)
  | writeFail hstage => rw [failHandshake_eq]; exact hclosed _ hattended rfl
  | cutShort hstage hpending hending => rw [failHandshake_eq]; exact hclosed _ hattended rfl
  | readPart hstage hread hlen =>
    exact of_attended hattended nofun fun hp => absurd hp (hopened _ hstage nofun)
  | welcome hstage hread hlen hside hword =>
    exact of_attended hattended nofun fun hp => absurd hp (hopened _ hstage nofun)
  | refuse hstage hread hlen hside hword => rw [failHandshake_eq]; exact hclosed _ hattended rfl
  | answer hstage hread hlen hside =>
    exact of_attended hattended nofun fun hp => absurd hp (hopened _ hstage nofun)
  | enter hstage hlock hphase => exact of_attended hattended nofun fun _ => ⟨[], rfl⟩
  | enterLate hstage hlock hphase =>
    exact of_attended hattended nofun fun hp => absurd hp (hopened _ hstage nofun)
  | message hstage hdecode => exact of_attended hattended nofun fun _ => ⟨_, rfl⟩
  | fault hstage hdecode => exact close_of_attended hattended nofun
  | more hstage hdecode hpending => exact of_attended hattended nofun fun _ => ⟨_, rfl⟩
  | streamEnd hstage hdecode hpending hending => exact close_of_attended hattended nofun
  | cancel hphase hstage =>
    exact of_attended hattended nofun fun hp => by cases hphase.symm.trans hp
  | cancelReading hphase hstage =>
    exact of_attended hattended nofun fun hp => by cases hphase.symm.trans hp
  | leave hstage hlock =>
    exact of_attended hattended nofun fun hp => absurd hp (hopened _ hstage nofun)

theorem proceeds {i : Nat} {o : Outcome κ} (h : Orderly c) (hattended : c.attended = true)
    (hnext : Proceeds i c o) : Orderly o.1 := by
  have hdropped : ¬ c.attended = false := by rw [hattended]; nofun
  cases hnext with
  | starts => exact ⟨h.connecting, h.opened, fun hd => absurd hd hdropped⟩
  | refuses => exact close ⟨h.connecting, h.opened, fun hd => absurd hd hdropped⟩
  | ends => exact ⟨h.connecting, h.opened, fun hd => absurd hd hdropped⟩

theorem chainMove {i : Nat} {t : Turn} {o : Outcome κ} (h : Orderly c) (hmove : ChainMove i c t o) :
    Orderly o.1 := by
  have hattended : c.attended = true := by
    cases hmove with
    | locks hchain => exact h.attended_of_chain hchain
    | writePart hchain => exact h.attended_of_chain hchain
    | writeRest hchain => exact h.attended_of_chain hchain
    | writeFail hchain => exact h.attended_of_chain hchain
    | cancel hchain => exact h.attended_of_chain hchain
  have hdropped : ¬ c.attended = false := by rw [hattended]; nofun
  cases hmove with
  | locks _ _ hnext => exact h.proceeds hattended hnext
  | writePart => exact ⟨h.connecting, h.opened, h.dropped⟩
  | writeRest _ _ hnext =>
    have hpopped : Orderly { c with writer := some [], outbound := c.outbound.dropFront } :=
      ⟨h.connecting, h.opened, h.dropped⟩
    have hrest := hpopped.proceeds hattended hnext
    exact hrest
  | writeFail => exact close ⟨h.connecting, h.opened, fun hd => absurd hd hdropped⟩
  | cancel => exact ⟨h.connecting, h.opened, fun hd => absurd hd hdropped⟩

theorem step {a : Action κ} {o : Outcome κ} (h : Orderly c) (hstep : c.step a = some o) :
    Orderly o.1 := by
  cases move_of_step hstep with
  | send thread m => exact h.send thread m
  | disconnect thread => exact h.close
  | approve id hside hstage hattended =>
    show Orderly (c.approve id)
    unfold Connection.approve
    split
    · exact of_attended hattended nofun fun hp =>
        absurd hp (h.not_opened hattended (by rw [hstage]; nofun))
    · exact h
  | abort =>
    refine ⟨?_, nofun, fun _ => ⟨rfl, rfl, rfl, ?_⟩⟩
    · simp only [abort]
      split <;> nofun
    · simp only [abort]
      split
      · exact .inl rfl
      · exact .inr rfl
  | arrive bytes hending => exact ⟨h.connecting, h.opened, h.dropped⟩
  | expire ending hending => exact ⟨h.connecting, h.opened, h.dropped⟩
  | @refuse thread m rest hposted hphase =>
    have hdropped : ¬ c.attended = false := by rw [h.attended_of_posted hposted]; nofun
    cases thread with
    | application => exact ⟨h.connecting, h.opened, fun hd => absurd hd hdropped⟩
    | reactor => exact ⟨h.connecting, h.opened, fun hd => absurd hd hdropped⟩
  | @enqueue thread m rest hposted hphase =>
    have hdropped : ¬ c.attended = false := by rw [h.attended_of_posted hposted]; nofun
    cases thread with
    | application => exact ⟨h.connecting, h.opened, fun hd => absurd hd hdropped⟩
    | reactor => exact ⟨h.connecting, h.opened, fun hd => absurd hd hdropped⟩
  | task hmove => exact h.taskMove hmove
  | chain hmove => exact h.chainMove hmove

end Orderly

end Parley.Connection

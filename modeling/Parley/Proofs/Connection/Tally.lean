import Parley.Proofs.Connection.Lifecycle

/-!
# Parley.Proofs.Connection.Tally — how often a connection is counted

A connection begins the handshake once at most, and the handshake succeeds or fails once at most, after
it was begun (`Tally`).  A server's connection leaves the gauge of open connections when it is closed,
and only then (`marks_run`).
-/

namespace Parley.Connection

variable {κ : Type}

/-! ### Attempts and their outcomes -/

/-- The main task has come to the handshake: this counts as one attempt at most. -/
def Stage.attempts : Stage → Nat
  | .absent | .starting | .connecting => 0
  | _ => 1

theorem Stage.attempts_le_one (x : Stage) : x.attempts ≤ 1 := by
  cases x <;> simp [attempts]

/-- The main task is in the middle of the handshake. -/
def Stage.undecided : Stage → Nat
  | .sending _ | .awaiting _ => 1
  | _ => 0

/-- How often events were counted in a certain way. -/
def countOf (x : Metrics.Entry) (es : List (Event κ)) : Nat := (entries es).count x

@[simp] theorem countOf_append (x : Metrics.Entry) (es fs : List (Event κ)) :
    countOf x (es ++ fs) = countOf x es + countOf x fs := by
  rw [countOf, entries_append, List.count_append]
  rfl

/-- Of the entries that move the gauge, all are marks. -/
theorem countOf_mark {x : Metrics.Entry} (hx : x.isMark = true) (es : List (Event κ)) :
    countOf x es = (marks es).count x := (List.count_filter hx).symm

/-- What a connection has counted of its handshake. -/
structure Tally (c : Connection κ) (es : List (Event κ)) : Prop where
  attempted_le : countOf .attempted es ≤ c.stage.attempts
  decided_le : countOf .succeeded es + countOf .failed es + c.stage.undecided ≤ countOf .attempted es

/-- How often events were counted as attempts, successes and failures of the handshake. -/
structure Records (es : List (Event κ)) (attempts successes failures : Nat) : Prop where
  attempted : countOf .attempted es = attempts
  succeeded : countOf .succeeded es = successes
  failed : countOf .failed es = failures

theorem records_close (c : Connection κ) : Records c.close.2 0 0 0 := by
  rcases events_close c with hes | hes
  · rw [hes]
    exact ⟨rfl, rfl, rfl⟩
  · rw [hes]
    exact ⟨rfl, rfl, rfl⟩

theorem records_failHandshake (c : Connection κ) : Records c.failHandshake.2 0 0 1 := by
  rw [failHandshake_eq]
  rcases events_close { c with stage := .finished } with hes | hes
  · rw [hes]
    cases c.side <;> exact ⟨rfl, rfl, rfl⟩
  · rw [hes]
    cases c.side <;> exact ⟨rfl, rfl, rfl⟩

/-- An error is none of the three. -/
theorem Records.errored {es : List (Event κ)} {a s f : Nat} (h : Records es a s f) :
    Records (.errored :: es) a s f := ⟨h.attempted, h.succeeded, h.failed⟩

theorem records_stopReading (errored : Bool) (c : Connection κ) :
    Records (c.stopReading errored).2 0 0 0 := by
  have hclose := records_close { c with stage := .leaving }
  cases errored with
  | false => exact hclose
  | true => exact hclose.errored

theorem records_failWriting (i : Nat) (c : Connection κ) : Records (c.failWriting i).2 0 0 0 :=
  (records_close { c with writer := none, chains := c.chains.eraseIdx i }).errored

variable [Kind κ] {c c' : Connection κ} {es fs : List (Event κ)}

theorem Proceeds.records {i : Nat} {o : Outcome κ} (h : Proceeds i c o) : Records o.2 0 0 0 := by
  cases h with
  | starts => exact ⟨rfl, rfl, rfl⟩
  | refuses => exact records_failWriting i c
  | ends => exact ⟨rfl, rfl, rfl⟩

/-- A chain counts nothing of the handshake. -/
theorem ChainMove.records {i : Nat} {t : Turn} {o : Outcome κ} (h : ChainMove i c t o) :
    Records o.2 0 0 0 := by
  cases h with
  | locks hchain hlock hnext => exact hnext.records
  | writePart => exact ⟨rfl, rfl, rfl⟩
  | writeRest hchain hwriter hnext =>
    exact ⟨hnext.records.attempted, hnext.records.succeeded, hnext.records.failed⟩
  | writeFail => exact records_failWriting i c
  | cancel => exact ⟨rfl, rfl, rfl⟩

namespace Tally

omit [Kind κ]

/-- What is counted, and how the stage changes with it. -/
theorem append (h : Tally c es) {a s f : Nat} (hfs : Records fs a s f)
    (hattempts : c.stage.attempts + a ≤ c'.stage.attempts)
    (hundecided : s + f + c'.stage.undecided ≤ c.stage.undecided + a) : Tally c' (es ++ fs) := by
  obtain ⟨hattempted, hsucceeded, hfailed⟩ := hfs
  have h₁ := h.attempted_le
  have h₂ := h.decided_le
  refine ⟨?_, ?_⟩
  · rw [countOf_append]
    omega
  · simp only [countOf_append]
    omega

/-- The main task stands where it stood. -/
theorem still (h : Tally c es) (hfs : Records fs 0 0 0) (hstage : c'.stage = c.stage) :
    Tally c' (es ++ fs) :=
  h.append hfs (by rw [hstage]; omega) (by rw [hstage]; omega)

/-- The main task goes on from one stage to another. -/
theorem goOn (h : Tally c es) {x y : Stage} {a s f : Nat} (hx : c.stage = x) (hy : c'.stage = y)
    (hfs : Records fs a s f) (hattempts : x.attempts + a ≤ y.attempts)
    (hundecided : s + f + y.undecided ≤ x.undecided + a) : Tally c' (es ++ fs) :=
  h.append hfs (by rw [hx, hy]; exact hattempts) (by rw [hx, hy]; exact hundecided)

theorem failHandshake (h : Tally c es) (hattempts : c.stage.attempts = 1)
    (hundecided : c.stage.undecided = 1) (d : Connection κ) :
    Tally d.failHandshake.1 (es ++ d.failHandshake.2) := by
  refine h.goOn rfl (y := .finished) ?_ (records_failHandshake d) ?_ ?_
  · rw [failHandshake_eq]
    exact stage_close _
  · rw [hattempts]
    exact Nat.le_refl 1
  · rw [hundecided]
    exact Nat.le_refl 1

variable [Kind κ]

theorem taskMove {t : Turn} {o : Outcome κ} (h : Tally c es) (hmove : TaskMove c t o) :
    Tally o.1 (es ++ o.2) := by
  have hquiet : Records ([] : List (Event κ)) 0 0 0 := ⟨rfl, rfl, rfl⟩
  have hattempt : Records ([.attempted] : List (Event κ)) 1 0 0 := ⟨rfl, rfl, rfl⟩
  cases hmove with
  | begin hstage => exact h.goOn hstage rfl hattempt (Nat.le_refl 1) (Nat.le_refl 1)
  | beginLate hstage => exact h.goOn hstage rfl hquiet (Nat.zero_le 1) (Nat.zero_le 0)
  | attach hstage =>
    exact h.goOn hstage rfl (a := 1) (s := 0) (f := 0) ⟨rfl, rfl, rfl⟩ (Nat.le_refl 1) (Nat.le_refl 1)
  | attachLate hstage => exact h.goOn hstage rfl hquiet (Nat.zero_le 1) (Nat.zero_le 0)
  | giveUp hstage =>
    exact h.goOn hstage (stage_close _) (records_close _).errored (Nat.zero_le 1) (Nat.zero_le 0)
  | writeFail hstage => exact h.failHandshake (by rw [hstage]; rfl) (by rw [hstage]; rfl) _
  | cutShort hstage => exact h.failHandshake (by rw [hstage]; rfl) (by rw [hstage]; rfl) _
  | refuse hstage => exact h.failHandshake (by rw [hstage]; rfl) (by rw [hstage]; rfl) _
  | writeAnswer hstage =>
    exact h.goOn hstage rfl (a := 0) (s := 1) (f := 0) ⟨rfl, rfl, rfl⟩ (Nat.le_refl 1) (Nat.le_refl 1)
  | welcome hstage =>
    exact h.goOn hstage rfl (a := 0) (s := 1) (f := 0) ⟨rfl, rfl, rfl⟩ (Nat.le_refl 1) (Nat.le_refl 1)
  | fault hstage =>
    exact h.goOn hstage (stage_close _) (records_stopReading true c) (Nat.le_refl 1) (Nat.le_refl 0)
  | streamEnd hstage =>
    exact h.goOn hstage (stage_close _) (records_stopReading _ c) (Nat.le_refl 1) (Nat.le_refl 0)
  | cancel hphase hstage =>
    rcases hstage with hstage | ⟨unsent, hstage⟩ | ⟨got, hstage⟩
    · exact h.goOn hstage rfl hquiet (Nat.zero_le 1) (Nat.zero_le 0)
    · exact h.goOn hstage rfl hquiet (Nat.le_refl 1) (Nat.zero_le 1)
    · exact h.goOn hstage rfl hquiet (Nat.le_refl 1) (Nat.zero_le 1)
  | message hstage hdecode =>
    exact h.goOn hstage rfl (a := 0) (s := 0) (f := 0) ⟨rfl, rfl, rfl⟩ (Nat.le_refl 1) (Nat.le_refl 0)
  | enter hstage hlock hphase =>
    exact h.goOn hstage rfl (a := 0) (s := 0) (f := 0) ⟨rfl, rfl, rfl⟩ (Nat.le_refl 1) (Nat.le_refl 0)
  | writePart hstage =>
    exact h.goOn hstage rfl (a := 0) (s := 0) (f := 0) ⟨rfl, rfl, rfl⟩ (Nat.le_refl 1) (Nat.le_refl 1)
  | writeRest hstage =>
    exact h.goOn hstage rfl (a := 0) (s := 0) (f := 0) ⟨rfl, rfl, rfl⟩ (Nat.le_refl 1) (Nat.le_refl 1)
  | readPart hstage => exact h.goOn hstage rfl hquiet (Nat.le_refl 1) (Nat.le_refl 1)
  | answer hstage => exact h.goOn hstage rfl hquiet (Nat.le_refl 1) (Nat.le_refl 1)
  | enterLate hstage => exact h.goOn hstage rfl hquiet (Nat.le_refl 1) (Nat.le_refl 0)
  | more hstage => exact h.goOn hstage rfl hquiet (Nat.le_refl 1) (Nat.le_refl 0)
  | cancelReading hphase hstage => exact h.goOn hstage rfl hquiet (Nat.le_refl 1) (Nat.le_refl 0)
  | leave hstage => exact h.goOn hstage rfl hquiet (Nat.le_refl 1) (Nat.le_refl 0)

theorem step {a : Action κ} {o : Outcome κ} (h : Tally c es) (hstep : c.step a = some o) :
    Tally o.1 (es ++ o.2) := by
  have hquiet : Records ([] : List (Event κ)) 0 0 0 := ⟨rfl, rfl, rfl⟩
  cases move_of_step hstep with
  | send thread m =>
    refine h.still hquiet ?_
    show (c.send thread m).stage = c.stage
    unfold Connection.send
    split
    · rfl
    · cases thread <;> rfl
  | disconnect thread => exact h.still (records_close c) (stage_close c)
  | approve id hside hstage =>
    refine h.append hquiet ?_ ?_
    · rw [hstage]
      exact Nat.zero_le _
    · show 0 + 0 + (c.approve id).stage.undecided ≤ _
      unfold Connection.approve
      split
      · exact Nat.zero_le _
      · rw [hstage]
        exact Nat.zero_le _
  | abort =>
    show Tally c.abort (es ++ [])
    by_cases hstage : c.stage = .absent
    · exact h.still hquiet (by simp [Connection.abort, hstage])
    · refine h.goOn rfl (y := .finished) (by simp [Connection.abort, hstage]) hquiet ?_ (Nat.zero_le _)
      exact c.stage.attempts_le_one
  | arrive => exact h.still hquiet rfl
  | expire => exact h.still hquiet rfl
  | @refuse thread => cases thread <;> exact h.still hquiet rfl
  | @enqueue thread => cases thread <;> exact h.still ⟨rfl, rfl, rfl⟩ rfl
  | task hmove => exact h.taskMove hmove
  | chain hmove => exact h.still hmove.records hmove.main_eq.1

omit [Kind κ] in
/-- A connection without a history has counted nothing. -/
theorem nil (c : Connection κ) (hstage : c.stage.undecided = 0) : Tally c [] where
  attempted_le := Nat.zero_le _
  decided_le := by rw [hstage]; exact Nat.le_refl 0

theorem run {c₀ : Connection κ} {as : List (Action κ)} (h : Tally c₀ [])
    (hrun : c₀.run as = some (c, es)) : Tally c es :=
  Run.all_history (I := fun c _ es => Tally c es) h
    (fun _ _ _ _ _ _ _ _ _ hstep h₁ => h₁.step hstep) hrun

end Tally

/-! ### The gauge -/

/-- A connection that was accepted and counted leaves the gauge when it is closed, and only then. -/
theorem marks_run {limit : Nat} {ch : Challenge} {as : List (Action κ)}
    (hrun : (accepted limit ch).run as = some (c, es)) :
    marks es = if c.isConnected then [] else [.closed] := by
  refine (Run.all_history (I := fun c _ es =>
    c.phase ≠ .connecting ∧ marks es = if c.isConnected then [] else [.closed])
    ⟨show Phase.validating ≠ .connecting from nofun, rfl⟩ ?_ hrun).2
  rintro pre a post c₁ es₁ c₂ es₂ - - hstep ⟨hphase, hmarks⟩
  have hnext := marks_step hstep
  refine ⟨phase_ne_connecting hstep hphase, ?_⟩
  rw [marks, entries_append, List.filter_append, show (entries es₁).filter _ = _ from hmarks,
    show (entries es₂).filter _ = _ from hnext]
  cases hlive : c₁.isConnected with
  | true => cases c₂.isConnected <;> rfl
  | false =>
    have hclosed : c₁.phase = .closed := by
      unfold isConnected at hlive
      cases hc : c₁.phase with
      | connecting => exact absurd hc hphase
      | validating => rw [hc] at hlive; cases hlive
      | opened => rw [hc] at hlive; cases hlive
      | closed => rfl
    rw [isConnected_of_closed (closed_step hstep hclosed)]
    rfl

end Parley.Connection

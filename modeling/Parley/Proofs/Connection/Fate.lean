import Parley.Proofs.Connection.Sound

/-!
# Parley.Proofs.Connection.Fate — how the handshake of a server's connection ends

A server's connection that nobody disconnects is validating as long as its handshake lasts, and if
the task ends without having opened it, the handshake has failed, once (`Fate`).  If moreover only
the main task itself closes the connection, it fails only because of what arrived, and once open the
connection stops reading only where the stream of frames breaks off or ends (`Ending`).
-/

namespace Parley.Connection

variable {κ : Type}

/-! ### Closing from outside -/

/-- The application, or a hook, closes the connection. -/
def Action.isDisconnect : Action κ → Bool
  | .perform _ .disconnect => true
  | _ => false

def Event.isFailed : Event κ → Bool
  | .failed => true
  | _ => false

/-- How often a handshake failed. -/
def failures (es : List (Event κ)) : Nat := es.countP Event.isFailed

theorem failures_eq_countP (es : List (Event κ)) :
    failures es = (es.filterMap Event.entry?).countP (· == .failed) := by
  rw [List.countP_filterMap, failures]
  congr
  funext e
  cases e <;> rfl

@[simp] theorem failures_append (es fs : List (Event κ)) :
    failures (es ++ fs) = failures es + failures fs := by
  simp [failures]

@[simp] theorem failures_close (c : Connection κ) : failures c.close.2 = 0 := by
  rcases events_close c with h | h
  · rw [h]; rfl
  · rw [h]; rfl

theorem failures_failHandshake (c : Connection κ) : failures c.failHandshake.2 = 1 := by
  rw [failHandshake_eq, failures_append, failures_close]
  cases c.side with
  | server => rfl
  | client => rfl

theorem failures_stopReading (errored : Bool) (c : Connection κ) :
    failures (c.stopReading errored).2 = 0 := by
  have h := failures_close { c with stage := .leaving }
  cases errored with
  | false => exact h
  | true => exact h

variable {c c' : Connection κ} {es fs : List (Event κ)}

/-! ### The fate of the handshake -/

/-- How far the handshake of a server's connection has come that nobody disconnects. -/
structure Fate (c : Connection κ) (es : List (Event κ)) : Prop where
  early : c.stage.isLate = false →
    c.phase = .validating ∧ failures es = 0 ∧
      (c.stage = .absent ∨ c.stage = .starting → c.socket = true)
  refused : c.stage = .finished → readerEvents es = [] → c.phase = .closed ∧ failures es = 1
  opened : readerEvents es ≠ [] → failures es = 0

namespace Fate

/-- A step that leaves the main task alone. -/
theorem frame (h : Fate c es) (hstage : c'.stage = c.stage) (hphase : c'.phase = c.phase)
    (hsocket : c'.socket = c.socket) (hquiet : readerEvents fs = []) (hfail : failures fs = 0) :
    Fate c' (es ++ fs) where
  early hearly := by
    rw [hstage] at hearly
    obtain ⟨hphase', hnone, hsocket'⟩ := h.early hearly
    refine ⟨hphase.trans hphase', ?_, fun hs => ?_⟩
    · rw [failures_append, hnone, hfail]
    · rw [hstage] at hs
      exact hsocket.trans (hsocket' hs)
  refused hfinished hnone := by
    rw [hstage] at hfinished
    rw [readerEvents_append_quiet es hquiet] at hnone
    obtain ⟨hclosed, hone⟩ := h.refused hfinished hnone
    exact ⟨hphase.trans hclosed, by rw [failures_append, hone, hfail]⟩
  opened hopened := by
    rw [readerEvents_append_quiet es hquiet] at hopened
    rw [failures_append, h.opened hopened, hfail]

/-- The handshake goes on. -/
theorem advance (h : Fate c es) (hearly : c.stage.isLate = false) (hnone : readerEvents es = [])
    (hstage : c'.stage.isLate = false) (hphase : c'.phase = c.phase)
    (hsocket : c'.stage ≠ .absent ∧ c'.stage ≠ .starting)
    (hquiet : readerEvents fs = []) (hfail : failures fs = 0) : Fate c' (es ++ fs) where
  early _ := by
    obtain ⟨hphase', hnone', -⟩ := h.early hearly
    refine ⟨hphase.trans hphase', ?_, fun hs => ?_⟩
    · rw [failures_append, hnone', hfail]
    · exact absurd hs (by simp [hsocket])
  refused hfinished := by rw [hfinished] at hstage; cases hstage
  opened hopened := by
    rw [readerEvents_append_quiet es hquiet] at hopened
    exact absurd hnone hopened

/-- The handshake fails. -/
theorem fail (h : Fate c es) (hearly : c.stage.isLate = false) (hnone : readerEvents es = [])
    (k : Connection κ) : Fate k.failHandshake.1 (es ++ k.failHandshake.2) := by
  obtain ⟨hreader, hquiet⟩ := reader_failHandshake k
  have hstage : k.failHandshake.1.stage = .finished := congrArg Reader.stage hreader
  refine ⟨fun hlate => ?_, fun _ _ => ⟨?_, ?_⟩, fun hopened => ?_⟩
  · rw [hstage] at hlate; cases hlate
  · rw [failHandshake_eq]; exact phase_close _
  · rw [failures_append, failures_failHandshake, (h.early hearly).2.1]
  · rw [readerEvents_append_quiet es hquiet] at hopened
    exact absurd hnone hopened

/-- The connection has been open. -/
theorem of_opened (h : Fate c es) (hopened : readerEvents es ≠ []) (hlate : c'.stage.isLate = true)
    (hfail : failures fs = 0) : Fate c' (es ++ fs) where
  early hearly := by rw [hlate] at hearly; cases hearly
  refused _ hnone := absurd hnone (readerEvents_ne_nil hopened fs)
  opened _ := by rw [failures_append, h.opened hopened, hfail]

end Fate

variable [Kind κ] {arrived : List UInt8} {limit : Nat} {ch : Challenge}


/-- Every step of a run that closes the connection is one of the given actions. -/
def ClosesOnlyBy (p : Action κ → Prop) (c : Connection κ) (as : List (Action κ)) : Prop :=
  ∀ pre a post c₁ es₁ o, as = pre ++ a :: post → c.run pre = some (c₁, es₁) →
    c₁.step a = some o → c₁.phase ≠ .closed → o.1.phase = .closed → p a

theorem Proceeds.failures_eq {i : Nat} {o : Outcome κ} (h : Proceeds i c o) : failures o.2 = 0 := by
  cases h with
  | starts => rfl
  | refuses => exact failures_close _
  | ends => rfl

theorem ChainMove.failures_eq {i : Nat} {t : Turn} {o : Outcome κ} (h : ChainMove i c t o) :
    failures o.2 = 0 := by
  cases h with
  | locks _ _ hnext => exact hnext.failures_eq
  | writePart => rfl
  | writeRest _ _ hnext => exact hnext.failures_eq
  | writeFail => exact failures_close _
  | cancel => rfl

/-! ### Before and after opening -/

/-- There are chains only where the application has been told that the connection is open. -/
theorem Sound.opened_of_chain (h : Sound c arrived es) {i : Nat} {x : Chain κ}
    (hi : c.chains[i]? = some x) : readerEvents es ≠ [] ∧ c.stage.isLate = true := by
  cases h.hasWritten with
  | before hphase hword hchains => rw [hchains] at hi; cases hi
  | after hstage hopened => exact ⟨hopened, hstage⟩

theorem ChainMove.exists_chain {i : Nat} {t : Turn} {o : Outcome κ} (h : ChainMove i c t o) :
    ∃ x, c.chains[i]? = some x := by
  cases h with
  | locks hchain => exact ⟨_, hchain⟩
  | writePart hchain => exact ⟨_, hchain⟩
  | writeRest hchain => exact ⟨_, hchain⟩
  | writeFail hchain => exact ⟨_, hchain⟩
  | cancel hchain => exact ⟨_, hchain⟩

namespace Fate

theorem taskMove {t : Turn} {o : Outcome κ} (h : Fate c es) (hsound : Sound c arrived es)
    (hasks : Asks c limit ch) (hmove : TaskMove c t o) : Fate o.1 (es ++ o.2) := by
  have hclient : c.side ≠ .client := by rw [hasks.side_eq]; nofun
  have hconnecting : c.stage ≠ .connecting := fun hs => hclient (hsound.orderly.connecting hs)
  have hearly : ∀ {stage : Stage}, c.stage = stage → stage.isLate = false →
      c.stage.isLate = false := by
    rintro stage rfl hlate
    exact hlate
  have hquiet : ∀ {stage : Stage}, c.stage = stage → stage.isLate = false → readerEvents es = [] :=
    fun hstage hlate => hsound.quiet_of_early (hearly hstage hlate)
  cases hmove with
  | begin hstage hsocket =>
    exact h.advance (hearly hstage rfl) (hquiet hstage rfl) rfl rfl ⟨nofun, nofun⟩ rfl rfl
  | beginLate hstage hsocket =>
    cases hsocket.symm.trans ((h.early (hearly hstage rfl)).2.2 (.inr hstage))
  | attach hstage hphase => exact absurd hstage hconnecting
  | attachLate hstage hphase => exact absurd hstage hconnecting
  | giveUp hstage => exact absurd hstage hconnecting
  | writePart hstage hn hlt =>
    exact h.advance (hearly hstage rfl) (hquiet hstage rfl) rfl rfl ⟨nofun, nofun⟩ rfl rfl
  | writeRest hstage hside =>
    exact h.advance (hearly hstage rfl) (hquiet hstage rfl) rfl rfl ⟨nofun, nofun⟩ rfl rfl
  | writeAnswer hstage hside => exact absurd hside hclient
  | writeFail hstage =>
    exact h.fail (hearly hstage rfl) (hquiet hstage rfl) c
  | cutShort hstage hpending hending =>
    exact h.fail (hearly hstage rfl) (hquiet hstage rfl) c
  | readPart hstage hread hlen =>
    exact h.advance (hearly hstage rfl) (hquiet hstage rfl) rfl rfl ⟨nofun, nofun⟩ rfl rfl
  | welcome hstage hread hlen hside hword =>
    exact h.advance (hearly hstage rfl) (hquiet hstage rfl) rfl rfl ⟨nofun, nofun⟩ rfl rfl
  | refuse hstage hread hlen hside hword =>
    exact h.fail (hearly hstage rfl) (hquiet hstage rfl) _
  | answer hstage hread hlen hside => exact absurd hside hclient
  | enter hstage hlock hphase =>
    refine ⟨nofun, nofun, fun _ => ?_⟩
    rw [failures_append, (h.early (hearly hstage rfl)).2.1]
    rfl
  | enterLate hstage hlock hphase =>
    exact absurd (h.early (hearly hstage rfl)).1 hphase
  | message hstage hdecode =>
    exact h.of_opened (hsound.hasWritten.of_late (.inl ⟨_, hstage⟩)).1 rfl rfl
  | fault hstage hdecode =>
    refine h.of_opened (hsound.hasWritten.of_late (.inl ⟨_, hstage⟩)).1 ?_
      (failures_stopReading true c)
    rw [show (c.stopReading true).1.stage = .leaving from stage_close _]
    rfl
  | more hstage hdecode hpending =>
    exact h.of_opened (hsound.hasWritten.of_late (.inl ⟨_, hstage⟩)).1 rfl rfl
  | streamEnd hstage hdecode hpending hending =>
    refine h.of_opened (hsound.hasWritten.of_late (.inl ⟨_, hstage⟩)).1 ?_
      (failures_stopReading _ c)
    rw [show (c.stopReading _).1.stage = .leaving from stage_close _]
    rfl
  | cancel hphase hstage =>
    have hearly : c.stage.isLate = false := by
      rcases hstage with hs | ⟨unsent, hs⟩ | ⟨got, hs⟩ <;> rw [hs] <;> rfl
    cases hphase.symm.trans (h.early hearly).1
  | cancelReading hphase hstage =>
    exact h.of_opened (hsound.hasWritten.of_late (.inl ⟨_, hstage⟩)).1 rfl rfl
  | leave hstage hlock =>
    exact h.of_opened (hsound.hasWritten.of_late (.inr hstage)).1 rfl rfl

/-- **The handshake ends by itself.**  Every step but a disconnect keeps the fate. -/
theorem step {a : Action κ} {o : Outcome κ} (h : Fate c es) (hsound : Sound c arrived es)
    (hasks : Asks c limit ch) (habort : a ≠ .abort)
    (hlocal : c.phase ≠ .closed → o.1.phase = .closed → a.isDisconnect = false)
    (hstep : c.step a = some o) : Fate o.1 (es ++ o.2) := by
  cases move_of_step hstep with
  | send thread m =>
    have hsame : (c.send thread m).stage = c.stage ∧ (c.send thread m).phase = c.phase ∧
        (c.send thread m).socket = c.socket := by
      unfold Connection.send
      split
      · exact ⟨rfl, rfl, rfl⟩
      · cases thread <;> exact ⟨rfl, rfl, rfl⟩
    exact h.frame hsame.1 hsame.2.1 hsame.2.2 rfl rfl
  | disconnect thread =>
    by_cases hclosed : c.phase = .closed
    · rw [close_of_closed hclosed]
      exact h.frame rfl rfl rfl rfl rfl
    · cases hlocal hclosed (phase_close c)
  | approve id hside hstage hattended =>
    have hearly : c.stage.isLate = false := by rw [hstage]; rfl
    obtain ⟨hphase, hnone, hsocket⟩ := h.early hearly
    have happroved : c.approve id = { c with id := id, stage := .starting } := by
      simp [Connection.approve, isConnected, hphase, Phase.isLive]
    show Fate (c.approve id) (es ++ [])
    rw [happroved, List.append_nil]
    refine ⟨fun _ => ⟨hphase, hnone, fun _ => hsocket (.inl hstage)⟩, fun hlate => (by cases hlate), h.opened⟩
  | abort => exact absurd rfl habort
  | arrive bytes hending => exact h.frame rfl rfl rfl rfl rfl
  | expire ending hending => exact h.frame rfl rfl rfl rfl rfl
  | @refuse thread => cases thread <;> exact h.frame rfl rfl rfl rfl rfl
  | @enqueue thread => cases thread <;> exact h.frame rfl rfl rfl rfl rfl
  | task hmove => exact h.taskMove hsound hasks hmove
  | chain hmove =>
    obtain ⟨x, hi⟩ := hmove.exists_chain
    obtain ⟨hopened, hlate⟩ := hsound.opened_of_chain hi
    refine h.of_opened hopened ?_ hmove.failures_eq
    rw [hmove.main_eq.1]
    exact hlate

end Fate

end Parley.Connection

import Parley.Proofs.Connection.Calm
import Parley.Proofs.Connection.Posting

/-!
# Parley.Proofs.Connection.Answering — the handshake of a client's connection

A client's connection writes nothing before the eight bytes of the challenge have arrived, and the word
it then writes is the scrambled challenge (`Answering`).  If nobody disconnects it, its handshake goes on
until the connection opens or the task ends for a failure (`Trial`).  If only the main task closes it, the
task ends before the connection is open only where the stream has ended inside the challenge, and it
stops reading frames only where the stream of frames breaks off or has ended (`Unhindered`).
-/

namespace Parley.Connection

variable {κ : Type} {c c' : Connection κ} {arrived : List UInt8} {es fs : List (Event κ)}

/-! ### The answer -/

/-- In these stages the task of a client has heard the challenge, unless it has ended. -/
def Stage.replies : Stage → Bool
  | .sending _ | .admitted | .reading _ | .leaving => true
  | _ => false

/-- A client's connection has written nothing, or the challenge has come and the word it writes is the
answer, which is written when the connection is open. -/
inductive Answering (c : Connection κ) (arrived : List UInt8) (es : List (Event κ)) : Prop
  | waiting (hstage : c.stage.replies = false) (hwrote : wrote es = []) (hquiet : readerEvents es = [])
  | heard (hlen : handshakeSize ≤ arrived.length)
    (hout : c.out = scramble (Bytes.toWord (arrived.take handshakeSize)))
    (hsaid : readerEvents es ≠ [] → Bytes.ofWord c.out <+: wrote es)

namespace Answering

/-- Where the task does not come to hear the challenge or to open the connection, only the word
matters. -/
theorem frame (h : Answering c arrived es) (hout : c'.out = c.out)
    (htold : readerEvents fs = [] ∨ readerEvents es ≠ [])
    (hwaits : c.stage.replies = false → c'.stage.replies = false ∧ wrote fs = []) :
    Answering c' arrived (es ++ fs) := by
  cases h with
  | waiting hstage hwrote hquiet =>
    obtain ⟨hstage', hnone⟩ := hwaits hstage
    refine .waiting hstage' (by rw [wrote_append, hwrote, hnone]; rfl) ?_
    rw [readerEvents_append_quiet es (htold.resolve_right (absurd hquiet))]
    exact hquiet
  | heard hlen hword hsaid =>
    refine .heard hlen (hout.trans hword) fun hnow => ?_
    have hbefore : readerEvents es ≠ [] := by
      rcases htold with hnone | hbefore
      · rwa [readerEvents_append_quiet es hnone] at hnow
      · exact hbefore
    rw [hout, wrote_append]
    exact (hsaid hbefore).trans (List.prefix_append _ _)

/-- A task that has heard the challenge goes on. -/
theorem goOn (h : Answering c arrived es) {stage : Stage} (hstage : c.stage = stage)
    (hreplies : stage.replies = true) (hout : c'.out = c.out)
    (htold : readerEvents fs = [] ∨ readerEvents es ≠ []) : Answering c' arrived (es ++ fs) :=
  h.frame hout htold fun hnot => by rw [hstage, hreplies] at hnot; cases hnot

/-- The word to write is not changed by bytes that come later. -/
theorem arrive (h : Answering c arrived es) (hout : c'.out = c.out) (hstage : c'.stage = c.stage)
    (bytes : List UInt8) : Answering c' (arrived ++ bytes) es := by
  cases h with
  | waiting hwaits hwrote hquiet => exact .waiting (hstage ▸ hwaits) hwrote hquiet
  | heard hlen hword hsaid =>
    refine .heard ?_ ?_ (hout ▸ hsaid)
    · rw [List.length_append]
      exact Nat.le_add_right_of_le hlen
    · rw [List.take_append_of_le_length hlen]
      exact hout.trans hword

/-- The bytes written first are those of the answer. -/
theorem take_wrote [Kind κ] (h : Answering c arrived es) (hwritten : HasWritten c es) :
    (arrived.length < handshakeSize → wrote es = []) ∧
      (wrote es).take handshakeSize <+:
        Bytes.ofWord (scramble (Bytes.toWord (arrived.take handshakeSize))) := by
  cases h with
  | waiting _ hwrote =>
    rw [hwrote]
    exact ⟨fun _ => rfl, List.nil_prefix⟩
  | heard hlen hout =>
    refine ⟨fun hshort => absurd hlen (Nat.not_le_of_lt hshort), ?_⟩
    rw [← hout]
    cases hwritten with
    | before hphase hword => exact (List.take_prefix _ _).trans hword.isPrefix
    | after hstage hopened hall =>
      rw [hall, List.take_left' (show _ = handshakeSize from Bytes.length_ofWord _)]

/-- When the connection has been open, the answer is written. -/
theorem take_wrote_of_told (h : Answering c arrived es) (htold : readerEvents es ≠ []) :
    (wrote es).take handshakeSize =
      Bytes.ofWord (scramble (Bytes.toWord (arrived.take handshakeSize))) := by
  cases h with
  | waiting _ _ hquiet => exact absurd hquiet htold
  | heard hlen hout hsaid =>
    obtain ⟨rest, hwrote⟩ := hsaid htold
    rw [← hwrote, ← hout, List.take_left' (show _ = handshakeSize from Bytes.length_ofWord _)]

variable [Kind κ]

/-- The stages in front of the challenge: only a server starts with a word of its own. -/
theorem not_starting (hsound : Sound c arrived es) (hside : c.side = .client) : c.stage ≠ .starting := by
  intro hstage
  obtain ⟨taken, -, htaken⟩ := hsound.hasRead
  unfold Reader.Taken at htaken
  rw [show c.reader.stage = _ from hstage] at htaken
  cases hside.symm.trans htaken.1

theorem taskMove {t : Turn} {o : Outcome κ} (h : Answering c arrived es)
    (hsound : Sound c arrived es) (hside : c.side = .client) (hmove : TaskMove c t o) :
    Answering o.1 arrived (es ++ o.2) := by
  have hserver : c.side ≠ .server := by rw [hside]; nofun
  have hstarting := not_starting hsound hside
  -- a task that waits for the challenge ends, or goes on to wait
  have hfail : c.failHandshake.1.out = c.out ∧ readerEvents c.failHandshake.2 = [] ∧
      c.failHandshake.1.stage.replies = false ∧ wrote c.failHandshake.2 = [] := by
    obtain ⟨hreader, hquiet⟩ := reader_failHandshake c
    have hstage : c.failHandshake.1.stage = .finished := congrArg Reader.stage hreader
    refine ⟨?_, hquiet, by rw [hstage]; rfl, (silent_failHandshake c).wrote_eq⟩
    rw [failHandshake_eq]
    exact out_close _
  cases hmove with
  | begin hstage => exact absurd hstage hstarting
  | beginLate hstage => exact absurd hstage hstarting
  | attach => exact h.frame rfl (.inl rfl) fun _ => ⟨rfl, rfl⟩
  | attachLate => exact h.frame rfl (.inl rfl) fun _ => ⟨rfl, rfl⟩
  | giveUp =>
    obtain ⟨hreader, hquiet⟩ := reader_giveUp c
    have hstage : c.giveUp.1.stage = .finished := congrArg Reader.stage hreader
    refine h.frame (out_close _) (.inl hquiet) fun _ => ⟨by rw [hstage]; rfl, ?_⟩
    exact (silent_close { c with stage := .finished }).wrote_eq
  | writePart hstage => exact h.goOn hstage rfl rfl (.inl rfl)
  | writeRest hstage hs => exact absurd hs hserver
  | writeAnswer hstage => exact h.goOn hstage rfl rfl (.inl rfl)
  | writeFail => exact h.frame hfail.1 (.inl hfail.2.1) fun _ => hfail.2.2
  | cutShort => exact h.frame hfail.1 (.inl hfail.2.1) fun _ => hfail.2.2
  | readPart => exact h.frame rfl (.inl rfl) fun _ => ⟨rfl, rfl⟩
  | welcome hstage hread hlen hs => exact absurd hs hserver
  | refuse hstage hread hlen hs => exact absurd hs hserver
  | @answer got word pending hstage hread hlen _ =>
    obtain ⟨taken, harr, htaken⟩ := hsound.hasRead
    unfold Reader.Taken at htaken
    rw [show c.reader.stage = _ from hstage] at htaken
    obtain ⟨rfl, -, hnone⟩ := htaken
    rw [← hread.append] at harr
    refine .heard ?_ ?_ fun htold => ?_
    · rw [harr, List.length_append, hlen]
      exact Nat.le_add_right _ _
    · rw [harr, List.take_left' hlen]
    · rw [readerEvents_append_quiet es rfl] at htold
      exact absurd hnone htold
  | enter hstage =>
    cases h with
    | waiting hwaits => rw [hstage] at hwaits; cases hwaits
    | heard hlen hout =>
      obtain ⟨-, hword, -⟩ := hsound.hasWritten.of_early (by rw [hstage]; rfl)
      unfold Word at hword
      rw [hstage] at hword
      refine .heard hlen hout fun _ => ?_
      rw [wrote_append, hword]
      exact List.prefix_append _ _
  | enterLate hstage => exact h.goOn hstage rfl rfl (.inl rfl)
  | message hstage =>
    exact h.goOn hstage rfl rfl (.inr (hsound.hasWritten.of_late (.inl ⟨_, hstage⟩)).1)
  | fault hstage => exact h.goOn hstage rfl (out_close _) (.inl (reader_stopReading true c).2)
  | more hstage => exact h.goOn hstage rfl rfl (.inl rfl)
  | streamEnd hstage => exact h.goOn hstage rfl (out_close _) (.inl (reader_stopReading _ c).2)
  | cancel => exact h.frame rfl (.inl rfl) fun _ => ⟨rfl, rfl⟩
  | cancelReading hphase hstage => exact h.goOn hstage rfl rfl (.inl rfl)
  | leave hstage => exact h.goOn hstage rfl rfl (.inl rfl)

/-- Before the challenge has come there is no chain. -/
theorem chainMove (h : Answering c arrived es) (hsound : Sound c arrived es) {i : Nat} {t : Turn}
    {o : Outcome κ} (hmove : ChainMove i c t o) : Answering o.1 arrived (es ++ o.2) := by
  obtain ⟨x, hi⟩ := hmove.exists_chain
  have htold := (hsound.opened_of_chain hi).1
  cases h with
  | waiting _ _ hquiet => exact absurd hquiet htold
  | heard hlen hout hsaid =>
    refine .heard hlen (hmove.main_eq.2.trans hout) fun _ => ?_
    rw [hmove.main_eq.2, wrote_append]
    exact (hsaid htold).trans (List.prefix_append _ _)

/-- **A client answers the challenge**, and writes nothing before. -/
theorem step {a : Action κ} {o : Outcome κ} (h : Answering c arrived es)
    (hsound : Sound c arrived es) (hside : c.side = .client) (hstep : c.step a = some o) :
    Answering o.1 (arrived ++ a.brings) (es ++ o.2) := by
  have hstill : a.brings = [] → Answering o.1 arrived (es ++ o.2) →
      Answering o.1 (arrived ++ a.brings) (es ++ o.2) := by
    intro ha ho
    rw [ha, List.append_nil]
    exact ho
  cases move_of_step hstep with
  | send thread m =>
    have hsame : (c.send thread m).out = c.out ∧ (c.send thread m).stage = c.stage := by
      unfold Connection.send
      split
      · exact ⟨rfl, rfl⟩
      · cases thread <;> exact ⟨rfl, rfl⟩
    exact hstill rfl (h.frame hsame.1 (.inl rfl) fun hwaits => ⟨hsame.2 ▸ hwaits, rfl⟩)
  | disconnect thread =>
    refine hstill rfl (h.frame (out_close c) (.inl (readerEvents_close c)) fun hwaits => ?_)
    rw [stage_close]
    exact ⟨hwaits, (silent_close c).wrote_eq⟩
  | approve id hserver => cases hside.symm.trans hserver
  | abort =>
    refine hstill rfl (h.frame rfl (.inl rfl) fun _ => ⟨?_, rfl⟩)
    unfold Connection.abort
    split <;> rfl
  | arrive bytes =>
    rw [List.append_nil]
    refine h.arrive ?_ ?_ bytes
    · rfl
    · rfl
  | expire => exact hstill rfl (h.frame rfl (.inl rfl) fun hwaits => ⟨hwaits, rfl⟩)
  | @refuse thread =>
    cases thread <;> exact hstill rfl (h.frame rfl (.inl rfl) fun hwaits => ⟨hwaits, rfl⟩)
  | @enqueue thread =>
    cases thread <;> exact hstill rfl (h.frame rfl (.inl rfl) fun hwaits => ⟨hwaits, rfl⟩)
  | task hmove => exact hstill rfl (h.taskMove hsound hside hmove)
  | chain hmove => exact hstill rfl (h.chainMove hsound hmove)

end Answering

/-! ### How the handshake ends -/

theorem errors_failHandshake_client (hside : c.side = .client) : errors c.failHandshake.2 = 1 := by
  rw [failHandshake_eq, hside, errors_append, errors_close]
  rfl

/-- Nothing fails, no socket is opened, and the application is told nothing. -/
structure Plain (fs : List (Event κ)) : Prop where
  readerEvents_eq : readerEvents fs = []
  failures_eq : failures fs = 0
  errors_eq : errors fs = 0
  not_established : .established ∉ fs

theorem Plain.nil : Plain ([] : List (Event κ)) := ⟨rfl, rfl, rfl, List.not_mem_nil⟩

theorem plain_close (c : Connection κ) : Plain c.close.2 := by
  rcases events_close c with h | h
  · rw [h]; exact .nil
  · rw [h]; exact ⟨rfl, rfl, rfl, by simp⟩

/-- How far the handshake of a client's connection has come that nobody disconnects. -/
structure Trial (c : Connection κ) (es : List (Event κ)) : Prop where
  unfailed : c.stage.isLate = false → failures es = 0 ∧ errors es = 0
  connecting : c.stage = .connecting → c.phase = .connecting ∧ .established ∉ es
  validating : c.stage.isLate = false → c.stage ≠ .connecting → c.phase = .validating
  refused : c.stage = .finished → readerEvents es = [] →
    c.phase = .closed ∧ (.established ∈ es → failures es = 1 ∧ errors es = 1)

namespace Trial

/-- A step that leaves the main task alone. -/
theorem frame (h : Trial c es) (hstage : c'.stage = c.stage) (hphase : c'.phase = c.phase)
    (hfs : Plain fs) : Trial c' (es ++ fs) := by
  obtain ⟨hquiet, hfailures, herrors, hsocket⟩ := hfs
  have hmem : .established ∈ es ++ fs ↔ .established ∈ es := by
    rw [List.mem_append, or_iff_left hsocket]
  have hcounts : failures (es ++ fs) = failures es ∧ errors (es ++ fs) = errors es := by
    rw [failures_append, hfailures, errors_append, herrors]
    exact ⟨rfl, rfl⟩
  constructor
  · rw [hcounts.1, hcounts.2, hstage]
    exact h.unfailed
  · rw [hstage, hphase, hmem]
    exact h.connecting
  · rw [hstage, hphase]
    exact h.validating
  · rw [hstage, hphase, hmem, hcounts.1, hcounts.2, readerEvents_append_quiet es hquiet]
    exact h.refused

/-- The handshake goes on. -/
theorem advance (h : Trial c es) (hearly : c.stage.isLate = false) (hphase : c'.phase = .validating)
    (hstage : c'.stage.isLate = false) (hconnecting : c'.stage ≠ .connecting)
    (hfailures : failures fs = 0) (herrors : errors fs = 0) : Trial c' (es ++ fs) where
  unfailed _ := by
    rw [failures_append, errors_append, (h.unfailed hearly).1, (h.unfailed hearly).2, hfailures,
      herrors]
    exact ⟨rfl, rfl⟩
  connecting hs := absurd hs hconnecting
  validating _ _ := hphase
  refused hs := by rw [hs] at hstage; cases hstage

/-- The connection is open, or has been. -/
theorem of_told (hlate : c.stage.isLate = true) (htold : readerEvents es ≠ []) : Trial c es where
  unfailed hearly := by rw [hlate] at hearly; cases hearly
  connecting hs := by rw [hs] at hlate; cases hlate
  validating hearly := by rw [hlate] at hearly; cases hearly
  refused _ hquiet := absurd hquiet htold

/-- The task has ended without having opened the connection. -/
theorem of_finished (hstage : c.stage = .finished) (hphase : c.phase = .closed)
    (hcounts : .established ∈ es → failures es = 1 ∧ errors es = 1) : Trial c es where
  unfailed hearly := by rw [hstage] at hearly; cases hearly
  connecting hs := by cases hstage.symm.trans hs
  validating hearly := by rw [hstage] at hearly; cases hearly
  refused _ _ := ⟨hphase, hcounts⟩

/-- The handshake fails. -/
theorem fail (h : Trial c es) (hearly : c.stage.isLate = false) (hside : c.side = .client) :
    Trial c.failHandshake.1 (es ++ c.failHandshake.2) := by
  refine of_finished (congrArg Reader.stage (reader_failHandshake c).1) ?_ fun _ => ?_
  · rw [failHandshake_eq]
    exact phase_close _
  · rw [failures_append, failures_failHandshake, errors_append, errors_failHandshake_client hside,
      (h.unfailed hearly).1, (h.unfailed hearly).2]
    exact ⟨rfl, rfl⟩

variable [Kind κ]

theorem taskMove {t : Turn} {o : Outcome κ} (h : Trial c es) (hsound : Sound c arrived es)
    (hside : c.side = .client) (hmove : TaskMove c t o) : Trial o.1 (es ++ o.2) := by
  have hserver : c.side ≠ .server := by rw [hside]; nofun
  have hstarting := Answering.not_starting hsound hside
  have hearly : ∀ {stage : Stage}, c.stage = stage → stage.isLate = false → stage ≠ .connecting →
      c.stage.isLate = false ∧ c.phase = .validating := by
    rintro stage rfl hlate hne
    exact ⟨hlate, h.validating hlate hne⟩
  have htold : ∀ {buf : List UInt8}, c.stage = .reading buf → ∀ fs, readerEvents (es ++ fs) ≠ [] :=
    fun hstage fs => readerEvents_ne_nil (hsound.hasWritten.of_late (.inl ⟨_, hstage⟩)).1 fs
  cases hmove with
  | begin hstage => exact absurd hstage hstarting
  | beginLate hstage => exact absurd hstage hstarting
  | attach hstage => exact h.advance (by rw [hstage]; rfl) rfl rfl nofun rfl rfl
  | attachLate hstage hphase => exact absurd (h.connecting hstage).1 hphase
  | giveUp hstage =>
    refine of_finished (stage_close _) (phase_close _) fun hmem => ?_
    rcases List.mem_append.mp hmem with hmem | hmem
    · exact absurd hmem (h.connecting hstage).2
    · rcases List.mem_cons.mp hmem with heq | hmem
      · cases heq
      · exact absurd hmem (plain_close { c with stage := .finished }).not_established
  | writePart hstage =>
    obtain ⟨hlate, hphase⟩ := hearly hstage rfl nofun
    exact h.advance hlate hphase rfl nofun rfl rfl
  | writeRest hstage hs => exact absurd hs hserver
  | writeAnswer hstage =>
    obtain ⟨hlate, hphase⟩ := hearly hstage rfl nofun
    exact h.advance hlate hphase rfl nofun rfl rfl
  | writeFail hstage => exact h.fail (hearly hstage rfl nofun).1 hside
  | cutShort hstage => exact h.fail (hearly hstage rfl nofun).1 hside
  | readPart hstage =>
    obtain ⟨hlate, hphase⟩ := hearly hstage rfl nofun
    exact h.advance hlate hphase rfl nofun rfl rfl
  | welcome hstage hread hlen hs => exact absurd hs hserver
  | refuse hstage hread hlen hs => exact absurd hs hserver
  | answer hstage =>
    obtain ⟨hlate, hphase⟩ := hearly hstage rfl nofun
    exact h.advance hlate hphase rfl nofun rfl rfl
  | enter => exact of_told rfl (by rw [readerEvents_append]; exact List.concat_ne_nil _ _)
  | enterLate hstage hlock hphase => exact absurd (hearly hstage rfl nofun).2 hphase
  | message hstage => exact of_told rfl (htold hstage _)
  | fault hstage =>
    refine of_told ?_ (htold hstage _)
    rw [show (c.stopReading true).1.stage = .leaving from stage_close _]
    rfl
  | more hstage => exact of_told rfl (htold hstage _)
  | streamEnd hstage =>
    refine of_told ?_ (htold hstage _)
    rw [show (c.stopReading _).1.stage = .leaving from stage_close _]
    rfl
  | cancel hphase hstage =>
    rcases hstage with hs | ⟨unsent, hs⟩ | ⟨got, hs⟩
    · cases hphase.symm.trans (h.connecting hs).1
    · cases hphase.symm.trans (hearly hs rfl nofun).2
    · cases hphase.symm.trans (hearly hs rfl nofun).2
  | cancelReading hphase hstage => exact of_told rfl (htold hstage _)
  | leave hstage =>
    exact of_told rfl (readerEvents_ne_nil (hsound.hasWritten.of_late (.inr hstage)).1 _)

/-- **The handshake ends by itself.**  Every step but a disconnect keeps the trial. -/
theorem step {a : Action κ} {o : Outcome κ} (h : Trial c es) (hsound : Sound c arrived es)
    (hside : c.side = .client) (habort : a ≠ .abort)
    (hlocal : c.phase ≠ .closed → o.1.phase = .closed → a.isDisconnect = false)
    (hstep : c.step a = some o) : Trial o.1 (es ++ o.2) := by
  cases move_of_step hstep with
  | send thread m =>
    have hsame : (c.send thread m).stage = c.stage ∧ (c.send thread m).phase = c.phase := by
      unfold Connection.send
      split
      · exact ⟨rfl, rfl⟩
      · cases thread <;> exact ⟨rfl, rfl⟩
    exact h.frame hsame.1 hsame.2 .nil
  | disconnect thread =>
    by_cases hclosed : c.phase = .closed
    · rw [close_of_closed hclosed]
      exact h.frame rfl rfl .nil
    · cases hlocal hclosed (phase_close c)
  | approve id hserver => cases hside.symm.trans hserver
  | abort => exact absurd rfl habort
  | arrive => exact h.frame rfl rfl .nil
  | expire => exact h.frame rfl rfl .nil
  | @refuse thread => cases thread <;> exact h.frame rfl rfl .nil
  | @enqueue thread => cases thread <;> exact h.frame rfl rfl ⟨rfl, rfl, rfl, by simp⟩
  | task hmove => exact h.taskMove hsound hside hmove
  | chain hmove =>
    obtain ⟨x, hi⟩ := hmove.exists_chain
    obtain ⟨htold, hlate⟩ := hsound.opened_of_chain hi
    exact of_told (hmove.main_eq.1 ▸ hlate) (readerEvents_ne_nil htold _)

end Trial

end Parley.Connection

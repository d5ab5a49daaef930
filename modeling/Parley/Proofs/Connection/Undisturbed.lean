import Parley.Proofs.Connection.Fate

/-!
# Parley.Proofs.Connection.Undisturbed — a server's connection left to itself

If only the main task closes a server's connection, and not because it could not write, then what has
arrived decides everything: the task ends without having opened the connection only if the right
answer did not come or can no longer come (`Hopeless`), and it stops reading frames only where the
stream of frames breaks off or has ended (`Complete`).
-/

namespace Parley.Connection

variable {κ : Type} {c c' : Connection κ} {arrived : List UInt8} {es fs : List (Event κ)}

/-- The answer is wrong, or the stream has ended inside it. -/
def Hopeless (c : Connection κ) (arrived : List UInt8) : Prop :=
  (arrived.length < handshakeSize ∧ c.inlet.ending ≠ none) ∨
    (handshakeSize ≤ arrived.length ∧ arrived.take handshakeSize ≠ Bytes.ofWord c.expected)

theorem Hopeless.frame (h : Hopeless c arrived) (hexpected : c'.expected = c.expected)
    (hending : c.inlet.ending ≠ none → c'.inlet.ending ≠ none) : Hopeless c' arrived := by
  refine h.imp (fun ⟨hlen, he⟩ => ⟨hlen, hending he⟩) fun ⟨hlen, hne⟩ => ⟨hlen, ?_⟩
  rw [hexpected]
  exact hne

theorem Hopeless.arrive (h : Hopeless c arrived) (hexpected : c'.expected = c.expected)
    (hnone : c.inlet.ending = none) (bytes : List UInt8) : Hopeless c' (arrived ++ bytes) := by
  rcases h with ⟨-, hended⟩ | ⟨hlen, hne⟩
  · exact absurd hnone hended
  · refine .inr ⟨?_, ?_⟩
    · rw [List.length_append]
      omega
    · rw [List.take_append_of_le_length hlen, hexpected]
      exact hne

variable [Kind κ] {limit : Nat} {ch : Challenge}

/-- The messages told are all there are: the stream of frames breaks off behind them, or it has
ended. -/
def Complete (c : Connection κ) (arrived : List UInt8) (es : List (Event κ)) : Prop :=
  ∃ word body buf ms, arrived = Bytes.ofWord word ++ body ∧
    readerEvents es = .opened :: ms.map .received ∧ Frame.Reads c.limit body ms buf ∧
    ((∃ e, (Frame.decode c.limit buf : Frame.Answer κ) = .error e) ∨
      ((Frame.decode c.limit buf : Frame.Answer κ) = .ok none ∧ c.inlet.ending ≠ none))

/-- A server's connection that only its main task closes. -/
structure Undisturbed (c : Connection κ) (arrived : List UInt8) (es : List (Event κ)) : Prop where
  reading : ∀ buf, c.stage = .reading buf → c.phase = .opened
  complete : c.stage = .leaving ∨ (c.stage = .finished ∧ readerEvents es ≠ []) →
    Complete c arrived es
  hopeless : c.stage = .finished → readerEvents es = [] → Hopeless c arrived

/-- What is complete are the messages of the whole stream behind the word. -/
theorem Complete.readerEvents_eq (h : Complete c arrived es) :
    readerEvents es = .opened ::
      (Frame.drain c.limit (arrived.drop handshakeSize)).messages.map .received := by
  obtain ⟨word, body, buf, ms, rfl, hevents, hreads, hend⟩ := h
  have hrest : (Frame.drain c.limit buf : Frame.Drained κ).messages = [] := by
    rcases hend with ⟨e, hfault⟩ | ⟨hnone, -⟩
    · rw [Frame.drain_of_fault hfault]
    · rw [Frame.drain_of_none hnone]
  have hdrop : (Bytes.ofWord word ++ body).drop handshakeSize = body :=
    List.drop_left' (Bytes.length_ofWord _)
  rw [hevents, hdrop, hreads.drain_eq, Frame.Drained.messages_after, hrest, List.append_nil]

/-- Only the limit and the end of the stream matter. -/
theorem Complete.frame (h : Complete c arrived es) (hlimit : c'.limit = c.limit)
    (hending : c.inlet.ending ≠ none → c'.inlet.ending ≠ none) (hquiet : readerEvents fs = []) :
    Complete c' arrived (es ++ fs) := by
  obtain ⟨word, body, buf, ms, harr, hevents, hreads, hend⟩ := h
  refine ⟨word, body, buf, ms, harr, ?_, ?_, ?_⟩
  · rw [readerEvents_append_quiet es hquiet]
    exact hevents
  · rw [hlimit]
    exact hreads
  · rw [hlimit]
    exact hend.imp_right fun ⟨hnone, he⟩ => ⟨hnone, hending he⟩

/-- More bytes change nothing behind a bad frame. -/
theorem Complete.arrive (h : Complete c arrived es) (hlimit : c'.limit = c.limit)
    (hnone : c.inlet.ending = none) (bytes : List UInt8) : Complete c' (arrived ++ bytes) es := by
  obtain ⟨word, body, buf, ms, rfl, hevents, hreads, ⟨e, hfault⟩ | ⟨-, hended⟩⟩ := h
  · refine ⟨word, body ++ bytes, buf ++ bytes, ms, ?_, hevents, ?_, .inl ⟨e, ?_⟩⟩
    · rw [List.append_assoc]
    · rw [hlimit]
      exact hreads.extend bytes
    · rw [hlimit]
      exact Frame.decode_append_of_fault hfault bytes
  · exact absurd hnone hended

/-! ### The main task -/

namespace Undisturbed

/-- A step that leaves the main task alone. -/
theorem frame (h : Undisturbed c arrived es) (hstage : c'.stage = c.stage)
    (hphase : c'.phase = c.phase) (hlimit : c'.limit = c.limit)
    (hexpected : c'.expected = c.expected)
    (hending : c.inlet.ending ≠ none → c'.inlet.ending ≠ none) (hquiet : readerEvents fs = []) :
    Undisturbed c' arrived (es ++ fs) where
  reading buf hreading := by
    rw [hphase]
    exact h.reading buf (hstage.symm.trans hreading)
  complete hend := by
    rw [hstage, readerEvents_append_quiet es hquiet] at hend
    exact (h.complete hend).frame hlimit hending hquiet
  hopeless hfinished hnone := by
    rw [readerEvents_append_quiet es hquiet] at hnone
    exact (h.hopeless (hstage.symm.trans hfinished) hnone).frame hexpected hending

/-- Where the handshake is not over, nothing is claimed. -/
theorem of_early (h : c.stage.isLate = false) : Undisturbed c arrived es where
  reading buf hreading := by rw [hreading] at h; cases h
  complete hend := by
    rcases hend with hleaving | ⟨hfinished, -⟩
    · rw [hleaving] at h; cases h
    · rw [hfinished] at h; cases h
  hopeless hfinished := by rw [hfinished] at h; cases h

/-- The handshake has failed for good. -/
theorem of_hopeless {k : Connection κ} (hnone : readerEvents es = [])
    (h : Hopeless k.failHandshake.1 arrived) :
    Undisturbed k.failHandshake.1 arrived (es ++ k.failHandshake.2) := by
  obtain ⟨hreader, hquiet⟩ := reader_failHandshake k
  have hstage : k.failHandshake.1.stage = .finished := congrArg Reader.stage hreader
  refine ⟨fun buf hreading => ?_, fun hend => ?_, fun _ _ => h⟩
  · cases hstage.symm.trans hreading
  · rcases hend with hleaving | ⟨-, hopened⟩
    · cases hstage.symm.trans hleaving
    · rw [readerEvents_append_quiet es hquiet] at hopened
      exact absurd hnone hopened

/-- Reading stops at the end of the frames. -/
theorem of_complete (hstage : c'.stage = .leaving) (h : Complete c' arrived es) :
    Undisturbed c' arrived es where
  reading buf hreading := by cases hstage.symm.trans hreading
  complete _ := h
  hopeless hfinished := by cases hstage.symm.trans hfinished

/-- Where the task is reading frames: what has arrived, and what is left of it. -/
theorem framed_of_reading {buf : List UInt8} (h : HasRead c arrived es)
    (hstage : c.stage = .reading buf) :
    ∃ body ms, arrived = Bytes.ofWord c.heard ++ (body ++ c.inlet.pending) ∧
      readerEvents es = .opened :: ms.map .received ∧ Frame.Reads c.limit body ms buf := by
  obtain ⟨taken, harr, htaken⟩ := h
  unfold Reader.Taken at htaken
  rw [show c.reader.stage = _ from hstage] at htaken
  obtain ⟨-, body, ms, htaken, hevents, hreads⟩ := htaken
  refine ⟨body, ms, ?_, hevents, hreads⟩
  rw [harr, htaken, List.append_assoc]
  rfl

/-- A task that waits for more of a frame has told the application of all messages that are complete. -/
theorem readerEvents_of_waiting {buf : List UInt8} (h : HasRead c arrived es)
    (hstage : c.stage = .reading buf)
    (hdecode : (Frame.decode c.limit buf : Frame.Answer κ) = .ok none)
    (hpending : c.inlet.pending = []) :
    readerEvents es = .opened ::
      (Frame.drain c.limit (arrived.drop handshakeSize)).messages.map .received := by
  obtain ⟨body, ms, harr, hevents, hreads⟩ := framed_of_reading h hstage
  rw [hpending, List.append_nil] at harr
  have hdrop : arrived.drop handshakeSize = body := by
    rw [harr]
    exact List.drop_left' (Bytes.length_ofWord _)
  rw [hevents, hdrop, hreads.drain_eq, Frame.Drained.messages_after, Frame.drain_of_none hdecode,
    List.append_nil]

/-- Reading stops at a bad frame. -/
theorem complete_of_fault {buf : List UInt8} {e : Fault} (h : HasRead c arrived es)
    (hstage : c.stage = .reading buf)
    (hdecode : (Frame.decode c.limit buf : Frame.Answer κ) = .error e) :
    Complete (c.stopReading true).1 arrived (es ++ (c.stopReading true).2) := by
  obtain ⟨body, ms, harr, hevents, hreads⟩ := framed_of_reading h hstage
  obtain ⟨hreader, hnone⟩ := reader_stopReading true c
  have hlimit : (c.stopReading true).1.limit = c.limit := congrArg Reader.limit hreader
  refine ⟨c.heard, _, buf ++ c.inlet.pending, ms, harr, ?_, ?_, .inl ⟨e, ?_⟩⟩
  · rw [readerEvents_append_quiet es hnone]
    exact hevents
  · rw [hlimit]
    exact hreads.extend c.inlet.pending
  · rw [hlimit]
    exact Frame.decode_append_of_fault hdecode _

/-- Reading stops where the stream has ended. -/
theorem complete_of_streamEnd {buf : List UInt8} (h : HasRead c arrived es)
    (hstage : c.stage = .reading buf)
    (hdecode : (Frame.decode c.limit buf : Frame.Answer κ) = .ok none)
    (hpending : c.inlet.pending = []) (hended : c.inlet.ending ≠ none) (errored : Bool) :
    Complete (c.stopReading errored).1 arrived (es ++ (c.stopReading errored).2) := by
  obtain ⟨body, ms, harr, hevents, hreads⟩ := framed_of_reading h hstage
  obtain ⟨hreader, hnone⟩ := reader_stopReading errored c
  have hlimit : (c.stopReading errored).1.limit = c.limit := congrArg Reader.limit hreader
  have hending : (c.stopReading errored).1.inlet.ending = c.inlet.ending :=
    congrArg Reader.ending hreader
  rw [hpending, List.append_nil] at harr
  refine ⟨c.heard, body, buf, ms, harr, ?_, ?_, .inr ⟨?_, ?_⟩⟩
  · rw [readerEvents_append_quiet es hnone]
    exact hevents
  · rw [hlimit]
    exact hreads
  · rw [hlimit]
    exact hdecode
  · rw [hending]
    exact hended

theorem taskMove {t : Turn} {o : Outcome κ} (h : Undisturbed c arrived es)
    (hsound : Sound c arrived es) (hasks : Asks c limit ch) (hfate : Fate c es)
    (hlocal : c.phase ≠ .closed → o.1.phase = .closed → t = .ready) (hmove : TaskMove c t o) :
    Undisturbed o.1 arrived (es ++ o.2) := by
  have hclient : c.side ≠ .client := by rw [hasks.side_eq]; nofun
  have hconnecting : c.stage ≠ .connecting := fun hs => hclient (hsound.orderly.connecting hs)
  have hearly : ∀ {stage : Stage}, c.stage = stage → stage.isLate = false →
      c.stage.isLate = false := by
    rintro stage rfl hlate
    exact hlate
  have hquiet : ∀ {stage : Stage}, c.stage = stage → stage.isLate = false → readerEvents es = [] :=
    fun hstage hlate => hsound.quiet_of_early (hearly hstage hlate)
  have hvalidating : ∀ {stage : Stage}, c.stage = stage → stage.isLate = false →
      c.phase = .validating :=
    fun hstage hlate => (hfate.early (hearly hstage hlate)).1
  cases hmove with
  | begin hstage hsocket => exact of_early rfl
  | beginLate hstage hsocket =>
    cases hsocket.symm.trans ((hfate.early (hearly hstage rfl)).2.2 (.inr hstage))
  | attach hstage hphase => exact absurd hstage hconnecting
  | attachLate hstage hphase => exact absurd hstage hconnecting
  | giveUp hstage => exact absurd hstage hconnecting
  | writePart hstage hn hlt => exact of_early rfl
  | writeRest hstage hside => exact of_early rfl
  | writeAnswer hstage hside => exact absurd hside hclient
  | writeFail hstage =>
    have hopen : c.phase ≠ .closed := by rw [hvalidating hstage rfl]; nofun
    cases hlocal hopen (by rw [failHandshake_eq]; exact phase_close _)
  | @cutShort got hstage hpending hending =>
    refine of_hopeless (hquiet hstage rfl) (.inl ⟨?_, ?_⟩)
    · obtain ⟨taken, harr, htaken⟩ := hsound.hasRead
      unfold Reader.Taken at htaken
      rw [show c.reader.stage = _ from hstage] at htaken
      obtain ⟨rfl, hlen, -⟩ := htaken
      rw [harr, hpending, List.append_nil]
      exact hlen
    · have hsame : c.failHandshake.1.inlet.ending = c.inlet.ending :=
        congrArg Terms.ending (terms_failHandshake c)
      rw [hsame]
      exact hending
  | readPart hstage hread hlen => exact of_early rfl
  | welcome hstage hread hlen hside hword => exact of_early rfl
  | @refuse got word pending hstage hread hlen hside hword =>
    refine of_hopeless (hquiet hstage rfl) (.inr ?_)
    obtain ⟨taken, harr, htaken⟩ := hsound.hasRead
    unfold Reader.Taken at htaken
    rw [show c.reader.stage = _ from hstage] at htaken
    obtain ⟨rfl, -, -⟩ := htaken
    have hexpected := congrArg Terms.expected (terms_failHandshake
      { c with inlet := { c.inlet with pending := pending }, heard := Bytes.toWord word })
    rw [show Connection.expected _ = c.expected from hexpected, harr, ← hread.append]
    refine ⟨?_, ?_⟩
    · rw [List.length_append]
      omega
    · rw [List.take_left' hlen]
      intro heq
      exact hword (by rw [heq, Bytes.toWord_ofWord])
  | answer hstage hread hlen hside => exact absurd hside hclient
  | enter hstage hlock hphase =>
    exact ⟨fun _ _ => rfl, fun hend => (by rcases hend with h | ⟨h, -⟩ <;> cases h), nofun⟩
  | enterLate hstage hlock hphase => exact absurd (hvalidating hstage rfl) hphase
  | message hstage hdecode =>
    exact ⟨fun _ _ => h.reading _ hstage, fun hend => (by rcases hend with h | ⟨h, -⟩ <;> cases h),
      nofun⟩
  | fault hstage hdecode =>
    exact of_complete (congrArg Reader.stage (reader_stopReading true c).1)
      (complete_of_fault hsound.hasRead hstage hdecode)
  | more hstage hdecode hpending =>
    exact ⟨fun _ _ => h.reading _ hstage, fun hend => (by rcases hend with h | ⟨h, -⟩ <;> cases h),
      nofun⟩
  | streamEnd hstage hdecode hpending hending =>
    exact of_complete (congrArg Reader.stage (reader_stopReading _ c).1)
      (complete_of_streamEnd hsound.hasRead hstage hdecode hpending (by rw [hending]; nofun) _)
  | cancel hphase hstage =>
    have hlate : c.stage.isLate = false := by
      rcases hstage with hs | ⟨unsent, hs⟩ | ⟨got, hs⟩ <;> rw [hs] <;> rfl
    cases hphase.symm.trans (hfate.early hlate).1
  | cancelReading hphase hstage => cases hphase.symm.trans (h.reading _ hstage)
  | leave hstage hlock =>
    have hcomplete := h.complete (.inl hstage)
    rw [List.append_nil]
    refine ⟨nofun, fun _ => hcomplete, fun _ hnone => ?_⟩
    rw [hcomplete.readerEvents_eq] at hnone
    cases hnone

theorem step {a : Action κ} {o : Outcome κ} (h : Undisturbed c arrived es)
    (hsound : Sound c arrived es) (hasks : Asks c limit ch) (hfate : Fate c es) (habort : a ≠ .abort)
    (hlocal : c.phase ≠ .closed → o.1.phase = .closed → a = .turn .ready)
    (hstep : c.step a = some o) : Undisturbed o.1 (arrived ++ a.brings) (es ++ o.2) := by
  have hstill : a.brings = [] → Undisturbed o.1 arrived (es ++ o.2) →
      Undisturbed o.1 (arrived ++ a.brings) (es ++ o.2) := by
    intro ha ho
    rw [ha, List.append_nil]
    exact ho
  have hmove := move_of_step hstep
  cases hmove with
  | send thread m =>
    have hsame : (c.send thread m).stage = c.stage ∧ (c.send thread m).phase = c.phase ∧
        (c.send thread m).limit = c.limit ∧ (c.send thread m).expected = c.expected ∧
        (c.send thread m).inlet = c.inlet := by
      unfold Connection.send
      split
      · exact ⟨rfl, rfl, rfl, rfl, rfl⟩
      · cases thread <;> exact ⟨rfl, rfl, rfl, rfl, rfl⟩
    obtain ⟨hstage, hphase, hlimit, hexpected, hinlet⟩ := hsame
    exact hstill rfl (h.frame hstage hphase hlimit hexpected (by rw [hinlet]; exact (·)) rfl)
  | disconnect thread =>
    by_cases hclosed : c.phase = .closed
    · refine hstill rfl ?_
      rw [close_of_closed hclosed]
      exact h.frame rfl rfl rfl rfl (·) rfl
    · cases hlocal hclosed (phase_close c)
  | approve id hside hstage hattended =>
    have hearly : c.stage.isLate = false := by rw [hstage]; rfl
    refine hstill rfl (of_early ?_)
    show (c.approve id).stage.isLate = false
    unfold Connection.approve
    split
    · rfl
    · exact hearly
  | abort => exact absurd rfl habort
  | arrive bytes hending =>
    rw [List.append_nil]
    refine ⟨h.reading, fun hend => ?_, fun hfinished hnone => ?_⟩
    · exact (h.complete hend).arrive rfl hending bytes
    · exact (h.hopeless hfinished hnone).arrive rfl hending bytes
  | expire ending hending => exact hstill rfl (h.frame rfl rfl rfl rfl (fun _ => nofun) rfl)
  | @refuse thread => cases thread <;> exact hstill rfl (h.frame rfl rfl rfl rfl (·) rfl)
  | @enqueue thread => cases thread <;> exact hstill rfl (h.frame rfl rfl rfl rfl (·) rfl)
  | @task t o hmove =>
    refine hstill rfl (h.taskMove hsound hasks hfate (fun hopen hclosed => ?_) hmove)
    have := hlocal hopen hclosed
    cases this
    rfl
  | @chain i t o hmove =>
    obtain ⟨hreader, hquiet⟩ := hmove.reader_eq
    have hterms := hmove.terms_eq
    have hphase : o.1.phase = c.phase := by
      rcases hmove.phase_eq with hsame | hclosed
      · exact hsame
      · by_cases hopen : c.phase = .closed
        · exact hclosed.trans hopen.symm
        · cases hlocal hopen hclosed
    refine hstill rfl (h.frame hmove.main_eq.1 hphase (congrArg Terms.limit hterms)
      (congrArg Terms.expected hterms) ?_ hquiet)
    rw [show o.1.inlet.ending = c.inlet.ending from congrArg Terms.ending hterms]
    exact (·)

end Undisturbed

end Parley.Connection

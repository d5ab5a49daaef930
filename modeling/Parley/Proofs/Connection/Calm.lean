import Parley.Proofs.Connection.Gate
import Parley.Proofs.Connection.Tally

/-!
# Parley.Proofs.Connection.Calm — a connection that nobody sends on or disconnects

On a server's connection that the application leaves alone until it is closed, only the main task
does anything.  So it stops reading for one reason only: what arrived behind the handshake breaks off
or ends.  The bytes and the way in which the stream ended say whether it stops and whether this counts
as an error (`verdict`), and whatever was complete before has been read (`Judged`, `Calm`).
-/

namespace Parley

namespace Frame

variable {κ : Type} [Kind κ] {limit : Nat}

/-- Behind a bad frame nothing is taken any more. -/
theorem drain_append_of_fault {buf : List UInt8} {e : Fault}
    (h : (drain limit buf : Drained κ).fault = some e) (more : List UInt8) :
    (drain limit (buf ++ more) : Drained κ).messages = (drain limit buf : Drained κ).messages ∧
      (drain limit (buf ++ more) : Drained κ).fault = some e := by
  have hrest := decode_rest_drain (κ := κ) limit buf
  rw [h] at hrest
  rw [drain_append, drain_of_fault (decode_append_of_fault hrest more)]
  exact ⟨List.append_nil _, rfl⟩

/-- A frame is bad for an unknown tag or a length over the limit, and for nothing else. -/
theorem fault_drain {buf : List UInt8} {e : Fault}
    (h : (drain limit buf : Drained κ).fault = some e) :
    (∃ word, e = .unknownTag word) ∨ ∃ size, limit < size ∧ e = .oversized size := by
  have hrest := decode_rest_drain (κ := κ) limit buf
  rw [h] at hrest
  have hdecoded := decoded_decode (κ := κ) limit (drain limit buf : Drained κ).rest
  rw [hrest] at hdecoded
  generalize (drain limit buf : Drained κ).rest = rest at hdecoded
  cases hdecoded with
  | unknown => exact .inl ⟨_, rfl⟩
  | oversized => exact .inr ⟨_, by assumption, rfl⟩

end Frame

namespace Connection

variable {κ : Type} {c c' : Connection κ} {arrived : List UInt8} {es fs : List (Event κ)}

/-! ### Errors -/

/-- How often something failed. -/
def errors (es : List (Event κ)) : Nat := countOf .errored es

@[simp] theorem errors_append (es fs : List (Event κ)) : errors (es ++ fs) = errors es + errors fs :=
  countOf_append _ es fs

/-- What fails nowhere adds no errors. -/
theorem errors_append_quiet (es : List (Event κ)) {fs : List (Event κ)} (h : errors fs = 0) :
    errors (es ++ fs) = errors es := by
  rw [errors_append, h, Nat.add_zero]

@[simp] theorem errors_close (c : Connection κ) : errors c.close.2 = 0 := by
  rcases events_close c with h | h
  · rw [h]; rfl
  · rw [h]; rfl

theorem errors_stopReading (errored : Bool) (c : Connection κ) :
    errors (c.stopReading errored).2 = errored.toNat := by
  have hclose := errors_close { c with stage := .leaving }
  cases errored with
  | false => exact hclose
  | true => exact (countOf_append .errored [.errored] _).trans (congrArg (1 + ·) hclose)

/-! ### Nothing to write -/

/-- Nothing is posted, queued or being written. -/
structure Mute (c : Connection κ) : Prop where
  posted_eq : c.posted = []
  postedByHooks_eq : c.postedByHooks = []
  chains_eq : c.chains = []
  outbound_eq : c.outbound.toList = []

namespace Mute

theorem close (h : Mute c) : Mute c.close.1 := by
  refine ⟨(posted_close c).trans h.posted_eq, (postedByHooks_close c).trans h.postedByHooks_eq,
    (chains_close c).trans h.chains_eq, ?_⟩
  rcases close_cases c with ⟨-, hsame⟩ | ⟨-, hshut, -⟩
  · rw [hsame]
    exact h.outbound_eq
  · rw [hshut]
    rfl

theorem atStage (h : Mute c) (stage : Stage) : Mute { c with stage := stage } :=
  ⟨h.posted_eq, h.postedByHooks_eq, h.chains_eq, h.outbound_eq⟩

theorem failHandshake (h : Mute c) : Mute c.failHandshake.1 := by
  rw [failHandshake_eq]
  exact (h.atStage .finished).close

theorem stopReading (h : Mute c) (errored : Bool) : Mute (c.stopReading errored).1 :=
  (h.atStage .leaving).close

theorem postedBy_eq (h : Mute c) (thread : Thread) : c.postedBy thread = [] := by
  cases thread with
  | application => exact h.posted_eq
  | reactor => exact h.postedByHooks_eq

variable [Kind κ]

theorem taskMove {t : Turn} {o : Outcome κ} (h : Mute c) (hmove : TaskMove c t o) :
    Mute o.1 := by
  have ⟨hposted, hhooks, hchains, houtbound⟩ := h
  cases hmove with
  | giveUp => exact (h.atStage .finished).close
  | writeFail => exact h.failHandshake
  | cutShort => exact h.failHandshake
  | refuse => exact failHandshake ⟨hposted, hhooks, hchains, houtbound⟩
  | fault => exact h.stopReading true
  | streamEnd => exact h.stopReading _
  | enter =>
    refine ⟨hposted, hhooks, ?_, houtbound⟩
    dsimp only
    rw [if_pos ((Deque.isEmpty_iff _).mpr houtbound), hchains]
  | _ => exact ⟨hposted, hhooks, hchains, houtbound⟩

/-- Where nothing is to be written, no chain runs. -/
theorem not_chainMove {i : Nat} {t : Turn} {o : Outcome κ} (h : Mute c) : ¬ChainMove i c t o := by
  intro hmove
  cases hmove <;> simp [h.chains_eq] at *

end Mute

/-! ### Why reading stops -/

variable [Kind κ]

/-- Whether reading stops behind the handshake, where the bytes `body` have arrived and the stream has
ended like this: not yet, without an error, or with one. -/
def verdict (κ : Type) [Kind κ] (limit : Nat) (body : List UInt8) (ending : Option Ending) :
    Option Bool :=
  match (Frame.drain limit body : Frame.Drained κ).fault with
  | some _ => some true
  | none =>
    ending.map fun e => e == .broken || !(Frame.drain limit body : Frame.Drained κ).rest.isEmpty

section Verdict

variable {limit : Nat} {body : List UInt8} {ending : Option Ending}

theorem verdict_of_fault {e : Fault} (h : (Frame.drain limit body : Frame.Drained κ).fault = some e) :
    verdict κ limit body ending = some true := by
  rw [verdict, h]

theorem verdict_of_rest (h : (Frame.drain limit body : Frame.Drained κ).fault = none) :
    verdict κ limit body ending = ending.map fun e =>
      e == .broken || !(Frame.drain limit body : Frame.Drained κ).rest.isEmpty := by
  rw [verdict, h]

/-- Where reading stops before the stream has ended, more bytes and the end change nothing. -/
theorem verdict_append {failed : Bool} (h : verdict κ limit body none = some failed)
    (more : List UInt8) (ending : Option Ending) :
    verdict κ limit (body ++ more) ending = some failed ∧
      (Frame.drain limit (body ++ more) : Frame.Drained κ).messages =
        (Frame.drain limit body : Frame.Drained κ).messages := by
  cases hfault : (Frame.drain limit body : Frame.Drained κ).fault with
  | none =>
    rw [verdict_of_rest hfault] at h
    cases h
  | some e =>
    rw [verdict_of_fault hfault] at h
    obtain ⟨hmessages, hfault'⟩ := Frame.drain_append_of_fault hfault more
    exact ⟨(verdict_of_fault hfault').trans h, hmessages⟩

end Verdict

/-- Everything complete has been read of what arrived, and reading has stopped as what arrived says. -/
structure Judged (c : Connection κ) (arrived : List UInt8) (es : List (Event κ)) : Prop where
  length_le : handshakeSize ≤ arrived.length
  readerEvents_eq : readerEvents es = .opened ::
    (Frame.drain c.limit (arrived.drop handshakeSize)).messages.map .received
  verdict_eq : ∃ failed,
    verdict κ c.limit (arrived.drop handshakeSize) c.inlet.ending = some failed ∧
      errors es = failed.toNat

namespace Judged

theorem frame (h : Judged c arrived es) (hlimit : c'.limit = c.limit)
    (hending : c'.inlet.ending = c.inlet.ending) (hquiet : readerEvents fs = [])
    (herrors : errors fs = 0) : Judged c' arrived (es ++ fs) := by
  obtain ⟨hlength, hevents, hverdict⟩ := h
  refine ⟨hlength, ?_, ?_⟩
  · rw [readerEvents_append_quiet es hquiet, hlimit]
    exact hevents
  · rw [errors_append_quiet es herrors, hlimit, hending]
    exact hverdict

/-- What comes later changes nothing. -/
theorem late (h : Judged c arrived es) (c' : Connection κ) (hlimit : c'.limit = c.limit)
    (hnone : c.inlet.ending = none) (bytes : List UInt8) : Judged c' (arrived ++ bytes) es := by
  obtain ⟨hlength, hevents, failed, hverdict, herrors⟩ := h
  rw [hnone] at hverdict
  obtain ⟨hverdict', hmessages⟩ := verdict_append hverdict bytes c'.inlet.ending
  have hdrop : (arrived ++ bytes).drop handshakeSize = arrived.drop handshakeSize ++ bytes :=
    List.drop_append_of_le_length hlength
  refine ⟨?_, ?_, failed, ?_, herrors⟩
  · rw [List.length_append]
    exact Nat.le_add_right_of_le hlength
  · rw [hdrop, hlimit, hmessages]
    exact hevents
  · rw [hdrop, hlimit]
    exact hverdict'

end Judged

/-! ### Connections left alone -/

/-- The application, or a hook, does something. -/
def Action.isDeed : Action κ → Bool
  | .perform _ _ => true
  | _ => false

/-- A server's connection that the application and the server leave alone, until it is closed. -/
structure Calm (c : Connection κ) (arrived : List UInt8) (es : List (Event κ)) : Prop where
  mute : Mute c
  early : c.stage.isLate = false → errors es = 0 ∧ (c.stage ≠ .absent → c.phase = .validating)
  reading : ∀ buf, c.stage = .reading buf → c.phase = .opened ∧ errors es = 0
  settled : c.stage = .leaving ∨ (c.stage = .finished ∧ readerEvents es ≠ []) →
    c.phase = .closed ∧ Judged c arrived es

namespace Calm

/-- A step that leaves the main task alone. -/
theorem frame (h : Calm c arrived es) (hmute : Mute c') (hstage : c'.stage = c.stage)
    (hphase : c'.phase = c.phase) (hlimit : c'.limit = c.limit)
    (hending : c'.inlet.ending = c.inlet.ending) (hquiet : readerEvents fs = [])
    (herrors : errors fs = 0) : Calm c' arrived (es ++ fs) where
  mute := hmute
  early hearly := by
    rw [errors_append_quiet es herrors, hphase, hstage]
    exact h.early (hstage ▸ hearly)
  reading buf hreading := by
    rw [errors_append_quiet es herrors, hphase]
    exact h.reading buf (hstage.symm.trans hreading)
  settled hend := by
    rw [hstage, readerEvents_append_quiet es hquiet] at hend
    obtain ⟨hclosed, hjudged⟩ := h.settled hend
    exact ⟨hphase.trans hclosed, hjudged.frame hlimit hending hquiet herrors⟩

/-- The handshake goes on. -/
theorem of_early (hmute : Mute c) (hearly : c.stage.isLate = false) (herrors : errors es = 0)
    (hphase : c.stage ≠ .absent → c.phase = .validating) : Calm c arrived es where
  mute := hmute
  early _ := ⟨herrors, hphase⟩
  reading buf hreading := by rw [hreading] at hearly; cases hearly
  settled hend := by
    rcases hend with hs | ⟨hs, -⟩
    · rw [hs] at hearly; cases hearly
    · rw [hs] at hearly; cases hearly

/-- The main task has ended before the connection was open. -/
theorem of_quiet (hmute : Mute c) (hstage : c.stage = .finished) (hquiet : readerEvents es = []) :
    Calm c arrived es where
  mute := hmute
  early hearly := by rw [hstage] at hearly; cases hearly
  reading buf hreading := by cases hstage.symm.trans hreading
  settled hend := by
    rcases hend with hs | ⟨-, hopened⟩
    · cases hstage.symm.trans hs
    · exact absurd hquiet hopened

theorem of_reading {buf : List UInt8} (hmute : Mute c) (hstage : c.stage = .reading buf)
    (hphase : c.phase = .opened) (herrors : errors es = 0) : Calm c arrived es where
  mute := hmute
  early hearly := by rw [hstage] at hearly; cases hearly
  reading _ _ := ⟨hphase, herrors⟩
  settled hend := by
    rcases hend with hs | ⟨hs, -⟩
    · cases hstage.symm.trans hs
    · cases hstage.symm.trans hs

theorem of_settled (hmute : Mute c) (hstage : c.stage = .leaving ∨ c.stage = .finished)
    (hphase : c.phase = .closed) (h : Judged c arrived es) : Calm c arrived es where
  mute := hmute
  early hearly := by rcases hstage with hs | hs <;> rw [hs] at hearly <;> cases hearly
  reading buf hreading := by rcases hstage with hs | hs <;> cases hs.symm.trans hreading
  settled _ := ⟨hphase, h⟩

theorem accepted (limit : Nat) (ch : Challenge) : Calm (κ := κ) (.accepted limit ch) [] [] :=
  of_early ⟨rfl, rfl, rfl, rfl⟩ rfl rfl fun hs => absurd rfl hs

/-- A connection that was just accepted begins, or is turned away. -/
theorem approved (limit : Nat) (ch : Challenge) (id : UInt32) :
    Calm (κ := κ) ((Connection.accepted limit ch).approve id) [] [] :=
  of_early ⟨rfl, rfl, rfl, rfl⟩ rfl rfl fun _ => rfl

theorem turnedAway (limit : Nat) (ch : Challenge) :
    Calm (κ := κ) (Connection.accepted limit ch).close.1 []
      (Connection.accepted (κ := κ) limit ch).close.2 :=
  of_early ⟨rfl, rfl, rfl, rfl⟩ rfl rfl fun hs => absurd rfl hs

/-- Once such a connection is closed, its main task is leaving, has ended or was never there. -/
theorem stage_of_closed (h : Calm c arrived es) (hclosed : c.phase = .closed) :
    c.stage = .absent ∨ c.stage = .leaving ∨ c.stage = .finished := by
  cases hlate : c.stage.isLate with
  | false =>
    by_contra hne
    obtain ⟨habsent, -⟩ := not_or.mp hne
    cases hclosed.symm.trans ((h.early hlate).2 habsent)
  | true =>
    cases hstage : c.stage with
    | reading buf => cases hclosed.symm.trans (h.reading buf hstage).1
    | leaving => exact .inr (.inl rfl)
    | finished => exact .inr (.inr rfl)
    | _ => rw [hstage] at hlate; cases hlate

/-- Reading stops, and the verdict says how. -/
theorem stop {buf : List UInt8} {failed : Bool} (h : Calm c arrived es)
    (hsound : Sound c arrived es) (hstage : c.stage = .reading buf)
    (hverdict : ∀ (body : List UInt8) (ms : List (Message κ)),
      arrived = Bytes.ofWord c.heard ++ (body ++ c.inlet.pending) →
      Frame.Reads c.limit body ms buf →
        (Frame.drain c.limit (body ++ c.inlet.pending)).messages = ms ∧
          verdict κ c.limit (body ++ c.inlet.pending) c.inlet.ending = some failed) :
    Calm (c.stopReading failed).1 arrived (es ++ (c.stopReading failed).2) := by
  obtain ⟨body, ms, harr, hevents, hreads⟩ := Undisturbed.framed_of_reading hsound.hasRead hstage
  obtain ⟨hmessages, hverdict⟩ := hverdict body ms harr hreads
  obtain ⟨hreader, hquiet⟩ := reader_stopReading failed c
  have hdrop : arrived.drop handshakeSize = body ++ c.inlet.pending := by
    rw [harr]
    exact List.drop_left' (Bytes.length_ofWord _)
  have hlimit : (c.stopReading failed).1.limit = c.limit := congrArg Reader.limit hreader
  have hending : (c.stopReading failed).1.inlet.ending = c.inlet.ending :=
    congrArg Reader.ending hreader
  refine of_settled (h.mute.stopReading failed) (.inl (congrArg Reader.stage hreader))
    (phase_close _) ⟨?_, ?_, failed, ?_, ?_⟩
  · rw [harr, List.length_append, Bytes.length_ofWord]
    exact Nat.le_add_right _ _
  · rw [readerEvents_append_quiet es hquiet, hdrop, hlimit, hmessages]
    exact hevents
  · rw [hdrop, hlimit, hending]
    exact hverdict
  · rw [errors_append, (h.reading buf hstage).2, errors_stopReading, Nat.zero_add]

theorem taskMove {t : Turn} {o : Outcome κ} (h : Calm c arrived es) (hsound : Sound c arrived es)
    (hside : c.side = .server) (hmove : TaskMove c t o) : Calm o.1 arrived (es ++ o.2) := by
  have hclient : c.side ≠ .client := by rw [hside]; nofun
  have hconnecting : c.stage ≠ .connecting := fun hs => hclient (hsound.orderly.connecting hs)
  have hmute := h.mute.taskMove hmove
  have hearly : ∀ {stage : Stage}, c.stage = stage → stage.isLate = false → stage ≠ .absent →
      errors es = 0 ∧ c.phase = .validating ∧ readerEvents es = [] := by
    rintro stage rfl hlate habsent
    exact ⟨(h.early hlate).1, (h.early hlate).2 habsent, hsound.quiet_of_early hlate⟩
  cases hmove with
  | begin hstage hsocket =>
    obtain ⟨herrors, hphase, -⟩ := hearly hstage rfl nofun
    exact of_early hmute rfl (by rw [errors_append, herrors]; rfl) fun _ => hphase
  | beginLate hstage hsocket =>
    obtain ⟨-, -, hquiet⟩ := hearly hstage rfl nofun
    exact of_quiet hmute rfl (by rw [List.append_nil]; exact hquiet)
  | attach hstage hphase => exact absurd hstage hconnecting
  | attachLate hstage hphase => exact absurd hstage hconnecting
  | giveUp hstage => exact absurd hstage hconnecting
  | writePart hstage hn hlt =>
    obtain ⟨herrors, hphase, -⟩ := hearly hstage rfl nofun
    exact of_early hmute rfl (by rw [errors_append, herrors]; rfl) fun _ => hphase
  | writeRest hstage _ =>
    obtain ⟨herrors, hphase, -⟩ := hearly hstage rfl nofun
    exact of_early hmute rfl (by rw [errors_append, herrors]; rfl) fun _ => hphase
  | writeAnswer hstage hanswers => exact absurd hanswers hclient
  | writeFail hstage =>
    obtain ⟨-, -, hquiet⟩ := hearly hstage rfl nofun
    obtain ⟨hreader, hnone⟩ := reader_failHandshake c
    exact of_quiet hmute (congrArg Reader.stage hreader)
      ((readerEvents_append_quiet es hnone).trans hquiet)
  | cutShort hstage hpending hending =>
    obtain ⟨-, -, hquiet⟩ := hearly hstage rfl nofun
    obtain ⟨hreader, hnone⟩ := reader_failHandshake c
    exact of_quiet hmute (congrArg Reader.stage hreader)
      ((readerEvents_append_quiet es hnone).trans hquiet)
  | readPart hstage hread hlen =>
    obtain ⟨herrors, hphase, -⟩ := hearly hstage rfl nofun
    exact of_early hmute rfl (by rw [errors_append, herrors]; rfl) fun _ => hphase
  | welcome hstage hread hlen _ hword =>
    obtain ⟨herrors, hphase, -⟩ := hearly hstage rfl nofun
    exact of_early hmute rfl (by rw [errors_append, herrors]; rfl) fun _ => hphase
  | @refuse got word pending hstage hread hlen _ hword =>
    obtain ⟨-, -, hquiet⟩ := hearly hstage rfl nofun
    obtain ⟨hreader, hnone⟩ := reader_failHandshake
      { c with inlet := { c.inlet with pending := pending }, heard := Bytes.toWord word }
    exact of_quiet hmute (congrArg Reader.stage hreader)
      ((readerEvents_append_quiet es hnone).trans hquiet)
  | answer hstage hread hlen hanswers => exact absurd hanswers hclient
  | enter hstage hlock hphase =>
    obtain ⟨herrors, -, -⟩ := hearly hstage rfl nofun
    exact of_reading hmute rfl rfl (by rw [errors_append, herrors]; rfl)
  | enterLate hstage hlock hphase => exact absurd (hearly hstage rfl nofun).2.1 hphase
  | message hstage hdecode =>
    obtain ⟨hphase, herrors⟩ := h.reading _ hstage
    exact of_reading hmute rfl hphase (by rw [errors_append, herrors]; rfl)
  | @fault buf e hstage hdecode =>
    refine h.stop hsound hstage fun body ms _ hreads => ?_
    have hdrain := (hreads.extend c.inlet.pending).drain_eq
    rw [Frame.drain_of_fault (Frame.decode_append_of_fault hdecode _)] at hdrain
    exact ⟨by rw [hdrain]; exact List.append_nil ms, verdict_of_fault (e := e) (by rw [hdrain]; rfl)⟩
  | more hstage hdecode hpending =>
    obtain ⟨hphase, herrors⟩ := h.reading _ hstage
    exact of_reading hmute rfl hphase (by rw [errors_append, herrors]; rfl)
  | @streamEnd buf ending hstage hdecode hpending hending =>
    refine h.stop hsound hstage fun body ms _ hreads => ?_
    have hdrain := hreads.drain_eq
    rw [Frame.drain_of_none hdecode] at hdrain
    rw [hpending, List.append_nil]
    refine ⟨by rw [hdrain]; exact List.append_nil ms, ?_⟩
    rw [verdict_of_rest (by rw [hdrain]; rfl), hending, hdrain]
    rfl
  | cancel hphase hstage =>
    have hlate : c.stage.isLate = false ∧ c.stage ≠ .absent := by
      rcases hstage with hs | ⟨unsent, hs⟩ | ⟨got, hs⟩ <;> rw [hs] <;> exact ⟨rfl, nofun⟩
    cases hphase.symm.trans ((h.early hlate.1).2 hlate.2)
  | cancelReading hphase hstage => cases hphase.symm.trans (h.reading _ hstage).1
  | leave hstage hlock =>
    obtain ⟨hclosed, hjudged⟩ := h.settled (.inl hstage)
    exact of_settled hmute (.inr rfl) hclosed (hjudged.frame rfl rfl rfl rfl)

/-- **A step keeps it**, unless it is one of the application or of the server while the connection is
not closed. -/
theorem step {a : Action κ} {o : Outcome κ} (h : Calm c arrived es) (hsound : Sound c arrived es)
    (hside : c.side = .server) (ha : c.phase ≠ .closed → a.isOwners = false ∧ a.isDeed = false)
    (hstep : c.step a = some o) : Calm o.1 (arrived ++ a.brings) (es ++ o.2) := by
  have hstill : a.brings = [] → Calm o.1 arrived (es ++ o.2) →
      Calm o.1 (arrived ++ a.brings) (es ++ o.2) := by
    intro hnone ho
    rw [hnone, List.append_nil]
    exact ho
  have hsame : Calm c arrived (es ++ []) := h.frame h.mute rfl rfl rfl rfl rfl rfl
  cases move_of_step hstep with
  | send thread m =>
    have hclosed : c.phase = .closed := by_contra fun hopen => by cases (ha hopen).2
    refine hstill rfl ?_
    rw [send_of_closed hclosed]
    exact hsame
  | disconnect thread =>
    have hclosed : c.phase = .closed := by_contra fun hopen => by cases (ha hopen).2
    refine hstill rfl ?_
    rw [close_of_closed hclosed]
    exact hsame
  | approve id =>
    have hclosed : c.phase = .closed := by_contra fun hopen => by cases (ha hopen).1
    refine hstill rfl ?_
    rw [show c.approve id = c by simp [Connection.approve, isConnected, hclosed, Phase.isLive]]
    exact hsame
  | abort =>
    have hclosed : c.phase = .closed := by_contra fun hopen => by cases (ha hopen).1
    have hmute : Mute c.abort := ⟨rfl, rfl, rfl, h.mute.outbound_eq⟩
    refine hstill rfl ?_
    rcases h.stage_of_closed hclosed with hs | hs | hs
    · exact h.frame hmute (by simp [Connection.abort, hs]) rfl rfl rfl rfl rfl
    · have hjudged := (h.settled (.inl hs)).2
      exact of_settled hmute (.inr (by simp [Connection.abort, hs])) hclosed
        (hjudged.frame rfl rfl rfl rfl)
    · exact h.frame hmute (by simp [Connection.abort, hs]) rfl rfl rfl rfl rfl
  | arrive bytes hending =>
    obtain ⟨hposted, hhooks, hchains, houtbound⟩ := h.mute
    rw [List.append_nil]
    refine ⟨⟨hposted, hhooks, hchains, houtbound⟩, h.early, h.reading, fun hend => ?_⟩
    obtain ⟨hclosed, hjudged⟩ := h.settled hend
    refine ⟨hclosed, hjudged.late _ ?_ hending bytes⟩
    rfl
  | expire ending hending =>
    obtain ⟨hposted, hhooks, hchains, houtbound⟩ := h.mute
    rw [List.append_nil]
    refine ⟨⟨hposted, hhooks, hchains, houtbound⟩, h.early, h.reading, fun hend => ?_⟩
    obtain ⟨hclosed, hjudged⟩ := h.settled hend
    refine ⟨hclosed, hjudged.late _ ?_ hending []⟩
    rfl
  | @refuse thread m rest hposted => cases (h.mute.postedBy_eq thread).symm.trans hposted
  | @enqueue thread m rest hposted => cases (h.mute.postedBy_eq thread).symm.trans hposted
  | task hmove => exact hstill rfl (h.taskMove hsound hside hmove)
  | chain hmove => exact absurd hmove h.mute.not_chainMove

theorem run {as : List (Action κ)} {o : Outcome κ} (h : Calm c arrived es)
    (hsound : Sound c arrived es) (hside : c.side = .server)
    (has : c.phase = .closed ∨ ∀ a ∈ as, a.isOwners = false ∧ a.isDeed = false)
    (hrun : c.run as = some o) : Calm o.1 (arrived ++ arrivals as) (es ++ o.2) := by
  induction as generalizing c arrived es o with
  | nil =>
    cases hrun
    rw [show arrivals (κ := κ) [] = [] from rfl, List.append_nil, List.append_nil]
    exact h
  | cons a as ih =>
    obtain ⟨c', es₁, es₂, hstep, hrest, heq⟩ :=
      Run.all_cons_eq_some_iff.mp (show Run.all Connection.step c _ = some (o.1, o.2) from hrun)
    have hnext := h.step hsound hside
      (fun hopen => has.resolve_left hopen a List.mem_cons_self) hstep
    have hlater : c'.phase = .closed ∨ ∀ a ∈ as, a.isOwners = false ∧ a.isDeed = false :=
      has.imp (closed_step hstep) fun hall b hb => hall b (List.mem_cons_of_mem a hb)
    have hend := ih hnext (hsound.step hstep)
      ((congrArg Terms.side (terms_step hstep)).trans hside) hlater hrest
    rw [heq, ← List.append_assoc]
    rwa [List.append_assoc] at hend

end Calm

/-! ### How it ends -/

/-- An open connection is reading. -/
theorem Calm.stage_of_opened (h : Calm c arrived es) (hsound : Sound c arrived es)
    (hopened : c.phase = .opened) : ∃ buf, c.stage = .reading buf := by
  have htold := hsound.readerEvents_of_opened hopened
  have hlate : c.stage.isLate = true := by
    by_contra hearly
    exact htold (hsound.quiet_of_early (Bool.eq_false_iff.mpr hearly))
  have hopen : ¬(c.stage = .leaving ∨ (c.stage = .finished ∧ readerEvents es ≠ [])) := fun hend => by
    cases hopened.symm.trans (h.settled hend).1
  cases hstage : c.stage with
  | reading buf => exact ⟨buf, rfl⟩
  | leaving => exact absurd (.inl hstage) hopen
  | finished => exact absurd (.inr ⟨hstage, htold⟩) hopen
  | _ => rw [hstage] at hlate; cases hlate

/-- It is closed by a turn of its main task, which stops reading. -/
theorem Calm.stops {a : Action κ} {o : Outcome κ} (h : Calm c arrived es) {buf : List UInt8}
    (hstage : c.stage = .reading buf) (howners : a.isOwners = false) (hdeed : a.isDeed = false)
    (hstep : c.step a = some o) (hclosed : o.1.phase = .closed) :
    a = .turn .ready ∧ ∃ failed, o = c.stopReading failed := by
  have hopened := (h.reading buf hstage).1
  have hsame : c.phase = .closed → False := fun hclosed => by cases hopened.symm.trans hclosed
  cases move_of_step hstep with
  | send => cases hdeed
  | disconnect => cases hdeed
  | approve => cases howners
  | abort => cases howners
  | arrive => exact (hsame hclosed).elim
  | expire => exact (hsame hclosed).elim
  | @refuse thread m rest hposted => cases (h.mute.postedBy_eq thread).symm.trans hposted
  | @enqueue thread m rest hposted => cases (h.mute.postedBy_eq thread).symm.trans hposted
  | chain hmove => exact absurd hmove h.mute.not_chainMove
  | task hmove =>
    cases hmove with
    | fault => exact ⟨rfl, true, rfl⟩
    | streamEnd => exact ⟨rfl, _, rfl⟩
    | message => exact (hsame hclosed).elim
    | more => exact (hsame hclosed).elim
    | cancel hphase => exact (hsame hphase).elim
    | cancelReading hphase => exact (hsame hphase).elim
    | _ hs => cases hstage.symm.trans hs

/-- **It is closed for what arrived.**  The step that closes an open connection that nobody touches is a
turn of its main task.  All that was complete has been read before, and an error is counted or not, as
the verdict says. -/
theorem Calm.closes {a : Action κ} {o : Outcome κ} (h : Calm c arrived es)
    (hsound : Sound c arrived es) (hside : c.side = .server) (hopened : c.phase = .opened)
    (howners : a.isOwners = false) (hdeed : a.isDeed = false) (hstep : c.step a = some o)
    (hclosed : o.1.phase = .closed) :
    a = .turn .ready ∧ received o.2 = [] ∧
      received es = (Frame.drain c.limit (arrived.drop handshakeSize)).messages ∧
      ∃ failed, verdict κ c.limit (arrived.drop handshakeSize) c.inlet.ending = some failed ∧
        errors o.2 = failed.toNat := by
  obtain ⟨buf, hstage⟩ := h.stage_of_opened hsound hopened
  obtain ⟨rfl, stopped, rfl⟩ := h.stops hstage howners hdeed hstep hclosed
  obtain ⟨hreader, hquiet⟩ := reader_stopReading stopped c
  have hlimit : (c.stopReading stopped).1.limit = c.limit := congrArg Reader.limit hreader
  have hending : (c.stopReading stopped).1.inlet.ending = c.inlet.ending :=
    congrArg Reader.ending hreader
  have hcalm := h.step hsound hside (fun _ => ⟨rfl, rfl⟩) hstep
  obtain ⟨-, -, hevents, failed, hverdict, herrors⟩ :=
    hcalm.settled (.inl (congrArg Reader.stage hreader))
  rw [show (Action.turn (κ := κ) .ready).brings = [] from rfl, List.append_nil] at hevents hverdict
  rw [readerEvents_append_quiet es hquiet, hlimit] at hevents
  rw [errors_append, (h.reading buf hstage).2, Nat.zero_add] at herrors
  rw [hlimit, hending] at hverdict
  refine ⟨rfl, ?_, received_of_readerEvents hevents, failed, hverdict, herrors⟩
  rw [received_eq_readerEvents, hquiet]
  rfl

/-- What became of a connection that was open: the messages read, the phase and the errors, as what has
arrived says. -/
structure Concluded (c : Connection κ) (arrived : List UInt8) (es : List (Event κ)) : Prop where
  received_eq : received es = (Frame.drain c.limit (arrived.drop handshakeSize)).messages
  phase_eq : c.phase =
    if (verdict κ c.limit (arrived.drop handshakeSize) c.inlet.ending).isSome then .closed else .opened
  errors_eq : errors es =
    ((verdict κ c.limit (arrived.drop handshakeSize) c.inlet.ending).getD false).toNat

theorem Judged.concluded (h : Judged c arrived es) (hclosed : c.phase = .closed) :
    Concluded c arrived es := by
  obtain ⟨-, hevents, failed, hverdict, herrors⟩ := h
  refine ⟨received_of_readerEvents hevents, ?_, ?_⟩
  · rw [hverdict]
    exact hclosed
  · rw [hverdict]
    exact herrors

/-- **Where it rests**, everything complete has been read of what arrived, and the connection is closed
if the verdict says so, with an error or without. -/
theorem Calm.rests (h : Calm c arrived es) (hsound : Sound c arrived es)
    (htold : readerEvents es ≠ []) (hrest : Resting c) : Concluded c arrived es := by
  have hend : c.stage = .leaving ∨ (c.stage = .finished ∧ readerEvents es ≠ []) →
      Concluded c arrived es := fun hend => (h.settled hend).2.concluded (h.settled hend).1
  rcases hrest.cases hsound with hs | ⟨got, hs, -⟩ | ⟨buf, hs, hdecode, hpending, hending⟩ | hs | hs
  · exact absurd (hsound.quiet_of_early (by rw [hs]; rfl)) htold
  · exact absurd (hsound.quiet_of_early (by rw [hs]; rfl)) htold
  · obtain ⟨body, ms, harr, hevents, hreads⟩ := Undisturbed.framed_of_reading hsound.hasRead hs
    obtain ⟨hopened, herrors⟩ := h.reading buf hs
    have hdrain := hreads.drain_eq
    rw [Frame.drain_of_none hdecode] at hdrain
    have hdrop : arrived.drop handshakeSize = body := by
      rw [harr, hpending, List.append_nil]
      exact List.drop_left' (Bytes.length_ofWord _)
    have hverdict : verdict κ c.limit (arrived.drop handshakeSize) c.inlet.ending = none := by
      rw [hdrop, verdict_of_rest (by rw [hdrain]; rfl), hending]
      rfl
    refine ⟨?_, ?_, ?_⟩
    · rw [received_of_readerEvents hevents, hdrop, hdrain]
      exact (List.append_nil ms).symm
    · rw [hverdict]
      exact hopened
    · rw [hverdict]
      exact herrors
  · exact hend (.inl hs)
  · exact hend (.inr ⟨hs, htold⟩)

omit [Kind κ] in
/-- A connection that has said so has been opened. -/
theorem readerEvents_ne_nil_of_mem (h : .opened ∈ es) : readerEvents es ≠ [] :=
  List.ne_nil_of_mem (List.mem_filter.mpr ⟨h, rfl⟩)

end Connection
end Parley

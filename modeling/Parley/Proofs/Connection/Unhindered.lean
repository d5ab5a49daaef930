import Parley.Proofs.Connection.Answering

/-!
# Parley.Proofs.Connection.Unhindered — a client's connection left to itself

If only the main task closes a client's connection, and not because it could not connect or write, then
the task ends before the connection is open only where the stream has ended inside the challenge, and it
stops reading frames only where the stream of frames breaks off or has ended (`Unhindered`).  So when it
rests, as it must, everything complete has been read.  The module ends with what holds of every run of a
client's connection (`Answered`).
-/

namespace Parley.Connection

variable {κ : Type} [Kind κ] {c c' : Connection κ} {arrived : List UInt8} {es fs : List (Event κ)}
  {as : List (Action κ)} {limit : Nat}

/-- A client's connection that only its main task closes, on what it reads. -/
structure Unhindered (c : Connection κ) (arrived : List UInt8) (es : List (Event κ)) : Prop where
  reading : ∀ buf, c.stage = .reading buf → c.phase = .opened
  complete : c.stage = .leaving ∨ (c.stage = .finished ∧ readerEvents es ≠ []) →
    Complete c arrived es
  short : c.stage = .finished → readerEvents es = [] →
    arrived.length < handshakeSize ∧ c.inlet.ending ≠ none

namespace Unhindered

/-- A step that leaves the main task alone. -/
theorem frame (h : Unhindered c arrived es) (hstage : c'.stage = c.stage)
    (hphase : c'.phase = c.phase) (hlimit : c'.limit = c.limit)
    (hending : c.inlet.ending ≠ none → c'.inlet.ending ≠ none) (hquiet : readerEvents fs = []) :
    Unhindered c' arrived (es ++ fs) where
  reading buf hreading := by
    rw [hphase]
    exact h.reading buf (hstage.symm.trans hreading)
  complete hend := by
    rw [hstage, readerEvents_append_quiet es hquiet] at hend
    exact (h.complete hend).frame hlimit hending hquiet
  short hfinished hnone := by
    rw [readerEvents_append_quiet es hquiet] at hnone
    obtain ⟨hlen, hended⟩ := h.short (hstage.symm.trans hfinished) hnone
    exact ⟨hlen, hending hended⟩

/-- Where the handshake is not over, nothing is claimed. -/
theorem of_early (h : c.stage.isLate = false) : Unhindered c arrived es where
  reading buf hreading := by rw [hreading] at h; cases h
  complete hend := by
    rcases hend with hleaving | ⟨hfinished, -⟩
    · rw [hleaving] at h; cases h
    · rw [hfinished] at h; cases h
  short hfinished := by rw [hfinished] at h; cases h

/-- The task reads frames. -/
theorem of_reading {buf : List UInt8} (hstage : c.stage = .reading buf) (hphase : c.phase = .opened) :
    Unhindered c arrived es where
  reading _ _ := hphase
  complete hend := by rcases hend with hs | ⟨hs, -⟩ <;> cases hstage.symm.trans hs
  short hfinished := by cases hstage.symm.trans hfinished

/-- Reading stops at the end of the frames. -/
theorem of_complete (hstage : c.stage = .leaving) (h : Complete c arrived es) :
    Unhindered c arrived es where
  reading buf hreading := by cases hstage.symm.trans hreading
  complete _ := h
  short hfinished := by cases hstage.symm.trans hfinished

theorem taskMove {t : Turn} {o : Outcome κ} (h : Unhindered c arrived es)
    (hsound : Sound c arrived es) (hside : c.side = .client) (htrial : Trial c es)
    (hlocal : c.phase ≠ .closed → o.1.phase = .closed → t = .ready) (hmove : TaskMove c t o) :
    Unhindered o.1 arrived (es ++ o.2) := by
  have hserver : c.side ≠ .server := by rw [hside]; nofun
  have hstarting := Answering.not_starting hsound hside
  have hvalidating : ∀ {stage : Stage}, c.stage = stage → stage.isLate = false →
      stage ≠ .connecting → c.phase = .validating := by
    rintro stage rfl hlate hne
    exact htrial.validating hlate hne
  cases hmove with
  | begin hstage => exact absurd hstage hstarting
  | beginLate hstage => exact absurd hstage hstarting
  | attach => exact of_early rfl
  | attachLate hstage hphase => exact absurd (htrial.connecting hstage).1 hphase
  | giveUp hstage =>
    have hopen : c.phase ≠ .closed := by rw [(htrial.connecting hstage).1]; nofun
    cases hlocal hopen (phase_close _)
  | writePart => exact of_early rfl
  | writeRest hstage hs => exact absurd hs hserver
  | writeAnswer => exact of_early rfl
  | writeFail hstage =>
    have hopen : c.phase ≠ .closed := by rw [hvalidating hstage rfl nofun]; nofun
    cases hlocal hopen (by rw [failHandshake_eq]; exact phase_close _)
  | @cutShort got hstage hpending hending =>
    obtain ⟨hreader, hquiet⟩ := reader_failHandshake c
    have hfinished : c.failHandshake.1.stage = .finished := congrArg Reader.stage hreader
    have hended : c.failHandshake.1.inlet.ending = c.inlet.ending := congrArg Reader.ending hreader
    obtain ⟨taken, harr, htaken⟩ := hsound.hasRead
    unfold Reader.Taken at htaken
    rw [show c.reader.stage = _ from hstage] at htaken
    obtain ⟨rfl, hlen, hnone⟩ := htaken
    rw [hpending, List.append_nil] at harr
    refine ⟨fun buf hs => ?_, fun hend => ?_, fun _ _ => ⟨harr ▸ hlen, hended ▸ hending⟩⟩
    · cases hfinished.symm.trans hs
    · rcases hend with hs | ⟨-, htold⟩
      · cases hfinished.symm.trans hs
      · rw [readerEvents_append_quiet es hquiet] at htold
        exact absurd hnone htold
  | readPart => exact of_early rfl
  | welcome hstage hread hlen hs => exact absurd hs hserver
  | refuse hstage hread hlen hs => exact absurd hs hserver
  | answer => exact of_early rfl
  | enter => exact of_reading rfl rfl
  | enterLate hstage hlock hphase => exact absurd (hvalidating hstage rfl nofun) hphase
  | message hstage => exact of_reading rfl (h.reading _ hstage)
  | fault hstage hdecode =>
    exact of_complete (congrArg Reader.stage (reader_stopReading true c).1)
      (Undisturbed.complete_of_fault hsound.hasRead hstage hdecode)
  | more hstage => exact of_reading rfl (h.reading _ hstage)
  | streamEnd hstage hdecode hpending hending =>
    exact of_complete (congrArg Reader.stage (reader_stopReading _ c).1)
      (Undisturbed.complete_of_streamEnd hsound.hasRead hstage hdecode hpending
        (by rw [hending]; nofun) _)
  | cancel hphase hstage =>
    rcases hstage with hs | ⟨unsent, hs⟩ | ⟨got, hs⟩
    · cases hphase.symm.trans (htrial.connecting hs).1
    · cases hphase.symm.trans (hvalidating hs rfl nofun)
    · cases hphase.symm.trans (hvalidating hs rfl nofun)
  | cancelReading hphase hstage => cases hphase.symm.trans (h.reading _ hstage)
  | leave hstage =>
    have hcomplete := h.complete (.inl hstage)
    rw [List.append_nil]
    refine ⟨nofun, fun _ => hcomplete, fun _ hnone => ?_⟩
    rw [hcomplete.readerEvents_eq] at hnone
    cases hnone

theorem step {a : Action κ} {o : Outcome κ} (h : Unhindered c arrived es)
    (hsound : Sound c arrived es) (hside : c.side = .client) (htrial : Trial c es)
    (habort : a ≠ .abort)
    (hlocal : c.phase ≠ .closed → o.1.phase = .closed → a = .turn .ready)
    (hstep : c.step a = some o) : Unhindered o.1 (arrived ++ a.brings) (es ++ o.2) := by
  have hstill : a.brings = [] → Unhindered o.1 arrived (es ++ o.2) →
      Unhindered o.1 (arrived ++ a.brings) (es ++ o.2) := by
    intro ha ho
    rw [ha, List.append_nil]
    exact ho
  cases move_of_step hstep with
  | send thread m =>
    have hsame : (c.send thread m).stage = c.stage ∧ (c.send thread m).phase = c.phase ∧
        (c.send thread m).limit = c.limit ∧ (c.send thread m).inlet = c.inlet := by
      unfold Connection.send
      split
      · exact ⟨rfl, rfl, rfl, rfl⟩
      · cases thread <;> exact ⟨rfl, rfl, rfl, rfl⟩
    obtain ⟨hstage, hphase, hlimit, hinlet⟩ := hsame
    exact hstill rfl (h.frame hstage hphase hlimit (by rw [hinlet]; exact (·)) rfl)
  | disconnect thread =>
    by_cases hclosed : c.phase = .closed
    · refine hstill rfl ?_
      rw [close_of_closed hclosed]
      exact h.frame rfl rfl rfl (·) rfl
    · cases hlocal hclosed (phase_close c)
  | approve id hserver => cases hside.symm.trans hserver
  | abort => exact absurd rfl habort
  | arrive bytes hending =>
    rw [List.append_nil]
    refine ⟨h.reading, fun hend => ?_, fun hfinished hnone => ?_⟩
    · exact (h.complete hend).arrive rfl hending bytes
    · exact absurd hending (h.short hfinished hnone).2
  | expire => exact hstill rfl (h.frame rfl rfl rfl (fun _ => nofun) rfl)
  | @refuse thread => cases thread <;> exact hstill rfl (h.frame rfl rfl rfl (·) rfl)
  | @enqueue thread => cases thread <;> exact hstill rfl (h.frame rfl rfl rfl (·) rfl)
  | @task t o hmove =>
    refine hstill rfl (h.taskMove hsound hside htrial (fun hopen hclosed => ?_) hmove)
    have hready := hlocal hopen hclosed
    cases hready
    rfl
  | @chain i t o hmove =>
    obtain ⟨hreader, hquiet⟩ := hmove.reader_eq
    have hphase : o.1.phase = c.phase := by
      rcases hmove.phase_eq with hsame | hclosed
      · exact hsame
      · by_cases hopen : c.phase = .closed
        · exact hclosed.trans hopen.symm
        · cases hlocal hopen hclosed
    refine hstill rfl (h.frame hmove.main_eq.1 hphase (congrArg Reader.limit hreader) ?_ hquiet)
    rw [show o.1.inlet.ending = c.inlet.ending from congrArg Reader.ending hreader]
    exact (·)

end Unhindered

/-! ### The main task comes to rest -/

/-- The word of the other end has not come. -/
def Stage.waits : Stage → Bool
  | .connecting | .awaiting _ => true
  | _ => false

/-- The work of a client's task, which has an answer to write once the challenge has come. -/
def toil (c : Connection κ) : Nat := c.work + if c.stage.waits then 10 else 0

/-- On a client nothing leads back to waiting for the word. -/
theorem TaskMove.waits_of {t : Turn} {o : Outcome κ} (h : TaskMove c t o) (hside : c.side = .client)
    (hwaits : o.1.stage.waits = true) : c.stage.waits = true := by
  cases h with
  | attach hstage => rw [hstage]; rfl
  | giveUp hstage => rw [hstage]; rfl
  | writeRest hstage hs => cases hside.symm.trans hs
  | writeFail hstage => rw [failHandshake_eq, stage_close] at hwaits; cases hwaits
  | cutShort hstage => rw [hstage]; rfl
  | readPart hstage => rw [hstage]; rfl
  | refuse hstage => rw [hstage]; rfl
  | fault =>
    rw [show (c.stopReading true).1.stage = .leaving from stage_close _] at hwaits
    cases hwaits
  | streamEnd =>
    rw [show (c.stopReading _).1.stage = .leaving from stage_close _] at hwaits
    cases hwaits
  | _ => cases hwaits

/-- Every turn of a client's task uses up some of it. -/
theorem TaskMove.toil_lt {t : Turn} {o : Outcome κ} (hsound : Sound c arrived es)
    (hside : c.side = .client) (hmove : TaskMove c t o) : o.1.toil < c.toil := by
  unfold toil
  rcases hmove.work_lt_or_answers hsound with hlt | ⟨-, ⟨got, hawaits⟩, ⟨unsent, hsends⟩, hlt⟩
  · cases hwaits : o.1.stage.waits with
    | true =>
      rw [hmove.waits_of hside hwaits]
      exact Nat.add_lt_add_right hlt _
    | false => exact hlt.trans_le (Nat.le_add_right _ _)
  · rw [hawaits, hsends]
    exact hlt

/-- **The main task of a client comes to rest**, too. -/
theorem Sound.comesToRest_client (hsound : Sound c arrived es) (hside : c.side = .client) :
    ComesToRest c := by
  refine comesToRest_of_lt (I := fun c => c.side = .client ∧ ∃ arrived es, Sound c arrived es)
    (f := toil) ?_ ⟨hside, arrived, es, hsound⟩
  rintro c t o ⟨hside, arrived, es, hsound⟩ hstep
  exact ⟨⟨(congrArg Terms.side (terms_step hstep)).trans hside, _, _, hsound.step hstep⟩,
    TaskMove.toil_lt hsound hside (move_of_turn hstep)⟩

/-! ### Where it rests -/

/-- What has been told was read behind the word. -/
theorem Sound.length_of_told (h : Sound c arrived es) (htold : readerEvents es ≠ []) :
    handshakeSize ≤ arrived.length := by
  obtain ⟨taken, harr, htaken⟩ := h.hasRead
  have hframed : readerEvents es = [] ∨ ∃ buf, c.reader.Framed taken es buf := htaken.finish
  obtain ⟨buf, -, body, ms, hbody, -⟩ := hframed.resolve_left htold
  rw [harr, hbody, List.append_assoc, List.length_append, Bytes.length_ofWord]
  exact Nat.le_add_right _ _

/-- A task that rests while it waits for the word has too few bytes of it. -/
theorem Sound.short_of_awaiting {got : List UInt8} (h : Sound c arrived es)
    (hstage : c.stage = .awaiting got) (hpending : c.inlet.pending = []) :
    arrived.length < handshakeSize ∧ readerEvents es = [] := by
  obtain ⟨taken, harr, htaken⟩ := h.hasRead
  unfold Reader.Taken at htaken
  rw [show c.reader.stage = _ from hstage] at htaken
  obtain ⟨rfl, hlen, hnone⟩ := htaken
  rw [hpending, List.append_nil] at harr
  exact ⟨harr ▸ hlen, hnone⟩

/-- **Where it rests, everything complete has been read**, and the connection has been open if the
challenge has come. -/
theorem Unhindered.rests (h : Unhindered c arrived es) (hsound : Sound c arrived es)
    (hpresent : c.stage ≠ .absent) (hrest : Resting c) :
    received es = (Frame.drain c.limit (arrived.drop handshakeSize)).messages ∧
      (handshakeSize ≤ arrived.length → readerEvents es ≠ []) := by
  have hshort : arrived.length < handshakeSize → readerEvents es = [] →
      received es = (Frame.drain c.limit (arrived.drop handshakeSize)).messages ∧
        (handshakeSize ≤ arrived.length → readerEvents es ≠ []) := by
    intro hlen hnone
    rw [List.drop_eq_nil_of_le (Nat.le_of_lt hlen), Frame.drain_of_none (Frame.decode_nil _),
      received_eq_readerEvents, hnone]
    exact ⟨rfl, fun hlong => absurd hlong (Nat.not_le_of_lt hlen)⟩
  have htold : readerEvents es = .opened ::
      (Frame.drain c.limit (arrived.drop handshakeSize)).messages.map .received →
      received es = (Frame.drain c.limit (arrived.drop handshakeSize)).messages ∧
        (handshakeSize ≤ arrived.length → readerEvents es ≠ []) :=
    fun hevents => ⟨received_of_readerEvents hevents, fun _ => by rw [hevents]; exact List.cons_ne_nil _ _⟩
  rcases hrest.cases hsound with hs | ⟨got, hs, hpending, -⟩ | ⟨buf, hs, hdecode, hpending, -⟩ | hs | hs
  · exact absurd hs hpresent
  · obtain ⟨hlen, hnone⟩ := hsound.short_of_awaiting hs hpending
    exact hshort hlen hnone
  · exact htold (Undisturbed.readerEvents_of_waiting hsound.hasRead hs hdecode hpending)
  · exact htold (h.complete (.inl hs)).readerEvents_eq
  · by_cases hnone : readerEvents es = []
    · exact hshort (h.short hs hnone).1 hnone
    · exact htold (h.complete (.inr ⟨hs, hnone⟩)).readerEvents_eq

/-- **A stream that ends inside the challenge** ends the connection, with one failure and one error. -/
theorem Trial.rests_short (h : Trial c es) (hsound : Sound c arrived es)
    (hpresent : c.stage ≠ .absent) (hlen : arrived.length < handshakeSize)
    (hended : c.inlet.ending ≠ none) (hsocket : .established ∈ es) (hrest : Resting c) :
    c.phase = .closed ∧ failures es = 1 ∧ errors es = 1 := by
  have hquiet : readerEvents es = [] := by
    by_contra htold
    exact absurd (hsound.length_of_told htold) (Nat.not_le_of_lt hlen)
  rcases hrest.cases hsound with hs | ⟨got, hs, -, hending⟩ | ⟨buf, hs, -⟩ | hs | hs
  · exact absurd hs hpresent
  · exact absurd hending hended
  · exact absurd hquiet (hsound.hasWritten.of_late (.inl ⟨buf, hs⟩)).1
  · exact absurd hquiet (hsound.hasWritten.of_late (.inr hs)).1
  · obtain ⟨hclosed, hcounts⟩ := h.refused hs hquiet
    exact ⟨hclosed, hcounts hsocket⟩

/-! ### Every run -/

/-- What holds of every run `as` of a client's connection that nobody but the application sends on. -/
structure Answered (limit : Nat) (as : List (Action κ)) (c : Connection κ) (es : List (Event κ)) :
    Prop where
  /-- Nothing is written before the challenge has arrived. -/
  silent : (arrivals as).length < handshakeSize → wrote es = []
  /-- The first bytes written are those of the scrambled challenge. -/
  answer : (wrote es).take handshakeSize <+:
    Bytes.ofWord (scramble (Bytes.toWord ((arrivals as).take handshakeSize)))
  /-- Behind them there are the frames of the messages sent, in the order of sending. -/
  frames : (wrote es).drop handshakeSize <+: (posts as).flatMap Frame.bytes
  /-- What is sent before the connection is open is held, and then it is written before anything
  else. -/
  held : ∀ pre post c₀ es₀, as = pre ++ post → (outgoing limit).run pre = some (c₀, es₀) →
    c₀.phase = .connecting ∨ c₀.phase = .validating →
      (wrote es₀).drop handshakeSize = [] ∧ c₀.outbound.toList ++ c₀.posted = posts pre ∧
        ((wrote es).drop handshakeSize <+: (posts pre).flatMap Frame.bytes ∨
          (posts pre).flatMap Frame.bytes <+: (wrote es).drop handshakeSize)
  /-- Until the connection is closed, every message sent is written, queued or posted. -/
  kept : c.phase ≠ .closed → posts as = sent es ++ c.outbound.toList ++ c.posted
  /-- While it is open, there is one write chain exactly if a message is queued, and when no message is
  posted and no chain is left, all frames are written. -/
  flushed : c.phase = .opened → (c.outbound.toList ≠ [] ↔ c.chains.length = 1) ∧
    (c.posted = [] → c.chains = [] →
      (wrote es).drop handshakeSize = (posts as).flatMap Frame.bytes)
  /-- The messages read are the first of those that the bytes behind the challenge hold. -/
  read : received es <+: (Frame.drain limit ((arrivals as).drop handshakeSize)).messages

/-- A client's connection in the middle of a run. -/
theorem client_run (hrun : (outgoing limit).run as = some (c, es)) :
    c.side = .client ∧ c.limit = limit ∧ c.stage ≠ .absent ∧ Sound c (arrivals as) es ∧
      Answering c (arrivals as) es := by
  have hall := Run.all_history (I := fun c as es => c.side = .client ∧ c.limit = limit ∧
    c.stage ≠ .absent ∧ Sound c (arrivals as) es ∧ Answering c (arrivals as) es)
    ⟨rfl, rfl, show Stage.connecting ≠ .absent from nofun, sound_outgoing limit, .waiting rfl rfl rfl⟩
    ?_ hrun
  · exact hall
  rintro pre a post c₁ es₁ c₂ es₂ - - hstep ⟨hside, hlimit, hpresent, hsound, hanswer⟩
  have hterms := terms_step hstep
  rw [arrivals_append, arrivals_singleton]
  exact ⟨(congrArg Terms.side hterms).trans hside, (congrArg Terms.limit hterms).trans hlimit,
    stage_ne_absent hstep hpresent, hsound.step hstep, hanswer.step hsound hside hstep⟩

/-- **The answer and the messages behind it**, whatever happens to the connection and in whatever
order. -/
theorem answered_run (habort : .abort ∉ as) (hhooks : Unhooked as)
    (hrun : (outgoing limit).run as = some (c, es)) : Answered limit as c es := by
  have hfresh : Fresh (outgoing (κ := κ) limit) := .outgoing limit
  obtain ⟨-, hlimit, -, hsound, hanswer⟩ := client_run hrun
  have hposting := Posting.run hfresh hhooks hrun
  have hattended := attended_run hfresh habort hrun
  have hframes : (wrote es).drop handshakeSize <+: (posts as).flatMap Frame.bytes :=
    hsound.hasWritten.frames_isPrefix.trans (hposting.order.flatMap Frame.bytes)
  obtain ⟨hsilent, hword⟩ := hanswer.take_wrote hsound.hasWritten
  refine ⟨hsilent, hword, hframes, ?_, fun hopen => ?_, fun hopened => ⟨?_, fun hposted hchains => ?_⟩,
    hlimit ▸ hsound.hasRead.received_isPrefix⟩
  · intro pre post c₀ es₀ has hpre hphase
    have hopened : c₀.phase ≠ .opened := by rcases hphase with h | h <;> rw [h] <;> nofun
    have hclosed : c₀.phase ≠ .closed := by rcases hphase with h | h <;> rw [h] <;> nofun
    have habort₀ : .abort ∉ pre := fun hmem => habort (has ▸ List.mem_append_left post hmem)
    have hhooks₀ : Unhooked pre := fun m hmem => hhooks m (has ▸ List.mem_append_left post hmem)
    have hattended₀ := attended_run hfresh habort₀ hpre
    obtain ⟨hnone, hqueue⟩ :=
      (hfresh.sound.run hpre).hasWritten.held hopened hclosed hattended₀
    refine ⟨hnone, ?_, ?_⟩
    · rw [hqueue]
      exact (Posting.run hfresh hhooks₀ hpre).kept hclosed hattended₀
    · rw [has, posts_append, List.flatMap_append] at hframes
      exact List.prefix_or_prefix_of_prefix hframes (List.prefix_append _ _)
  · rw [← hposting.kept hopen hattended, (hsound.hasWritten.kept hopen hattended).1]
  · exact (hsound.hasWritten.kept (by rw [hopened]; nofun) hattended).2 hopened
  · have hopen : c.phase ≠ .closed := by rw [hopened]; nofun
    have hflushed : c.outbound.toList = [] := by
      by_contra hqueued
      have hone := ((hsound.hasWritten.kept hopen hattended).2 hopened).mp hqueued
      rw [hchains] at hone
      cases hone
    rw [hsound.hasWritten.drop_wrote_of_flushed hopened hattended hflushed,
      ← hposting.kept hopen hattended, hposted, List.append_nil]

theorem trial_run (hrun : (outgoing limit).run as = some (c, es)) (habort : .abort ∉ as)
    (hlocal : ClosesOnlyBy (fun a => a.isDisconnect = false) (outgoing limit) as) : Trial c es := by
  refine Run.all_history (I := fun c _ es => Trial c es)
    ⟨fun _ => ⟨rfl, rfl⟩, fun _ => ⟨rfl, List.not_mem_nil⟩, fun _ hne => absurd rfl hne,
      fun hs => by cases hs⟩ ?_ hrun
  intro pre a post c₁ es₁ c₂ es₂ has hpre hstep h₁
  obtain ⟨hside, -, -, hsound, -⟩ := client_run hpre
  have hne : a ≠ .abort := by
    rintro rfl
    exact habort (by rw [has]; simp)
  exact h₁.step hsound hside hne (hlocal pre a post c₁ es₁ _ has hpre hstep) hstep

theorem unhindered_run (hrun : (outgoing limit).run as = some (c, es)) (habort : .abort ∉ as)
    (hlocal : ClosesOnlyBy (· = .turn .ready) (outgoing limit) as) :
    Unhindered c (arrivals as) es := by
  refine Run.all_history (I := fun c as es => Unhindered c (arrivals as) es)
    (Unhindered.of_early rfl) ?_ hrun
  intro pre a post c₁ es₁ c₂ es₂ has hpre hstep h₁
  obtain ⟨hside, -, -, hsound, -⟩ := client_run hpre
  have hne : a ≠ .abort := by
    rintro rfl
    exact habort (by rw [has]; simp)
  have hpreabort : .abort ∉ pre := fun hmem => habort (by rw [has]; simp [hmem])
  have htrial := trial_run hpre hpreabort ((has ▸ hlocal).of_append.mono (by rintro b rfl; rfl))
  rw [arrivals_append, arrivals_singleton]
  exact h₁.step hsound hside htrial hne (hlocal pre a post c₁ es₁ _ has hpre hstep) hstep

/-- **All that the server sends is read** when the main task rests, if nothing else closes the
connection; and the answer is written if the challenge has come. -/
theorem unhindered_rests (hrun : (outgoing limit).run as = some (c, es)) (habort : .abort ∉ as)
    (hlocal : ClosesOnlyBy (· = .turn .ready) (outgoing limit) as) (hrest : Resting c) :
    received es = (Frame.drain limit ((arrivals as).drop handshakeSize)).messages ∧
      (handshakeSize ≤ (arrivals as).length → (wrote es).take handshakeSize =
        Bytes.ofWord (scramble (Bytes.toWord ((arrivals as).take handshakeSize)))) := by
  obtain ⟨-, hlimit, hpresent, hsound, hanswer⟩ := client_run hrun
  obtain ⟨hall, htold⟩ := (unhindered_run hrun habort hlocal).rests hsound hpresent hrest
  exact ⟨hlimit ▸ hall, fun hlong => hanswer.take_wrote_of_told (htold hlong)⟩

/-- **A challenge that is cut short** closes the connection when the main task rests, unless somebody
disconnects it: nothing is written, nothing is held any more, and one failed handshake and one error are
counted. -/
theorem cutShort_rests (hrun : (outgoing limit).run as = some (c, es)) (habort : .abort ∉ as)
    (hlocal : ClosesOnlyBy (fun a => a.isDisconnect = false) (outgoing limit) as)
    (hlen : (arrivals as).length < handshakeSize) (hended : endings as ≠ [])
    (hsocket : .established ∈ es) (hrest : Resting c) :
    wrote es = [] ∧ c.phase = .closed ∧ c.outbound.toList = [] ∧ failures es = 1 ∧
      errors es = 1 := by
  obtain ⟨-, -, hpresent, hsound, hanswer⟩ := client_run hrun
  have hending : c.inlet.ending ≠ none := by
    rw [ending_run rfl hrun]
    exact mt List.head?_eq_none_iff.mp hended
  have hdrained : Drained c :=
    Run.all_invariant (I := Drained) (fun _ _ _ h hstep => h.step hstep)
      (fun _ => Deque.toList_empty) hrun
  obtain ⟨hclosed, hfailed, herrors⟩ :=
    (trial_run hrun habort hlocal).rests_short hsound hpresent hlen hending hsocket hrest
  exact ⟨(hanswer.take_wrote hsound.hasWritten).1 hlen, hclosed, hdrained hclosed, hfailed, herrors⟩

end Parley.Connection

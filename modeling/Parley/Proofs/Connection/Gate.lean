import Parley.Proofs.Connection.Undisturbed

/-!
# Parley.Proofs.Connection.Gate — the handshake gate of a server's connection

As long as the right answer has not arrived, a server's connection is not open, the application has
been told nothing, and nothing but a part of the challenge is written.  Where the answer is wrong or
cut short, the connection ends closed with one failed handshake; where it is right, the application is
told that the connection opened and then of the messages behind the answer.  The main task comes to
rest by itself, since every turn of it uses up some of its work.
-/

namespace Parley.Connection

variable {κ : Type} {c : Connection κ}

/-! ### The work of the main task -/

/-- How much of the way a stage is from the end of the main task. -/
def Stage.rank : Stage → Nat
  | .absent | .finished => 0
  | .leaving => 1
  | .reading buf => 2 + buf.length
  | .admitted => 3
  | .awaiting _ => 4
  | .sending unsent => 5 + unsent.length
  | .starting | .connecting => 14

/-- A bound of the turns the main task can take before something else happens. -/
def work (c : Connection κ) : Nat := c.stage.rank + 2 * c.inlet.pending.length

theorem work_of_reader {c' : Connection κ} {stage : Stage}
    (h : c'.reader = { c.reader with stage := stage }) :
    c'.work = stage.rank + 2 * c.inlet.pending.length := by
  have hstage : c'.stage = stage := congrArg Reader.stage h
  have hpending : c'.inlet.pending = c.inlet.pending := congrArg Reader.pending h
  rw [work, hstage, hpending]

/-- The main task goes on to a stage nearer to the end. -/
theorem work_lt_of_reader {c' : Connection κ} {stage stage' : Stage} (hstage : c.stage = stage)
    (h : c'.reader = { c.reader with stage := stage' }) (hrank : stage'.rank < stage.rank) :
    c'.work < c.work := by
  rw [work_of_reader h, work, hstage]
  exact Nat.add_lt_add_right hrank _

/-- A word that is read uses up pending bytes. -/
theorem ReadsWord.length_lt {got word pending : List UInt8} (h : c.ReadsWord got word pending)
    (hgot : got.length < handshakeSize) : pending.length < c.inlet.pending.length := by
  have hpos : 0 < c.inlet.pending.length := List.length_pos_iff.mpr h.some_pending
  rw [h.pending_eq, List.length_drop]
  omega

variable [Kind κ] {arrived : List UInt8} {es : List (Event κ)} {as : List (Action κ)} {limit : Nat}
  {ch : Challenge}

/-- Every turn of the main task uses up some work, but for the one in which a client hears the word that
it has to answer. -/
theorem TaskMove.work_lt_or_answers {t : Turn} {o : Outcome κ} (hsound : Sound c arrived es)
    (hmove : TaskMove c t o) :
    o.1.work < c.work ∨ (c.side = .client ∧ (∃ got, c.stage = .awaiting got) ∧
      (∃ unsent, o.1.stage = .sending unsent) ∧ o.1.work < c.work + 10) := by
  have hgot : ∀ got, c.stage = .awaiting got → got.length < handshakeSize := by
    intro got hstage
    obtain ⟨taken, -, htaken⟩ := hsound.hasRead
    unfold Reader.Taken at htaken
    rw [show c.reader.stage = _ from hstage] at htaken
    exact htaken.2.1
  cases hmove with
  | begin hstage => exact .inl (work_lt_of_reader hstage rfl (by simp [Stage.rank]))
  | beginLate hstage => exact .inl (work_lt_of_reader hstage rfl (by simp [Stage.rank]))
  | attach hstage => exact .inl (work_lt_of_reader hstage rfl (by simp [Stage.rank]))
  | attachLate hstage => exact .inl (work_lt_of_reader hstage rfl (by simp [Stage.rank]))
  | giveUp hstage =>
    exact .inl (work_lt_of_reader hstage (reader_giveUp c).1 (by simp [Stage.rank]))
  | writePart hstage hn hlt =>
    refine .inl (work_lt_of_reader hstage rfl ?_)
    simp only [Stage.rank, List.length_drop]
    omega
  | writeRest hstage => exact .inl (work_lt_of_reader hstage rfl (by simp only [Stage.rank]; omega))
  | writeAnswer hstage =>
    exact .inl (work_lt_of_reader hstage rfl (by simp only [Stage.rank]; omega))
  | writeFail hstage =>
    exact .inl (work_lt_of_reader hstage (reader_failHandshake c).1
      (by simp only [Stage.rank]; omega))
  | cutShort hstage =>
    exact .inl (work_lt_of_reader hstage (reader_failHandshake c).1 (by simp [Stage.rank]))
  | readPart hstage hread hlen =>
    have hlt := hread.length_lt (hgot _ hstage)
    left
    simp only [work, hstage, Stage.rank]
    omega
  | welcome hstage hread hlen hside hword =>
    have hlt := hread.length_lt (hgot _ hstage)
    left
    simp only [work, hstage, Stage.rank]
    omega
  | refuse hstage hread hlen hside hword =>
    have hlt := hread.length_lt (hgot _ hstage)
    left
    rw [work_of_reader (reader_failHandshake _).1]
    simp only [work, hstage, Stage.rank]
    omega
  | answer hstage hread hlen hside =>
    have hlt := hread.length_lt (hgot _ hstage)
    refine .inr ⟨hside, ⟨_, hstage⟩, ⟨_, rfl⟩, ?_⟩
    simp only [work, hstage, Stage.rank, Bytes.length_ofWord]
    omega
  | enter hstage => exact .inl (work_lt_of_reader hstage rfl (by simp [Stage.rank]))
  | enterLate hstage => exact .inl (work_lt_of_reader hstage rfl (by simp [Stage.rank]))
  | message hstage hdecode =>
    have hlt := Frame.length_lt_of_decode hdecode
    exact .inl (work_lt_of_reader hstage rfl (by simp only [Stage.rank]; omega))
  | fault hstage =>
    exact .inl (work_lt_of_reader hstage (reader_stopReading true c).1
      (by simp only [Stage.rank]; omega))
  | more hstage hdecode hpending =>
    have hpos : 0 < c.inlet.pending.length := List.length_pos_iff.mpr hpending
    left
    simp only [work, hstage, Stage.rank, List.length_append, List.length_nil]
    omega
  | streamEnd hstage =>
    exact .inl (work_lt_of_reader hstage (reader_stopReading _ c).1
      (by simp only [Stage.rank]; omega))
  | cancel hphase hstage =>
    rcases hstage with hs | ⟨unsent, hs⟩ | ⟨got, hs⟩
    · exact .inl (work_lt_of_reader hs rfl (by simp [Stage.rank]))
    · exact .inl (work_lt_of_reader hs rfl (by simp only [Stage.rank]; omega))
    · exact .inl (work_lt_of_reader hs rfl (by simp [Stage.rank]))
  | cancelReading hphase hstage =>
    exact .inl (work_lt_of_reader hstage rfl (by simp only [Stage.rank]; omega))
  | leave hstage => exact .inl (work_lt_of_reader hstage rfl (by simp [Stage.rank]))

/-- On a server every turn does. -/
theorem TaskMove.work_lt {t : Turn} {o : Outcome κ} (hsound : Sound c arrived es)
    (hasks : Asks c limit ch) (hmove : TaskMove c t o) : o.1.work < c.work := by
  refine (hmove.work_lt_or_answers hsound).resolve_right fun ⟨hside, _⟩ => ?_
  rw [hasks.side_eq] at hside
  cases hside

/-- The main task cannot take turn after turn for ever: there is a bound. -/
def ComesToRest (c : Connection κ) : Prop :=
  ∃ k, ∀ (ts : List Turn) (o : Outcome κ), c.run (ts.map .turn) = some o → ts.length ≤ k

/-- What every turn lowers bounds the number of turns. -/
theorem comesToRest_of_lt {I : Connection κ → Prop} {f : Connection κ → Nat}
    (hturn : ∀ c t o, I c → c.step (.turn t) = some o → I o.1 ∧ f o.1 < f c) (h : I c) :
    ComesToRest c := by
  refine ⟨f c, fun ts o hrun => ?_⟩
  induction ts generalizing c o with
  | nil => exact Nat.zero_le _
  | cons t ts ih =>
    obtain ⟨c', es₁, es₂, hstep, hrest, -⟩ :=
      Run.all_cons_eq_some_iff.mp (show Run.all Connection.step c _ = some (o.1, o.2) from hrun)
    obtain ⟨hnext, hlt⟩ := hturn c t _ h hstep
    exact (ih hnext _ hrest).trans_lt hlt

/-- **The main task comes to rest.** -/
theorem Sound.comesToRest (hsound : Sound c arrived es) (hasks : Asks c limit ch) :
    ComesToRest c := by
  refine comesToRest_of_lt (I := fun c => Asks c limit ch ∧ ∃ arrived es, Sound c arrived es)
    (f := work) ?_ ⟨hasks, arrived, es, hsound⟩
  rintro c t o ⟨hasks, arrived, es, hsound⟩ hstep
  exact ⟨⟨hasks.step hstep, _, _, hsound.step hstep⟩,
    TaskMove.work_lt hsound hasks (move_of_turn hstep)⟩

/-! ### Where it rests -/

/-- The main task can do nothing before something else happens. -/
def Resting (c : Connection κ) : Prop := ∀ t, c.turn t = none

/-- Where the main task of a server's connection can rest: it waits for bytes, for the lock, or it
does not exist. -/
theorem Resting.cases (h : Resting c) (hsound : Sound c arrived es) :
    c.stage = .absent ∨
      (∃ got, c.stage = .awaiting got ∧ c.inlet.pending = [] ∧ c.inlet.ending = none) ∨
      (∃ buf, c.stage = .reading buf ∧ (Frame.decode c.limit buf : Frame.Answer κ) = .ok none ∧
        c.inlet.pending = [] ∧ c.inlet.ending = none) ∨
      c.stage = .leaving ∨ c.stage = .finished := by
  cases hstage : c.stage with
  | absent => exact .inl rfl
  | starting => have := h .ready; simp [turn, hstage] at this
  | connecting => have := h .ready; simp [turn, hstage] at this
  | sending unsent => have := h .failed; simp [turn, hstage] at this
  | awaiting got =>
    have hready : c.readWord got = none := by simpa [turn, hstage] using h .ready
    refine .inr (.inl ⟨got, rfl, ?_⟩)
    unfold readWord at hready
    split at hready
    · next hpending => exact ⟨hpending, by simpa using hready⟩
    · cases hready
  | admitted =>
    have hchains := (hsound.hasWritten.of_early (by rw [hstage]; rfl)).2.2.1
    have hlock : c.isLocked = false := by simp [isLocked, hchains]
    have := h .ready
    simp [turn, hstage, hlock] at this
  | reading buf =>
    have hready : c.readFrames buf = none := by simpa [turn, hstage] using h .ready
    refine .inr (.inr (.inl ⟨buf, rfl, ?_⟩))
    unfold readFrames at hready
    split at hready
    · cases hready
    · cases hready
    · next hdecode =>
      split at hready
      · next hpending hending => exact ⟨hdecode, hpending, hending⟩
      · cases hready
      · split at hready <;> cases hready
      · cases hready
  | leaving => exact .inr (.inr (.inr (.inl rfl)))
  | finished => exact .inr (.inr (.inr (.inr rfl)))

/-- A task that waits for more of a frame rests. -/
theorem resting_of_reading {buf : List UInt8} (hstage : c.stage = .reading buf)
    (hdecode : (Frame.decode c.limit buf : Frame.Answer κ) = .ok none) (hinlet : c.inlet = {})
    (hphase : c.phase ≠ .closed) : Resting c := by
  have hclosed : c.isClosed = false := Bool.eq_false_iff.mpr (mt isClosed_iff.mp hphase)
  intro t
  cases t with
  | cancelled => simp [turn, hstage, hclosed]
  | ready => simp [turn, hstage, readFrames, hdecode, hinlet]
  | wrote n => simp [turn, hstage]
  | failed => simp [turn, hstage]
/-! ### The gate over every run -/

namespace ClosesOnlyBy

variable {p q : Action κ → Prop}

theorem mono (h : ClosesOnlyBy p c as) (hpq : ∀ a, p a → q a) : ClosesOnlyBy q c as :=
  fun pre a post c₁ es₁ o has hrun hstep hopen hclosed =>
    hpq a (h pre a post c₁ es₁ o has hrun hstep hopen hclosed)

/-- Where all actions are allowed to, those that close the connection are. -/
theorem of_forall (h : ∀ a ∈ as, p a) : ClosesOnlyBy p c as :=
  fun _ a _ _ _ _ has _ _ _ _ => h a (has ▸ List.mem_append_right _ List.mem_cons_self)

theorem of_append {bs : List (Action κ)} (h : ClosesOnlyBy p c (as ++ bs)) : ClosesOnlyBy p c as :=
  fun pre a post c₁ es₁ o has hrun hstep hopen hclosed =>
    h pre a (post ++ bs) c₁ es₁ o (by simp [has]) hrun hstep hopen hclosed

/-- Where the connection is not closed in the end, no step closed it. -/
theorem of_not_closed {o : Outcome κ} (hrun : c.run as = some o) (hopen : o.1.phase ≠ .closed) :
    ClosesOnlyBy p c as := by
  rintro pre a post c₁ es₁ o₁ rfl hpre hstep - hclosed
  obtain ⟨p₁, h₁, h₂⟩ := Option.bind_eq_some_iff.mp ((Run.all_append c pre (a :: post)).symm.trans hrun)
  obtain rfl : p₁ = (c₁, es₁) := Option.some.inj (h₁.symm.trans hpre)
  obtain ⟨o₂, h₂, ho⟩ := Option.map_eq_some_iff.mp h₂
  obtain ⟨c₂, e₁, e₂, hstep', hrest, -⟩ :=
    Run.all_cons_eq_some_iff.mp (show Run.all Connection.step c₁ _ = some (o₂.1, o₂.2) from h₂)
  obtain rfl : o₁ = (c₂, e₁) := Option.some.inj (hstep.symm.trans hstep')
  have hend : o₂.1.phase = .closed :=
    Run.all_invariant (I := fun c => c.phase = .closed) (fun _ _ _ h hs => closed_step hs h) hclosed
      hrest
  rw [← ho] at hopen
  exact absurd hend hopen

end ClosesOnlyBy

/-- What a run of a server's connection keeps that nobody disconnects. -/
theorem fate_run {o : Outcome κ} (hrun : (accepted limit ch).run as = some o) (habort : .abort ∉ as)
    (hlocal : ClosesOnlyBy (fun a => a.isDisconnect = false) (accepted limit ch) as) :
    Fate o.1 o.2 ∧ ((∃ id, .approve id ∈ as) → o.1.stage ≠ .absent) := by
  have hall := Run.all_history
    (I := fun c as es => Sound c (arrivals as) es ∧ Asks c limit ch ∧ Fate c es ∧
      ((∃ id, .approve id ∈ as) → c.stage ≠ .absent))
    ⟨sound_accepted limit ch, asks_accepted limit ch, ⟨fun _ => ⟨rfl, rfl, fun _ => rfl⟩, nofun,
      fun h => absurd rfl h⟩, fun ⟨id, hid⟩ => absurd hid List.not_mem_nil⟩
    ?_ hrun
  · exact hall.2.2
  intro pre a post c₁ es₁ c₂ es₂ has hpre hstep ⟨hsound, hasks, hfate, hstarted⟩
  have hne : a ≠ .abort := by
    rintro rfl
    exact habort (by rw [has]; simp)
  refine ⟨?_, hasks.step hstep, ?_, ?_⟩
  · rw [arrivals_append, arrivals_singleton]
    exact hsound.step hstep
  · exact hfate.step hsound hasks hne (hlocal pre a post c₁ es₁ _ has hpre hstep) hstep
  · rintro ⟨id, hid⟩
    rcases List.mem_append.mp hid with hid | hid
    · exact stage_ne_absent hstep (hstarted ⟨id, hid⟩)
    · obtain rfl := List.mem_singleton.mp hid
      cases move_of_step hstep with
      | approve _ hside hstage =>
        have hphase := (hfate.early (by rw [hstage]; rfl)).1
        simp [Connection.approve, isConnected, hphase, Phase.isLive]

/-- **The gate is shut** as long as the right answer has not arrived. -/
theorem shut_run {o : Outcome κ} (hrun : (accepted limit ch).run as = some o)
    (hanswer : (arrivals as).take handshakeSize ≠ Bytes.ofWord ch.expected) :
    o.1.phase ≠ .opened ∧ readerEvents o.2 = [] ∧ wrote o.2 <+: Bytes.ofWord ch.out := by
  have hsound := (sound_accepted limit ch).run hrun
  have hasks := (asks_accepted limit ch).run hrun
  have hnone : readerEvents o.2 = [] := by
    by_contra hopened
    exact hanswer (hsound.answered hasks hopened)
  refine ⟨fun hphase => hsound.readerEvents_of_opened hphase hnone, hnone, ?_⟩
  cases hsound.hasWritten with
  | before hphase hword =>
    rw [← hasks.out_eq]
    exact hword.isPrefix
  | after hstage hopened => exact absurd hnone hopened

/-- **A wrong answer is refused**, and so is one that is cut short. -/
theorem refused_run {o : Outcome κ} (hrun : (accepted limit ch).run as = some o)
    (habort : .abort ∉ as) (happroved : ∃ id, .approve id ∈ as)
    (hlocal : ClosesOnlyBy (fun a => a.isDisconnect = false) (accepted limit ch) as)
    (hanswer : (arrivals as).take handshakeSize ≠ Bytes.ofWord ch.expected)
    (hend : handshakeSize ≤ (arrivals as).length ∨ endings as ≠ []) (hrest : Resting o.1) :
    o.1.phase = .closed ∧ failures o.2 = 1 := by
  have hsound := (sound_accepted limit ch).run hrun
  obtain ⟨-, hnone, -⟩ := shut_run hrun hanswer
  obtain ⟨hfate, hstarted⟩ := fate_run hrun habort hlocal
  have hlate : o.1.stage ≠ .leaving ∧ ∀ buf, o.1.stage ≠ .reading buf := by
    refine ⟨fun hs => ?_, fun buf hs => ?_⟩
    · exact (hsound.hasWritten.of_late (.inr hs)).1 hnone
    · exact (hsound.hasWritten.of_late (.inl ⟨buf, hs⟩)).1 hnone
  rcases hrest.cases hsound with hs | ⟨got, hs, hpending, hending⟩ | ⟨buf, hs, -⟩ | hs | hs
  · exact absurd hs (hstarted happroved)
  · -- it waits for more of the answer, so neither has the answer come nor the stream ended
    obtain ⟨taken, harr, htaken⟩ := hsound.hasRead
    unfold Reader.Taken at htaken
    rw [show o.1.reader.stage = _ from hs] at htaken
    obtain ⟨rfl, hlen, -⟩ := htaken
    rw [hpending, List.append_nil] at harr
    rcases hend with hlong | hended
    · rw [harr] at hlong
      omega
    · rw [ending_run rfl hrun] at hending
      exact absurd (List.head?_eq_none_iff.mp hending) hended
  · exact absurd hs (hlate.2 buf)
  · exact absurd hs hlate.1
  · exact hfate.refused hs hnone

/-- What the application has been told: nothing, or that the connection opened and then messages
that the stream behind the word begins with. -/
theorem Sound.told (h : Sound c arrived es) :
    readerEvents es = [] ∨ ∃ ms, readerEvents es = .opened :: ms.map .received ∧
      ms <+: (Frame.drain c.limit (arrived.drop handshakeSize)).messages := by
  by_cases hnone : readerEvents es = []
  · exact .inl hnone
  · obtain ⟨taken, -, htaken⟩ := h.hasRead
    have hframed : readerEvents es = [] ∨ ∃ buf, c.reader.Framed taken es buf := htaken.finish
    obtain ⟨buf, -, body, ms, -, hevents, -⟩ := hframed.resolve_left hnone
    refine .inr ⟨ms, hevents, ?_⟩
    rw [← received_of_readerEvents hevents]
    exact h.hasRead.received_isPrefix

theorem undisturbed_run {o : Outcome κ} (hrun : (accepted limit ch).run as = some o)
    (habort : .abort ∉ as) (hlocal : ClosesOnlyBy (· = .turn .ready) (accepted limit ch) as) :
    Undisturbed o.1 (arrivals as) o.2 := by
  refine Run.all_history (I := fun c as es => Undisturbed c (arrivals as) es)
    (Undisturbed.of_early rfl) ?_ hrun
  intro pre a post c₁ es₁ c₂ es₂ has hpre hstep h₁
  have hne : a ≠ .abort := by
    rintro rfl
    exact habort (by rw [has]; simp)
  have hpreabort : .abort ∉ pre := fun hmem => habort (by rw [has]; simp [hmem])
  have hlocal₁ : ClosesOnlyBy (fun a => a.isDisconnect = false) (accepted limit ch) pre :=
    (has ▸ hlocal).of_append.mono (by rintro b rfl; rfl)
  have hfate := (fate_run hpre hpreabort hlocal₁).1
  rw [arrivals_append, arrivals_singleton]
  exact h₁.step ((sound_accepted limit ch).run hpre) ((asks_accepted limit ch).run hpre) hfate hne
    (hlocal pre a post c₁ es₁ _ has hpre hstep) hstep

/-- **The right answer is let in**: the application is told that the connection opened and then of
all messages that the stream behind the answer holds. -/
theorem admitted_run {o : Outcome κ} (hrun : (accepted limit ch).run as = some o)
    (habort : .abort ∉ as) (happroved : ∃ id, .approve id ∈ as)
    (hlocal : ClosesOnlyBy (· = .turn .ready) (accepted limit ch) as)
    (hanswer : (arrivals as).take handshakeSize = Bytes.ofWord ch.expected) (hrest : Resting o.1) :
    readerEvents o.2 = .opened ::
      (Frame.drain limit ((arrivals as).drop handshakeSize)).messages.map .received := by
  have hsound := (sound_accepted limit ch).run hrun
  have hasks := (asks_accepted limit ch).run hrun
  have hundisturbed := undisturbed_run hrun habort hlocal
  have hstarted := (fate_run hrun habort (hlocal.mono (by rintro a rfl; rfl))).2
  have hlong : handshakeSize ≤ (arrivals as).length := by
    have hlen := congrArg List.length hanswer
    rw [List.length_take, Bytes.length_ofWord] at hlen
    unfold handshakeSize at hlen ⊢
    omega
  rcases hrest.cases hsound with hs | ⟨got, hs, hpending, -⟩ | ⟨buf, hs, hdecode, hpending, -⟩ | hs | hs
  · exact absurd hs (hstarted happroved)
  · obtain ⟨taken, harr, htaken⟩ := hsound.hasRead
    unfold Reader.Taken at htaken
    rw [show o.1.reader.stage = _ from hs] at htaken
    obtain ⟨rfl, hlen, -⟩ := htaken
    rw [hpending, List.append_nil] at harr
    rw [harr] at hlong
    omega
  · rw [← hasks.limit_eq]
    exact Undisturbed.readerEvents_of_waiting hsound.hasRead hs hdecode hpending
  · rw [← hasks.limit_eq]
    exact (hundisturbed.complete (.inl hs)).readerEvents_eq
  · by_cases hnone : readerEvents o.2 = []
    · rcases hundisturbed.hopeless hs hnone with ⟨hshort, -⟩ | ⟨-, hwrong⟩
      · omega
      · exact absurd (hanswer.trans (by rw [hasks.expected_eq])) hwrong
    · rw [← hasks.limit_eq]
      exact (hundisturbed.complete (.inr ⟨hs, hnone⟩)).readerEvents_eq

end Parley.Connection

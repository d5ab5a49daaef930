import Parley.Proofs.Connection.Pipeline

/-!
# Parley.Proofs.Connection.Release — who lets go of the socket

The socket of a connection is held in a slot before the handshake, by the main task during it, and
afterwards by the main task, which reads, and in the slot of the writer.  Closing empties the slots,
except that a chain which holds the lock keeps the writer; then the main task, which reads frames as
long as the connection is open, takes the writer away when it ends (`Holding`).

Two steps defeat this (`strands`).  A handshake that ends after the connection was closed puts the
writer into its slot and leaves it there, and tasks that are dropped between the closing and the end of
the main task take nothing away any more.  `socket_release` says that a connection which is closed and
has no task left holds its writer if one of these steps was taken, and otherwise nothing of its socket;
`socket_leaked` shows both of them.
-/

namespace Parley.Connection

variable {κ : Type}

/-- A step after which nobody takes the writer of a closed connection away. -/
def strands (c : Connection κ) : Action κ → Bool
  | .turn .ready => c.isClosed && c.stage == .admitted
  | .abort => c.isClosed && c.writer.isSome
  | _ => false

/-- In these stages the main task will take the writer away. -/
def Stage.takesWriter : Stage → Bool
  | .reading _ | .leaving => true
  | _ => false

/-- In these stages the main task has something to do. -/
def Stage.isRunning : Stage → Bool
  | .absent | .finished => false
  | _ => true

theorem isClosed_of_strands {c : Connection κ} {a : Action κ} (h : c.strands a = true) :
    c.phase = .closed := by
  unfold strands at h
  split at h
  · exact isClosed_iff.mp (Bool.and_eq_true_iff.mp h).1
  · exact isClosed_iff.mp (Bool.and_eq_true_iff.mp h).1
  · cases h

/-- Who holds the socket of a connection; `stranded` says that a step has stranded the writer. -/
structure Holding (c : Connection κ) (stranded : Prop) : Prop where
  /-- The main task of a connection that has no socket yet opens one, unless it was dropped. -/
  opening : c.phase = .connecting → c.stage = .connecting ∨ c.stage = .finished
  /-- There is no writer before the connection opens. -/
  handshake : c.phase ≠ .opened → c.phase ≠ .closed → c.writer = none
  /-- A closed connection has no accepted socket. -/
  slot : c.phase = .closed → c.socket = false
  /-- A closed connection has a writer only if somebody will take it away or nobody can. -/
  writer : c.phase = .closed → c.writer ≠ none → c.stage.takesWriter = true ∨ stranded
  /-- Nobody can. -/
  left : stranded →
    c.phase = .closed ∧ c.writer ≠ none ∧ c.chains = [] ∧ c.stage.isRunning = false

/-- A chain of a connection that is not closed holds the lock: the main task reads frames. -/
theorem HasWritten.reading_of_locked [Kind κ] {c : Connection κ} {es : List (Event κ)}
    (h : HasWritten c es)
    (horder : Orderly c) (hphase : c.phase ≠ .closed) (hlock : c.isLocked = true) :
    ∃ buf, c.stage = .reading buf := by
  have hchains : c.chains ≠ [] := by
    intro hnone
    simp [isLocked, hnone] at hlock
  have hattended : c.attended = true := by
    by_contra hnot
    exact hchains (horder.dropped (Bool.eq_false_iff.mpr hnot)).2.2.1
  refine horder.opened ?_ hattended
  cases h with
  | before _ _ hnone => exact absurd hnone hchains
  | after _ _ _ hflow =>
    cases hflow with
    | ready hopened => exact hopened
    | writing hopened => exact hopened
    | dropped hdropped => cases hattended.symm.trans hdropped
    | closed hclosed => exact absurd hclosed hphase
    | closing hclosed => exact absurd hclosed hphase

namespace Holding

variable {c c' : Connection κ} {P : Prop}

theorem of_fresh (h : Fresh c) : Holding c False := by
  cases h with
  | accepted limit ch => exact ⟨nofun, fun _ _ => rfl, nofun, nofun, nofun⟩
  | outgoing limit => exact ⟨fun _ => .inl rfl, fun _ _ => rfl, nofun, nofun, nofun⟩

/-- While a task runs, nothing is stranded. -/
theorem not_of_running (h : Holding c P) (hrunning : c.stage.isRunning = true) : ¬ P := by
  intro hp
  have hidle := (h.left hp).2.2.2
  rw [hrunning] at hidle
  cases hidle

theorem not_of_chain (h : Holding c P) (hchains : c.chains ≠ []) : ¬ P := fun hp =>
  hchains (h.left hp).2.2.1

theorem not_of_not_closed (h : Holding c P) (hphase : c.phase ≠ .closed) : ¬ P := fun hp =>
  hphase (h.left hp).1

/-- Before the main task reads frames, a connection has no writer, unless it is open. -/
theorem writer_eq_none (h : Holding c P) (hopened : c.phase ≠ .opened)
    (hstage : c.stage.takesWriter = false) (hp : ¬ P) : c.writer = none := by
  by_cases hclosed : c.phase = .closed
  · by_contra hsome
    rcases h.writer hclosed hsome with htakes | hp'
    · rw [hstage] at htakes
      cases htakes
    · exact hp hp'
  · exact h.handshake hopened hclosed

/-- What does not touch the socket changes nothing. -/
theorem frame (h : Holding c P) (hphase : c'.phase = c.phase) (hstage : c'.stage = c.stage)
    (hsocket : c'.socket = c.socket) (hwriter : c'.writer = c.writer)
    (hchains : c'.chains = c.chains) : Holding c' P where
  opening := by rw [hphase, hstage]; exact h.opening
  handshake := by rw [hphase, hwriter]; exact h.handshake
  slot := by rw [hphase, hsocket]; exact h.slot
  writer := by rw [hphase, hwriter, hstage]; exact h.writer
  left := by rw [hphase, hwriter, hchains, hstage]; exact h.left

/-- Where a task runs, only what becomes of a closed connection matters. -/
theorem of_running (hp : ¬ P) (hopening : c.phase ≠ .connecting)
    (hhandshake : c.phase ≠ .opened → c.phase ≠ .closed → c.writer = none)
    (hslot : c.phase = .closed → c.socket = false)
    (hwriter : c.phase = .closed → c.writer ≠ none → c.stage.takesWriter = true) : Holding c P where
  opening hphase := absurd hphase hopening
  handshake := hhandshake
  slot := hslot
  writer hphase hsome := .inl (hwriter hphase hsome)
  left hp' := absurd hp' hp

/-- Closing leaves a writer behind only if a chain holds the lock. -/
theorem close (h : Holding c P)
    (hlock : c.phase ≠ .closed → c.isLocked = true → c.stage.takesWriter = true) :
    Holding c.close.1 P := by
  rcases close_cases c with ⟨-, hsame⟩ | ⟨hphase, hshut, -⟩
  · rw [hsame]
    exact h
  · rw [hshut]
    refine of_running (h.not_of_not_closed hphase) nofun (fun _ hnot => absurd rfl hnot)
      (fun _ => rfl) fun _ hsome => ?_
    refine hlock hphase (by_contra fun hfree => hsome ?_)
    exact if_neg hfree

/-- A connection without a writer has none when it is closed. -/
theorem close_of_none (hp : ¬ P) (hslot : c.phase = .closed → c.socket = false)
    (hnone : c.writer = none) : Holding c.close.1 P := by
  rcases close_cases c with ⟨hphase, hsame⟩ | ⟨-, hshut, -⟩
  · rw [hsame]
    exact of_running hp (by rw [hphase]; nofun) (fun _ _ => hnone) hslot fun _ hsome =>
      absurd hnone hsome
  · rw [hshut]
    refine of_running hp nofun (fun _ hnot => absurd rfl hnot) (fun _ => rfl) fun _ hsome => ?_
    refine absurd ?_ hsome
    show (if c.isLocked then c.writer else none) = none
    rw [hnone, ite_self]

/-- The main task goes on with the handshake, or ends before it reads frames: there is no writer. -/
theorem goOn (h : Holding c P) (hrunning : c.stage.isRunning = true) (hphase : c'.phase = c.phase)
    (hsocket : c'.socket = c.socket ∨ c'.socket = false) (hwriter : c'.writer = none)
    (hopening : c.phase ≠ .connecting) : Holding c' P := by
  refine of_running (h.not_of_running hrunning) (by rwa [hphase]) (fun _ _ => hwriter) ?_
    fun _ hsome => absurd hwriter hsome
  intro hclosed
  rcases hsocket with hsame | hnone
  · exact hsame.trans (h.slot (hphase ▸ hclosed))
  · exact hnone

/-- Before the main task reads frames, only the opening of a socket is left to do in this phase. -/
theorem not_connecting (h : Holding c P) (hrunning : c.stage.isRunning = true)
    (hstage : c.stage ≠ .connecting) : c.phase ≠ .connecting := by
  intro hphase
  rcases h.opening hphase with hs | hs
  · exact hstage hs
  · rw [hs] at hrunning
    cases hrunning

/-- A main task that reads frames goes on reading, or stops and will take the writer away. -/
theorem readOn (h : Holding c P) (hstage : c.stage.takesWriter = true)
    (hstage' : c'.stage.takesWriter = true) (hphase : c'.phase = c.phase)
    (hsocket : c'.socket = c.socket) (hwriter : c'.writer = c.writer) : Holding c' P := by
  have hrunning : c.stage.isRunning = true := by
    cases hs : c.stage with
    | absent => rw [hs] at hstage; cases hstage
    | finished => rw [hs] at hstage; cases hstage
    | _ => rfl
  refine of_running (h.not_of_running hrunning) ?_ ?_ ?_ fun _ _ => hstage'
  · rw [hphase]
    refine h.not_connecting hrunning fun hs => ?_
    rw [hs] at hstage
    cases hstage
  · rw [hphase, hwriter]
    exact h.handshake
  · rw [hphase, hsocket]
    exact h.slot

/-- A chain that fails takes the writer with it. -/
theorem failWriting {i : Nat} (h : Holding c P) (hchains : c.chains ≠ []) :
    Holding (c.failWriting i).1 P :=
  close_of_none (h.not_of_chain hchains) h.slot rfl

variable [Kind κ]

/-! ### Moves that strand nothing -/

theorem taskMove {t : Turn} {o : Outcome κ} (h : Holding c P) (horder : Orderly c)
    (hnot : c.strands (.turn t) = false) (hmove : TaskMove c t o) : Holding o.1 P := by
  have hattended := horder.attended_of_taskMove hmove
  -- Until the main task reads frames there is no writer, so it may close or end as it likes.
  have hnone : ∀ {stage : Stage}, c.stage = stage → stage.isRunning = true →
      stage.takesWriter = false → c.writer = none := by
    rintro stage rfl hrunning htakes
    refine h.writer_eq_none (horder.not_opened hattended fun buf hstage => ?_) htakes
      (h.not_of_running hrunning)
    rw [hstage] at htakes
    cases htakes
  have hgoOn : ∀ {stage : Stage} (c' : Connection κ), c.stage = stage → stage.isRunning = true →
      stage.takesWriter = false → c.phase ≠ .connecting → c'.phase = c.phase →
      (c'.socket = c.socket ∨ c'.socket = false) → c'.writer = c.writer → Holding c' P := by
    rintro stage c' rfl hrunning htakes hopening hphase hsocket hwriter
    exact h.goOn hrunning hphase hsocket (hwriter.trans (hnone rfl hrunning htakes)) hopening
  have hfails : ∀ {stage : Stage} (c' : Connection κ), c.stage = stage → stage.isRunning = true →
      stage.takesWriter = false → c'.phase = c.phase → c'.socket = c.socket →
      c'.writer = c.writer → Holding c'.close.1 P := by
    rintro stage c' rfl hrunning htakes hphase hsocket hwriter
    exact close_of_none (h.not_of_running hrunning)
      (fun hclosed => hsocket.trans (h.slot (hphase ▸ hclosed)))
      (hwriter.trans (hnone rfl hrunning htakes))
  have hopening : ∀ {stage : Stage}, c.stage = stage → stage.isRunning = true →
      stage ≠ .connecting → c.phase ≠ .connecting := by
    rintro stage rfl hrunning hne
    exact h.not_connecting hrunning hne
  have hstops : ∀ {buf : List UInt8} {errored : Bool}, c.stage = .reading buf →
      Holding (c.stopReading errored).1 P := by
    intro buf errored hstage
    have hleaving : Holding { c with stage := .leaving } P :=
      h.readOn (by rw [hstage]; rfl) rfl rfl rfl rfl
    exact hleaving.close fun _ _ => rfl
  cases hmove with
  | begin hstage hsocket =>
    exact hgoOn _ hstage rfl rfl (hopening hstage rfl nofun) rfl (.inr rfl) rfl
  | beginLate hstage hsocket =>
    exact hgoOn _ hstage rfl rfl (hopening hstage rfl nofun) rfl (.inl rfl) rfl
  | attach hstage hphase =>
    have hwriter := hnone hstage rfl rfl
    exact of_running (h.not_of_running (by rw [hstage]; rfl)) nofun (fun _ _ => hwriter) nofun nofun
  | attachLate hstage hphase => exact hgoOn _ hstage rfl rfl hphase rfl (.inl rfl) rfl
  | giveUp hstage => exact hfails _ hstage rfl rfl rfl rfl rfl
  | writePart hstage hn hlt => exact hgoOn _ hstage rfl rfl (hopening hstage rfl nofun) rfl (.inl rfl) rfl
  | writeRest hstage hside => exact hgoOn _ hstage rfl rfl (hopening hstage rfl nofun) rfl (.inl rfl) rfl
  | writeAnswer hstage hside => exact hgoOn _ hstage rfl rfl (hopening hstage rfl nofun) rfl (.inl rfl) rfl
  | writeFail hstage => rw [failHandshake_eq]; exact hfails _ hstage rfl rfl rfl rfl rfl
  | cutShort hstage hpending hending =>
    rw [failHandshake_eq]; exact hfails _ hstage rfl rfl rfl rfl rfl
  | readPart hstage hread hlen => exact hgoOn _ hstage rfl rfl (hopening hstage rfl nofun) rfl (.inl rfl) rfl
  | welcome hstage hread hlen hside hword =>
    exact hgoOn _ hstage rfl rfl (hopening hstage rfl nofun) rfl (.inl rfl) rfl
  | refuse hstage hread hlen hside hword =>
    rw [failHandshake_eq]; exact hfails _ hstage rfl rfl rfl rfl rfl
  | answer hstage hread hlen hside =>
    exact hgoOn _ hstage rfl rfl (hopening hstage rfl nofun) rfl (.inl rfl) rfl
  | enter hstage hlock hphase =>
    exact of_running (h.not_of_running (by rw [hstage]; rfl)) nofun (fun hnot => absurd rfl hnot)
      nofun nofun
  | enterLate hstage hlock hphase =>
    -- The connection is closed here, and this is one of the two steps that strand the writer.
    have hclosed : c.phase = .closed := by
      have hconnecting := hopening hstage rfl nofun
      have hopened := horder.not_opened hattended fun buf hs => by cases hstage.symm.trans hs
      cases hp : c.phase with
      | connecting => exact absurd hp hconnecting
      | validating => exact absurd hp hphase
      | opened => exact absurd hp hopened
      | closed => rfl
    simp [strands, isClosed, hclosed, hstage] at hnot
  | message hstage hdecode => exact h.readOn (by rw [hstage]; rfl) rfl rfl rfl rfl
  | fault hstage hdecode => exact hstops hstage
  | more hstage hdecode hpending => exact h.readOn (by rw [hstage]; rfl) rfl rfl rfl rfl
  | streamEnd hstage hdecode hpending hending => exact hstops hstage
  | cancel hphase hstage =>
    have hlive : c.phase ≠ .connecting := by simp [hphase]
    rcases hstage with hs | ⟨unsent, hs⟩ | ⟨got, hs⟩
    · exact hgoOn _ hs rfl rfl hlive rfl (.inl rfl) rfl
    · exact hgoOn _ hs rfl rfl hlive rfl (.inl rfl) rfl
    · exact hgoOn _ hs rfl rfl hlive rfl (.inl rfl) rfl
  | cancelReading hphase hstage => exact h.readOn (by rw [hstage]; rfl) rfl rfl rfl rfl
  | leave hstage hlock =>
    have hrunning : c.stage.isRunning = true := by rw [hstage]; rfl
    exact h.goOn hrunning rfl (.inl rfl) rfl (h.not_connecting hrunning (by simp [hstage]))

theorem proceeds {i : Nat} {o : Outcome κ} (h : Holding c P) (hchains : c.chains ≠ [])
    (hnext : Proceeds i c o) : Holding o.1 P := by
  have hp := h.not_of_chain hchains
  cases hnext with
  | starts hqueue hwriter hlen =>
    refine ⟨h.opening, fun hopened hclosed => ?_, h.slot, fun hclosed _ => ?_, fun hp' => absurd hp' hp⟩
    · cases hwriter.symm.trans (h.handshake hopened hclosed)
    · exact h.writer hclosed (by rw [hwriter]; nofun)
  | refuses hqueue hwriter hlen => exact h.failWriting hchains
  | ends hend => exact ⟨h.opening, h.handshake, h.slot, h.writer, fun hp' => absurd hp' hp⟩

theorem chainMove {i : Nat} {t : Turn} {o : Outcome κ} (h : Holding c P)
    (hmove : ChainMove i c t o) : Holding o.1 P := by
  have hchains : ∀ {chain : Chain κ}, c.chains[i]? = some chain → c.chains ≠ [] := by
    intro chain hchain hnone
    rw [hnone] at hchain
    cases hchain
  -- A chain that writes has a writer, and leaves one.
  have hwrites : ∀ {unsent left : List UInt8} {queue : Deque (Message κ)}, c.chains ≠ [] →
      c.writer = some unsent → Holding { c with writer := some left, outbound := queue } P := by
    intro unsent left queue hsome hwriter
    refine ⟨h.opening, fun hopened hclosed => ?_, h.slot, fun hclosed _ => ?_,
      fun hp => absurd hp (h.not_of_chain hsome)⟩
    · cases hwriter.symm.trans (h.handshake hopened hclosed)
    · exact h.writer hclosed (by rw [hwriter]; nofun)
  cases hmove with
  | locks hchain hlock hnext => exact h.proceeds (hchains hchain) hnext
  | writePart hchain hwriter hn hlt => exact hwrites (hchains hchain) hwriter
  | writeRest hchain hwriter hnext =>
    have hpopped := (hwrites (hchains hchain) hwriter).proceeds (hchains hchain) hnext
    exact hpopped
  | writeFail hchain => exact h.failWriting (hchains hchain)
  | cancel hchain hphase =>
    exact ⟨h.opening, h.handshake, h.slot, h.writer,
      fun hp => absurd hp (h.not_of_chain (hchains hchain))⟩

/-! ### Steps -/

variable {es : List (Event κ)}

theorem step {a : Action κ} {o : Outcome κ} (h : Holding c P) (horder : Orderly c)
    (hwritten : HasWritten c es) (hnot : c.strands a = false) (hstep : c.step a = some o) :
    Holding o.1 P := by
  cases move_of_step hstep with
  | send thread m =>
    show Holding (c.send thread m) P
    unfold Connection.send
    split
    · exact h
    · cases thread with
      | application => exact h.frame rfl rfl rfl rfl rfl
      | reactor => exact h.frame rfl rfl rfl rfl rfl
  | disconnect thread =>
    refine h.close fun hphase hlock => ?_
    obtain ⟨buf, hstage⟩ := hwritten.reading_of_locked horder hphase hlock
    rw [hstage]
    rfl
  | approve id hside hstage hattended =>
    show Holding (c.approve id) P
    unfold Connection.approve
    split
    · next hlive =>
      have hphase : c.phase ≠ .closed := fun hclosed => by
        simp [isConnected, hclosed, Phase.isLive] at hlive
      refine of_running (h.not_of_not_closed hphase) (fun hconnecting => ?_) h.handshake
        (fun hclosed => absurd hclosed hphase) fun hclosed => absurd hclosed hphase
      simp [isConnected, show c.phase = _ from hconnecting, Phase.isLive] at hlive
    · exact h
  | abort =>
    have hfree : c.phase = .closed → c.writer = none := fun hclosed => by
      simpa [strands, isClosed, hclosed] using hnot
    refine ⟨fun hphase => .inr ?_, h.handshake, h.slot,
      fun hclosed hsome => absurd (hfree hclosed) hsome,
      fun hp => absurd (hfree (h.left hp).1) (h.left hp).2.1⟩
    refine if_neg fun habsent => ?_
    rcases h.opening hphase with hs | hs
    · cases habsent.symm.trans hs
    · cases habsent.symm.trans hs
  | arrive bytes hending => exact h.frame rfl rfl rfl rfl rfl
  | expire ending hending => exact h.frame rfl rfl rfl rfl rfl
  | @refuse thread m rest hposted hphase =>
    cases thread with
    | application => exact h.frame rfl rfl rfl rfl rfl
    | reactor => exact h.frame rfl rfl rfl rfl rfl
  | @enqueue thread m rest hposted hphase =>
    have hp := h.not_of_not_closed hphase
    cases thread with
    | application => exact ⟨h.opening, h.handshake, h.slot, h.writer, fun hp' => absurd hp' hp⟩
    | reactor => exact ⟨h.opening, h.handshake, h.slot, h.writer, fun hp' => absurd hp' hp⟩
  | task hmove => exact h.taskMove horder hnot hmove
  | chain hmove => exact h.chainMove hmove

/-- A step that strands the writer leaves nobody who could take it away. -/
theorem strand {a : Action κ} {o : Outcome κ} (h : Holding c P) (hwritten : HasWritten c es)
    (hstrands : c.strands a = true) (hstep : c.step a = some o) : Holding o.1 True := by
  have hclosed := isClosed_of_strands hstrands
  unfold strands at hstrands
  split at hstrands
  · have hstage : c.stage = .admitted := beq_iff_eq.mp (Bool.and_eq_true_iff.mp hstrands).2
    obtain ⟨-, -, hchains, -⟩ := hwritten.of_early (by rw [hstage]; rfl)
    simp only [Connection.step, turn, hstage] at hstep
    split at hstep
    · cases hstep
    · simp only [enter, hclosed, Option.some.injEq] at hstep
      subst hstep
      exact ⟨fun hphase => (by cases hphase), fun _ hnot => absurd rfl hnot, fun _ => h.slot hclosed,
        fun _ _ => .inr trivial, fun _ => ⟨rfl, Option.some_ne_none _, hchains, rfl⟩⟩
  · have hsome : c.writer ≠ none := Option.isSome_iff_ne_none.mp (Bool.and_eq_true_iff.mp hstrands).2
    cases hstep
    refine ⟨fun hphase => (by cases hclosed.symm.trans hphase), h.handshake, h.slot,
      fun _ _ => .inr trivial, fun _ => ⟨hclosed, hsome, rfl, ?_⟩⟩
    show (if c.stage = .absent then Stage.absent else .finished).isRunning = false
    split
    · rfl
    · rfl
  · cases hstrands

end Holding

/-! ### Runs -/

variable [Kind κ]

/-- A step of the run strands the writer. -/
def Stranded (c₀ : Connection κ) (as : List (Action κ)) : Prop :=
  ∃ pre a post c es, as = pre ++ a :: post ∧ c₀.run pre = some (c, es) ∧ c.strands a = true

theorem stranded_concat {c₀ c : Connection κ} {as : List (Action κ)} {a : Action κ}
    {es : List (Event κ)} (hrun : c₀.run as = some (c, es)) :
    Stranded c₀ (as ++ [a]) ↔ Stranded c₀ as ∨ c.strands a = true := by
  constructor
  · rintro ⟨pre, b, post, c₁, es₁, hsplit, hpre, hstrands⟩
    rcases List.eq_nil_or_concat post with rfl | ⟨post', x, rfl⟩
    · obtain ⟨rfl, hb⟩ := List.append_inj' hsplit rfl
      cases hb
      cases hrun.symm.trans hpre
      exact .inr hstrands
    · have hsplit' : as ++ [a] = (pre ++ b :: post') ++ [x] := by rw [hsplit]; simp
      obtain ⟨rfl, -⟩ := List.append_inj' hsplit' rfl
      exact .inl ⟨pre, b, post', c₁, es₁, rfl, hpre, hstrands⟩
  · rintro (⟨pre, b, post, c₁, es₁, rfl, hpre, hstrands⟩ | hstrands)
    · exact ⟨pre, b, post ++ [a], c₁, es₁, by simp, hpre, hstrands⟩
    · exact ⟨as, a, [], c, es, rfl, hrun, hstrands⟩

theorem holding_run {c₀ c : Connection κ} {as : List (Action κ)} {es : List (Event κ)}
    (hfresh : Fresh c₀) (hrun : c₀.run as = some (c, es)) : Holding c (Stranded c₀ as) := by
  have hnone : ¬ Stranded c₀ [] := by
    rintro ⟨pre, a, post, c, es, hsplit, -⟩
    simp at hsplit
  refine Run.all_history (I := fun c as _ => Holding c (Stranded c₀ as)) ?_ ?_ hrun
  · rw [eq_false hnone]
    exact .of_fresh hfresh
  · intro pre a post c₁ es₁ c₂ es₂ _ hpre hstep h₁
    have hsound := hfresh.sound.run hpre
    rw [stranded_concat hpre]
    cases hstrands : c₁.strands a with
    | false =>
      have h₂ := h₁.step hsound.orderly hsound.hasWritten hstrands hstep
      simpa using h₂
    | true =>
      have h₂ := h₁.strand hsound.hasWritten hstrands hstep
      simpa using h₂

/-- **A connection lets go of its socket.**  When a connection is closed and none of its tasks is
left, whether they ended or were dropped, it holds no accepted socket and nobody reads from it; and it
still holds the writing direction exactly if a step of its life has stranded the writer: its handshake
ended well after the closing, or the tasks were dropped after the closing and before the writer was
taken away. -/
theorem socket_release {c₀ c : Connection κ} {as : List (Action κ)} {es : List (Event κ)}
    (hfresh : Fresh c₀) (hrun : c₀.run as = some (c, es)) (hclosed : c.phase = .closed)
    (hidle : c.isIdle = true) :
    c.socket = false ∧ c.holdsReading = false ∧ (c.writer = none ↔ ¬ Stranded c₀ as) ∧
      (c.holdsWriting = true ↔ Stranded c₀ as) := by
  have hholding := holding_run hfresh hrun
  have hsocket := hholding.slot hclosed
  have hstage : c.stage = .absent ∨ c.stage = .finished := by
    simp only [isIdle, Bool.and_eq_true, Bool.or_eq_true, beq_iff_eq] at hidle
    exact hidle.1.1.1
  have hwriter : c.writer = none ↔ ¬ Stranded c₀ as := by
    refine ⟨fun hnone hstranded => (hholding.left hstranded).2.1 hnone, fun hnot => ?_⟩
    by_contra hsome
    rcases hholding.writer hclosed hsome with htakes | hstranded
    · rcases hstage with hs | hs
      · rw [hs] at htakes; cases htakes
      · rw [hs] at htakes; cases htakes
    · exact hnot hstranded
  have hreading : c.holdsReading = false ∧ c.holdsWriting = c.writer.isSome := by
    rcases hstage with hs | hs
    · simp [holdsReading, holdsWriting, hsocket, hs]
    · simp [holdsReading, holdsWriting, hsocket, hs]
  refine ⟨hsocket, hreading.1, hwriter, ?_⟩
  rw [hreading.2, Option.isSome_iff_ne_none, Ne, hwriter, not_not]

/-- A server's connection up to the answer of the client, which has arrived. -/
def answered (c : Connection GameTag) : List (Action GameTag) :=
  [.approve 1, .turn .ready, .turn (.wrote 8), .arrive (Bytes.ofWord c.expected), .turn .ready]

/-- The connection is closed while a chain is writing, so the chain keeps the writer and the main task
takes it away in the end. -/
theorem socket_release_goodbye :
    let m : Message GameTag := ⟨⟨.chat, 2⟩, [7, 8], rfl⟩
    let c₀ : Connection GameTag := accepted 2 (.ofWord 0)
    let as : List (Action GameTag) := answered c₀ ++
      [.turn .ready, .perform .application (.send m), .takeUp .application, .chain 0 .ready,
        .perform .application .disconnect, .turn .cancelled, .chain 0 .cancelled, .turn .ready]
    ∃ c es, Fresh c₀ ∧ c₀.run as = some (c, es) ∧ c.phase = .closed ∧ c.isIdle = true ∧
      ¬ Stranded c₀ as ∧ c.socket = false ∧ c.holdsReading = false ∧ c.writer = none := by
  intro m c₀ as
  have hfresh : Fresh c₀ := .accepted 2 (.ofWord 0)
  have hruns : (c₀.run as).any (fun o => o.1.isClosed && o.1.isIdle && o.1.writer.isNone) = true := by
    decide +kernel
  obtain ⟨⟨c, es⟩, hrun, hlast⟩ := (Option.any_eq_true _ _).mp hruns
  simp only [Bool.and_eq_true, Option.isNone_iff_eq_none] at hlast
  obtain ⟨⟨hclosed, hidle⟩, hnone⟩ := hlast
  have hclosed := isClosed_iff.mp hclosed
  obtain ⟨hsocket, hreading, hwriter, -⟩ := socket_release hfresh hrun hclosed hidle
  exact ⟨c, es, hfresh, hrun, hclosed, hidle, hwriter.mp hnone, hsocket, hreading, hnone⟩

/-- **A closed connection keeps its writer for good.**  The application disconnects a client whose right
answer has just been read: the main task still puts the writer into its slot.  Or it disconnects a
client while a chain is writing, and the thread of the tasks ends before they notice.  Either way
nothing is left to run, and the other end never sees the end of the stream. -/
theorem socket_leaked :
    let m : Message GameTag := ⟨⟨.chat, 2⟩, [7, 8], rfl⟩
    let c₀ : Connection GameTag := accepted 2 (.ofWord 0)
    let as : List (Action GameTag) := answered c₀ ++
      [.perform .application .disconnect, .turn .ready]
    let bs : List (Action GameTag) := answered c₀ ++
      [.turn .ready, .perform .application (.send m), .takeUp .application, .chain 0 .ready,
        .perform .application .disconnect, .abort]
    (∃ c es, Fresh c₀ ∧ c₀.run as = some (c, es) ∧ c.phase = .closed ∧ c.isIdle = true ∧
      c.attended = true ∧ c.holdsWriting = true) ∧
    ∃ c es, Fresh c₀ ∧ c₀.run bs = some (c, es) ∧ c.phase = .closed ∧ c.isIdle = true ∧
      c.holdsWriting = true := by
  intro m c₀ as bs
  have hlate : (c₀.run as).any (fun o =>
      o.1.isClosed && o.1.isIdle && o.1.attended && o.1.holdsWriting) = true := by
    decide +kernel
  have hdropped : (c₀.run bs).any (fun o =>
      o.1.isClosed && o.1.isIdle && o.1.holdsWriting) = true := by
    decide +kernel
  obtain ⟨⟨c, es⟩, hrun, hlast⟩ := (Option.any_eq_true _ _).mp hlate
  obtain ⟨⟨c', es'⟩, hrun', hlast'⟩ := (Option.any_eq_true _ _).mp hdropped
  simp only [Bool.and_eq_true] at hlast hlast'
  obtain ⟨⟨⟨hclosed, hidle⟩, hattended⟩, hholds⟩ := hlast
  obtain ⟨⟨hclosed', hidle'⟩, hholds'⟩ := hlast'
  exact ⟨⟨c, es, .accepted 2 (.ofWord 0), hrun, isClosed_iff.mp hclosed, hidle, hattended, hholds⟩,
    c', es', .accepted 2 (.ofWord 0), hrun', isClosed_iff.mp hclosed', hidle', hholds'⟩

end Parley.Connection

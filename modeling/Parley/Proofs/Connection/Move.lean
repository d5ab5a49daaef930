import Parley.Connection.Step
import Parley.Proofs.Decoding

/-!
# Parley.Proofs.Connection.Move — everything a step can do

`Move` lists what one step can make of a connection, one constructor for each branch with all the
conditions under which it is taken: the calls, the arrivals, the posted messages, the turns of the
main task (`TaskMove`) and the turns of a write chain (`ChainMove`).  `move_of_step` says that a step
is always one of them, so an invariant is proved by cases on the moves and no proof unfolds `step`.
-/

namespace Parley.Connection

variable {κ : Type}

/-! ### Posted messages by thread -/

/-- The messages a thread has posted that are not taken up yet. -/
def postedBy (c : Connection κ) : Thread → List (Message κ)
  | .application => c.posted
  | .reactor => c.postedByHooks

/-- The connection with other posted messages of a thread. -/
def withPosted (c : Connection κ) (ms : List (Message κ)) : Thread → Connection κ
  | .application => { c with posted := ms }
  | .reactor => { c with postedByHooks := ms }

variable [Kind κ]

/-! ### The main task -/

/-- Reading makes `word` of the bytes `got` of the other end's word and leaves `pending`. -/
structure ReadsWord (c : Connection κ) (got word pending : List UInt8) : Prop where
  some_pending : c.inlet.pending ≠ []
  word_eq : word = got ++ c.inlet.pending.take (handshakeSize - got.length)
  pending_eq : pending = c.inlet.pending.drop (handshakeSize - got.length)

/-- What a turn of the main task can do. -/
inductive TaskMove (c : Connection κ) : Turn → Outcome κ → Prop where
  /-- It takes the accepted socket. -/
  | begin (hstage : c.stage = .starting) (hsocket : c.socket = true) :
    TaskMove c .ready
      ({ c with socket := false, stage := .sending (Bytes.ofWord c.out) }, [.attempted])
  | beginLate (hstage : c.stage = .starting) (hsocket : c.socket = false) :
    TaskMove c .ready ({ c with stage := .finished }, [])
  /-- It has opened a socket. -/
  | attach (hstage : c.stage = .connecting) (hphase : c.phase = .connecting) :
    TaskMove c .ready
      ({ c with peerKnown := true, phase := .validating, stage := .awaiting [] },
        [.established, .attempted])
  | attachLate (hstage : c.stage = .connecting) (hphase : c.phase ≠ .connecting) :
    TaskMove c .ready ({ c with peerKnown := true, stage := .finished }, [])
  | giveUp (hstage : c.stage = .connecting) : TaskMove c .failed c.giveUp
  /-- It writes a part of its word, or the rest of it. -/
  | writePart {unsent : List UInt8} {n : Nat} (hstage : c.stage = .sending unsent) (hn : 0 < n)
    (hlt : n < unsent.length) :
    TaskMove c (.wrote n)
      ({ c with stage := .sending (unsent.drop n) }, [.wrote (unsent.take n)])
  | writeRest {unsent : List UInt8} (hstage : c.stage = .sending unsent)
    (hside : c.side = .server) :
    TaskMove c (.wrote unsent.length) ({ c with stage := .awaiting [] }, [.wrote unsent])
  | writeAnswer {unsent : List UInt8} (hstage : c.stage = .sending unsent)
    (hside : c.side = .client) :
    TaskMove c (.wrote unsent.length) ({ c with stage := .admitted }, [.wrote unsent, .succeeded])
  | writeFail {unsent : List UInt8} (hstage : c.stage = .sending unsent) :
    TaskMove c .failed c.failHandshake
  /-- The stream ends before the other end's word is complete. -/
  | cutShort {got : List UInt8} (hstage : c.stage = .awaiting got) (hpending : c.inlet.pending = [])
    (hending : c.inlet.ending ≠ none) : TaskMove c .ready c.failHandshake
  /-- It reads a part of the other end's word. -/
  | readPart {got word pending : List UInt8} (hstage : c.stage = .awaiting got)
    (hread : c.ReadsWord got word pending) (hlen : word.length ≠ handshakeSize) :
    TaskMove c .ready
      ({ c with inlet := { c.inlet with pending := pending }, stage := .awaiting word }, [])
  /-- It reads the rest of it: a server admits the client or not, a client answers. -/
  | welcome {got word pending : List UInt8} (hstage : c.stage = .awaiting got)
    (hread : c.ReadsWord got word pending) (hlen : word.length = handshakeSize)
    (hside : c.side = .server) (hword : Bytes.toWord word = c.expected) :
    TaskMove c .ready
      ({ c with
          inlet := { c.inlet with pending := pending }
          heard := Bytes.toWord word
          stage := .admitted }, [.succeeded])
  | refuse {got word pending : List UInt8} (hstage : c.stage = .awaiting got)
    (hread : c.ReadsWord got word pending) (hlen : word.length = handshakeSize)
    (hside : c.side = .server) (hword : Bytes.toWord word ≠ c.expected) :
    TaskMove c .ready
      (failHandshake
        { c with inlet := { c.inlet with pending := pending }, heard := Bytes.toWord word })
  | answer {got word pending : List UInt8} (hstage : c.stage = .awaiting got)
    (hread : c.ReadsWord got word pending) (hlen : word.length = handshakeSize)
    (hside : c.side = .client) :
    TaskMove c .ready
      ({ c with
          inlet := { c.inlet with pending := pending }
          heard := Bytes.toWord word
          out := scramble (Bytes.toWord word)
          stage := .sending (Bytes.ofWord (scramble (Bytes.toWord word))) }, [])
  /-- The handshake is done. -/
  | enter (hstage : c.stage = .admitted) (hlock : c.isLocked = false)
    (hphase : c.phase = .validating) :
    TaskMove c .ready
      ({ c with
          writer := some []
          phase := .opened
          stage := .reading []
          chains := if c.outbound.isEmpty then c.chains else c.chains ++ [.waiting] }, [.opened])
  | enterLate (hstage : c.stage = .admitted) (hlock : c.isLocked = false)
    (hphase : c.phase ≠ .validating) :
    TaskMove c .ready ({ c with writer := some [], stage := .finished }, [])
  /-- It reads frames. -/
  | message {buf rest : List UInt8} {m : Message κ} (hstage : c.stage = .reading buf)
    (hdecode : Frame.decode c.limit buf = .ok (some (m, rest))) :
    TaskMove c .ready ({ c with stage := .reading rest }, [.received m])
  | fault {buf : List UInt8} {e : Fault} (hstage : c.stage = .reading buf)
    (hdecode : (Frame.decode c.limit buf : Frame.Answer κ) = .error e) :
    TaskMove c .ready (c.stopReading true)
  | more {buf : List UInt8} (hstage : c.stage = .reading buf)
    (hdecode : (Frame.decode c.limit buf : Frame.Answer κ) = .ok none)
    (hpending : c.inlet.pending ≠ []) :
    TaskMove c .ready
      ({ c with
          stage := .reading (buf ++ c.inlet.pending)
          inlet := { c.inlet with pending := [] } }, [])
  /-- The stream ends: badly, inside a frame, or between frames. -/
  | streamEnd {buf : List UInt8} {ending : Ending} (hstage : c.stage = .reading buf)
    (hdecode : (Frame.decode c.limit buf : Frame.Answer κ) = .ok none)
    (hpending : c.inlet.pending = []) (hending : c.inlet.ending = some ending) :
    TaskMove c .ready (c.stopReading (ending == .broken || !buf.isEmpty))
  /-- It notices that the connection was closed. -/
  | cancel (hphase : c.phase = .closed)
    (hstage : c.stage = .connecting ∨ (∃ unsent, c.stage = .sending unsent) ∨
      ∃ got, c.stage = .awaiting got) :
    TaskMove c .cancelled ({ c with stage := .finished }, [])
  | cancelReading {buf : List UInt8} (hphase : c.phase = .closed)
    (hstage : c.stage = .reading buf) :
    TaskMove c .cancelled ({ c with stage := .leaving }, [])
  /-- It takes the writer away. -/
  | leave (hstage : c.stage = .leaving) (hlock : c.isLocked = false) :
    TaskMove c .ready ({ c with stage := .finished, writer := none }, [])

/-! ### Write chains -/

/-- What a chain that has the lock can do about the next message. -/
inductive Proceeds (i : Nat) (c : Connection κ) : Outcome κ → Prop where
  | starts {m : Message κ} {unsent : List UInt8} (hqueue : c.outbound.toList.head? = some m)
    (hwriter : c.writer = some unsent) (hlen : m.body.length ≤ c.limit) :
    Proceeds i c
      ({ c with
          writer := some (unsent ++ Frame.bytes m)
          chains := c.chains.set i (.writing m) }, [])
  | refuses {m : Message κ} {unsent : List UInt8} (hqueue : c.outbound.toList.head? = some m)
    (hwriter : c.writer = some unsent) (hlen : c.limit < m.body.length) :
    Proceeds i c (c.failWriting i)
  | ends (h : c.outbound.toList = [] ∨ c.writer = none) :
    Proceeds i c ({ c with chains := c.chains.eraseIdx i }, [])

/-- What a turn of the `i`-th chain can do. -/
inductive ChainMove (i : Nat) (c : Connection κ) : Turn → Outcome κ → Prop where
  /-- It gets the lock. -/
  | locks {o : Outcome κ} (hchain : c.chains[i]? = some .waiting) (hlock : c.isLocked = false)
    (hnext : Proceeds i c o) : ChainMove i c .ready o
  /-- It writes a part of a frame, or the rest of it. -/
  | writePart {m : Message κ} {unsent : List UInt8} {n : Nat}
    (hchain : c.chains[i]? = some (.writing m)) (hwriter : c.writer = some unsent) (hn : 0 < n)
    (hlt : n < unsent.length) :
    ChainMove i c (.wrote n)
      ({ c with writer := some (unsent.drop n) }, [.wrote (unsent.take n)])
  | writeRest {m : Message κ} {unsent : List UInt8} {o : Outcome κ}
    (hchain : c.chains[i]? = some (.writing m)) (hwriter : c.writer = some unsent)
    (hnext : Proceeds i { c with writer := some [], outbound := c.outbound.dropFront } o) :
    ChainMove i c (.wrote unsent.length) (o.1, .wrote unsent :: .sent m :: o.2)
  | writeFail {m : Message κ} (hchain : c.chains[i]? = some (.writing m)) :
    ChainMove i c .failed (c.failWriting i)
  /-- It notices that the connection was closed. -/
  | cancel {m : Message κ} (hchain : c.chains[i]? = some (.writing m))
    (hphase : c.phase = .closed) :
    ChainMove i c .cancelled ({ c with chains := c.chains.eraseIdx i }, [])

/-! ### Steps -/

/-- What a step can do. -/
inductive Move (c : Connection κ) : Action κ → Outcome κ → Prop where
  | send (thread : Thread) (m : Message κ) :
    Move c (.perform thread (.send m)) (c.send thread m, [])
  | disconnect (thread : Thread) : Move c (.perform thread .disconnect) c.close
  | approve (id : UInt32) (hside : c.side = .server) (hstage : c.stage = .absent)
    (hattended : c.attended = true) : Move c (.approve id) (c.approve id, [])
  | abort : Move c .abort (c.abort, [])
  | arrive (bytes : List UInt8) (hending : c.inlet.ending = none) :
    Move c (.arrive bytes)
      ({ c with inlet := { c.inlet with pending := c.inlet.pending ++ bytes } }, [])
  | expire (ending : Ending) (hending : c.inlet.ending = none) :
    Move c (.expire ending) ({ c with inlet := { c.inlet with ending := some ending } }, [])
  | refuse {thread : Thread} {m : Message κ} {rest : List (Message κ)}
    (hposted : c.postedBy thread = m :: rest) (hphase : c.phase = .closed) :
    Move c (.takeUp thread) (c.withPosted rest thread, [])
  | enqueue {thread : Thread} {m : Message κ} {rest : List (Message κ)}
    (hposted : c.postedBy thread = m :: rest) (hphase : c.phase ≠ .closed) :
    Move c (.takeUp thread)
      ({ c.withPosted rest thread with
          outbound := c.outbound.pushBack m
          chains :=
            if c.outbound.isEmpty && c.phase == .opened then c.chains ++ [.waiting]
            else c.chains }, [.enqueued m])
  | task {t : Turn} {o : Outcome κ} (h : TaskMove c t o) : Move c (.turn t) o
  | chain {i : Nat} {t : Turn} {o : Outcome κ} (h : ChainMove i c t o) : Move c (.chain i t) o

/-! ### Every step is a move -/

theorem move_of_wordSent {c : Connection κ} {unsent : List UInt8} (hstage : c.stage = .sending unsent) :
    TaskMove c (.wrote unsent.length) (c.wordSent.1, .wrote unsent :: c.wordSent.2) := by
  unfold wordSent
  split
  · next hside => exact .writeRest hstage hside
  · next hside => exact .writeAnswer hstage hside

theorem move_of_hear {c : Connection κ} {got word pending : List UInt8}
    (hstage : c.stage = .awaiting got) (hread : c.ReadsWord got word pending)
    (hlen : word.length = handshakeSize) :
    TaskMove c .ready
      (hear (Bytes.toWord word) { c with inlet := { c.inlet with pending := pending } }) := by
  unfold hear
  split
  · next hside =>
    split
    · next hword => exact .welcome hstage hread hlen hside hword
    · next hword => exact .refuse hstage hread hlen hside hword
  · next hside => exact .answer hstage hread hlen hside

theorem move_of_readWord {c : Connection κ} {got : List UInt8} {o : Outcome κ}
    (hstage : c.stage = .awaiting got) (h : c.readWord got = some o) : TaskMove c .ready o := by
  unfold readWord at h
  split at h
  · next hpending =>
    obtain ⟨ending, hending, rfl⟩ := Option.map_eq_some_iff.mp h
    exact .cutShort hstage hpending (by rw [hending]; nofun)
  · next pending hpending =>
    have hread : c.ReadsWord got _ _ := ⟨hpending, rfl, rfl⟩
    simp only at h
    split at h
    · next hlen =>
      cases h
      exact move_of_hear hstage hread hlen
    · next hlen =>
      cases h
      exact .readPart hstage hread hlen

theorem move_of_readFrames {c : Connection κ} {buf : List UInt8} {o : Outcome κ}
    (hstage : c.stage = .reading buf) (h : c.readFrames buf = some o) : TaskMove c .ready o := by
  unfold readFrames at h
  split at h
  · next hdecode => cases h; exact .fault hstage hdecode
  · next hdecode => cases h; exact .message hstage hdecode
  · next hdecode =>
    split at h
    · cases h
    · next hpending hending =>
      cases h
      exact .streamEnd hstage hdecode hpending hending
    · next hpending hending =>
      -- Between frames the buffer is empty, and only then is the end of the stream no failure.
      have hend : Frame.decodeEnd c.limit buf =
          (if buf.isEmpty then .ok none else .error (.io Frame.cutShort) : Frame.Answer κ) := by
        simp only [Frame.decodeEnd, hdecode]
      have hmove := TaskMove.streamEnd hstage hdecode hpending hending
      cases buf with
      | nil => rw [hend] at h; cases h; exact hmove
      | cons b buf => rw [hend] at h; cases h; exact hmove
    · next hnone hbroken hfinished =>
      cases h
      refine .more hstage hdecode fun hpending => ?_
      cases hending : c.inlet.ending with
      | none => exact hnone hpending hending
      | some ending =>
        cases ending with
        | finished => exact hfinished hpending hending
        | broken => exact hbroken hpending hending

theorem move_of_turn {c : Connection κ} {t : Turn} {o : Outcome κ} (h : c.turn t = some o) :
    TaskMove c t o := by
  unfold turn at h
  split at h
  · next hstage =>
    cases h
    unfold begin
    split
    · next hsocket => exact .begin hstage hsocket
    · next hsocket => exact .beginLate hstage (Bool.eq_false_iff.mpr hsocket)
  · next hstage =>
    cases h
    unfold attach
    split
    · next hphase => exact .attach hstage hphase
    · next hphase => exact .attachLate hstage hphase
  · next hstage => cases h; exact .giveUp hstage
  · next unsent n hstage =>
    split at h
    · next hn => cases h; exact .writePart hstage hn.1 hn.2
    · split at h
      · next hn => cases h; subst hn; exact move_of_wordSent hstage
      · cases h
  · next hstage => cases h; exact .writeFail hstage
  · next hstage => exact move_of_readWord hstage h
  · next hstage =>
    split at h
    · cases h
    · next hlock =>
      cases h
      unfold enter
      split
      · next hphase => exact .enter hstage (Bool.eq_false_iff.mpr hlock) hphase
      · next hphase => exact .enterLate hstage (Bool.eq_false_iff.mpr hlock) hphase
  · next hstage => exact move_of_readFrames hstage h
  · next hstage =>
    split at h
    · next hclosed => cases h; exact .cancelReading (isClosed_iff.mp hclosed) hstage
    · cases h
  · next hstage =>
    split at h
    · next hclosed => cases h; exact .cancel (isClosed_iff.mp hclosed) (.inl hstage)
    · cases h
  · next unsent hstage =>
    split at h
    · next hclosed => cases h; exact .cancel (isClosed_iff.mp hclosed) (.inr (.inl ⟨unsent, hstage⟩))
    · cases h
  · next got hstage =>
    split at h
    · next hclosed => cases h; exact .cancel (isClosed_iff.mp hclosed) (.inr (.inr ⟨got, hstage⟩))
    · cases h
  · next hstage =>
    split at h
    · cases h
    · next hlock => cases h; exact .leave hstage (Bool.eq_false_iff.mpr hlock)
  · cases h

theorem proceeds_writeNext (i : Nat) (c : Connection κ) : Proceeds i c (c.writeNext i) := by
  have hpeek := c.outbound.peekFront?_eq
  unfold writeNext
  split
  · next m unsent hqueue hwriter =>
    rw [hqueue] at hpeek
    split
    · next bytes hencode =>
      obtain ⟨hlen, rfl⟩ := Frame.encode_eq_ok_iff.mp hencode
      exact .starts hpeek.symm hwriter hlen
    · next e hencode =>
      exact .refuses hpeek.symm hwriter (Frame.encode_eq_error_iff.mp hencode).1
  · next hnot =>
    refine .ends ?_
    cases hqueue : c.outbound.peekFront? with
    | none => exact .inl (List.head?_eq_none_iff.mp (hpeek.symm.trans hqueue))
    | some m =>
      cases hwriter : c.writer with
      | none => exact .inr rfl
      | some unsent => exact absurd hwriter (hnot m unsent hqueue)

theorem move_of_chainTurn {c : Connection κ} {i : Nat} {t : Turn} {o : Outcome κ}
    (h : c.chainTurn i t = some o) : ChainMove i c t o := by
  unfold chainTurn at h
  split at h
  · next hchain =>
    split at h
    · cases h
    · next hlock =>
      cases h
      exact .locks hchain (Bool.eq_false_iff.mpr hlock) (proceeds_writeNext i c)
  · next m n hchain =>
    split at h
    · cases h
    · next unsent hwriter =>
      split at h
      · next hn => cases h; exact .writePart hchain hwriter hn.1 hn.2
      · split at h
        · next hn =>
          cases h
          subst hn
          exact .writeRest hchain hwriter (proceeds_writeNext i _)
        · cases h
  · next m hchain => cases h; exact .writeFail hchain
  · next m hchain =>
    split at h
    · next hclosed => cases h; exact .cancel hchain (isClosed_iff.mp hclosed)
    · cases h
  · cases h

theorem move_of_takeUp {c : Connection κ} {thread : Thread} {o : Outcome κ}
    (h : c.takeUp thread = some o) : Move c (.takeUp thread) o := by
  obtain ⟨⟨m, c'⟩, hnext, rfl⟩ := Option.map_eq_some_iff.mp h
  have hposted : ∃ rest, c.postedBy thread = m :: rest ∧ c' = c.withPosted rest thread := by
    cases thread with
    | application =>
      simp only at hnext
      split at hnext
      · cases hnext
      · next m' rest hp => cases hnext; exact ⟨rest, hp, rfl⟩
    | reactor =>
      simp only at hnext
      split at hnext
      · cases hnext
      · next m' rest hp => cases hnext; exact ⟨rest, hp, rfl⟩
  obtain ⟨rest, hp, rfl⟩ := hposted
  by_cases hclosed : c.phase = .closed
  · have hmove := Move.refuse hp hclosed
    cases thread with
    | application => simpa [isClosed, withPosted, hclosed] using hmove
    | reactor => simpa [isClosed, withPosted, hclosed] using hmove
  · have hmove := Move.enqueue hp hclosed
    cases thread with
    | application => simpa [isClosed, withPosted, hclosed, Deque.pushBackWasEmpty] using hmove
    | reactor => simpa [isClosed, withPosted, hclosed, Deque.pushBackWasEmpty] using hmove

/-- **Every step is one of the moves.** -/
theorem move_of_step {c : Connection κ} {a : Action κ} {o : Outcome κ} (h : step c a = some o) :
    Move c a o := by
  cases a with
  | perform thread deed =>
    cases h
    cases deed with
    | send m => exact .send thread m
    | disconnect => exact .disconnect thread
  | approve id =>
    simp only [step] at h
    split at h
    · next hc => cases h; exact .approve id hc.1 hc.2.1 hc.2.2
    · cases h
  | abort => cases h; exact .abort
  | arrive bytes =>
    simp only [step] at h
    split at h
    · next hending => cases h; exact .arrive bytes hending
    · cases h
  | expire ending =>
    simp only [step] at h
    split at h
    · next hending => cases h; exact .expire ending hending
    · cases h
  | takeUp thread => exact move_of_takeUp h
  | turn t => exact .task (move_of_turn h)
  | chain i t => exact .chain (move_of_chainTurn h)

end Parley.Connection

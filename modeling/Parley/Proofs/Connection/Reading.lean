import Parley.Proofs.Connection.History
import Parley.Proofs.Stream

/-!
# Parley.Proofs.Connection.Reading — what a connection makes of the bytes that arrive

The bytes that have arrived are those the reading task has taken and those still pending, and what
it has taken is the other end's word followed by a stream of frames (`HasRead`).  Before the
connection opens the task has told the application nothing; afterwards it has told it that the
connection opened, once, and then every message it took off the stream.  Only the moves of the main
task and arrivals touch the part of a connection that reading depends on (`reader`).
-/

namespace Parley.Connection

variable {κ : Type}

/-! ### The part of a connection that reading depends on -/

/-- What reading depends on. -/
structure Reader where
  side : Side
  limit : Nat
  expected : UInt64
  heard : UInt64
  pending : List UInt8
  ending : Option Ending
  stage : Stage

/-- The part of a connection that reading depends on. -/
def reader (c : Connection κ) : Reader where
  side := c.side
  limit := c.limit
  expected := c.expected
  heard := c.heard
  pending := c.inlet.pending
  ending := c.inlet.ending
  stage := c.stage

@[simp] theorem reader_close (c : Connection κ) : c.close.1.reader = c.reader := by
  rcases close_cases c with ⟨-, h⟩ | ⟨-, h, -⟩
  · rw [h]
  · rw [h]; rfl

@[simp] theorem readerEvents_close (c : Connection κ) : readerEvents c.close.2 = [] := by
  rcases events_close c with h | h
  · rw [h]; rfl
  · rw [h]; rfl

@[simp] theorem reader_send (c : Connection κ) (thread : Thread) (m : Message κ) :
    (c.send thread m).reader = c.reader := by
  unfold send
  split
  · rfl
  · cases thread <;> rfl

@[simp] theorem reader_withPosted (c : Connection κ) (ms : List (Message κ)) (thread : Thread) :
    (c.withPosted ms thread).reader = c.reader := by
  cases thread <;> rfl

@[simp] theorem reader_failWriting (i : Nat) (c : Connection κ) :
    (c.failWriting i).1.reader = c.reader :=
  reader_close _

@[simp] theorem readerEvents_failWriting (i : Nat) (c : Connection κ) :
    readerEvents (c.failWriting i).2 = [] :=
  readerEvents_close _

/-- A handshake that fails ends the task and tells the application nothing. -/
theorem reader_failHandshake (c : Connection κ) :
    c.failHandshake.1.reader = { c.reader with stage := .finished } ∧
      readerEvents c.failHandshake.2 = [] := by
  rw [failHandshake_eq]
  refine ⟨reader_close { c with stage := .finished }, ?_⟩
  rw [readerEvents_append, readerEvents_close, List.append_nil]
  cases c.side with
  | server => rfl
  | client => rfl

theorem reader_giveUp (c : Connection κ) :
    c.giveUp.1.reader = { c.reader with stage := .finished } ∧ readerEvents c.giveUp.2 = [] :=
  ⟨reader_close { c with stage := .finished }, readerEvents_close { c with stage := .finished }⟩

theorem reader_stopReading (errored : Bool) (c : Connection κ) :
    (c.stopReading errored).1.reader = { c.reader with stage := .leaving } ∧
      readerEvents (c.stopReading errored).2 = [] := by
  refine ⟨reader_close { c with stage := .leaving }, ?_⟩
  have hevents := readerEvents_close { c with stage := .leaving }
  cases errored with
  | false => exact hevents
  | true => exact hevents

theorem reader_approve (id : UInt32) (c : Connection κ) :
    (c.approve id).reader = c.reader ∨ (c.approve id).reader = { c.reader with stage := .starting } := by
  unfold approve
  split
  · exact .inr rfl
  · exact .inl rfl

/-- The bytes taken of a word and those left are the bytes that have arrived. -/
theorem ReadsWord.append {c : Connection κ} {got word pending : List UInt8} (h : c.ReadsWord got word pending) :
    word ++ pending = got ++ c.inlet.pending := by
  rw [h.word_eq, h.pending_eq, List.append_assoc, List.take_append_drop]

theorem ReadsWord.length_le {c : Connection κ} {got word pending : List UInt8}
    (h : c.ReadsWord got word pending) (hgot : got.length < handshakeSize) : word.length ≤ handshakeSize := by
  rw [h.word_eq, List.length_append, List.length_take]
  omega

variable [Kind κ]

/-! ### Write chains leave reading alone -/

theorem Proceeds.reader_eq {i : Nat} {c : Connection κ} {o : Outcome κ} (h : Proceeds i c o) :
    o.1.reader = c.reader ∧ readerEvents o.2 = [] := by
  cases h with
  | starts => exact ⟨rfl, rfl⟩
  | refuses => exact ⟨reader_failWriting i c, readerEvents_failWriting i c⟩
  | ends => exact ⟨rfl, rfl⟩

theorem ChainMove.reader_eq {i : Nat} {c : Connection κ} {t : Turn} {o : Outcome κ}
    (h : ChainMove i c t o) : o.1.reader = c.reader ∧ readerEvents o.2 = [] := by
  cases h with
  | locks _ _ hnext => exact hnext.reader_eq
  | writePart => exact ⟨rfl, rfl⟩
  | writeRest _ _ hnext => exact hnext.reader_eq
  | writeFail => exact ⟨reader_failWriting i c, readerEvents_failWriting i c⟩
  | cancel => exact ⟨rfl, rfl⟩

/-! ### The invariant -/

variable {c : Connection κ} {arrived taken : List UInt8} {es fs : List (Event κ)}

/-- The handshake is done and `buf` is left of the stream behind the other end's word: a server has
heard what it expects, and the application was told that the connection opened and then of the
messages taken off the stream. -/
def Reader.Framed (r : Reader) (taken : List UInt8) (es : List (Event κ)) (buf : List UInt8) :
    Prop :=
  (r.side = .server → r.heard = r.expected) ∧
    ∃ body ms, taken = Bytes.ofWord r.heard ++ body ∧
      readerEvents es = .opened :: ms.map .received ∧ Frame.Reads r.limit body ms buf

/-- What the reading task has made of the bytes it has taken, by the point where it stands. -/
def Reader.Taken (r : Reader) (taken : List UInt8) (es : List (Event κ)) : Prop :=
  match r.stage with
  | .absent | .connecting => taken = [] ∧ readerEvents es = []
  | .starting => r.side = .server ∧ taken = [] ∧ readerEvents es = []
  | .sending _ =>
    taken = (match r.side with | .server => [] | .client => Bytes.ofWord r.heard) ∧
      readerEvents es = []
  | .awaiting got => taken = got ∧ got.length < handshakeSize ∧ readerEvents es = []
  | .admitted =>
    taken = Bytes.ofWord r.heard ∧ (r.side = .server → r.heard = r.expected) ∧
      readerEvents es = []
  | .reading buf => r.Framed taken es buf
  | .leaving => ∃ buf, r.Framed taken es buf
  | .finished => readerEvents es = [] ∨ ∃ buf, r.Framed taken es buf

/-- The bytes that have arrived are those taken and those pending. -/
def HasRead (c : Connection κ) (arrived : List UInt8) (es : List (Event κ)) : Prop :=
  ∃ taken, arrived = taken ++ c.inlet.pending ∧ c.reader.Taken taken es

/-- What was read depends on the events of the reading task alone. -/
theorem Reader.Taken.quiet {r : Reader} (h : r.Taken taken es) (hfs : readerEvents fs = []) :
    r.Taken taken (es ++ fs) := by
  unfold Reader.Taken Reader.Framed at h ⊢
  rw [readerEvents_append, hfs, List.append_nil]
  exact h

/-- A task that ends where it stands has read what it has read. -/
theorem Reader.Taken.finish {r : Reader} (h : r.Taken taken es) :
    ({ r with stage := .finished } : Reader).Taken taken es := by
  obtain ⟨side, limit, expected, heard, pending, ending, stage⟩ := r
  cases stage with
  | absent => exact .inl h.2
  | starting => exact .inl h.2.2
  | connecting => exact .inl h.2
  | sending unsent => exact .inl h.2
  | awaiting got => exact .inl h.2.2
  | admitted => exact .inl h.2.2
  | reading buf => exact .inr ⟨buf, h⟩
  | leaving => exact .inr h
  | finished => exact h

/-- A step that leaves the part reading depends on alone keeps what was read. -/
theorem HasRead.frame {c' : Connection κ} (h : HasRead c arrived es) (hreader : c'.reader = c.reader)
    (hfs : readerEvents fs = []) : HasRead c' arrived (es ++ fs) := by
  obtain ⟨taken, harr, htaken⟩ := h
  have hpending : c'.inlet.pending = c.inlet.pending := congrArg Reader.pending hreader
  refine ⟨taken, by rw [harr, hpending], ?_⟩
  rw [hreader]
  exact htaken.quiet hfs

theorem HasRead.finish {c' : Connection κ} (h : HasRead c arrived es)
    (hreader : c'.reader = { c.reader with stage := .finished }) (hfs : readerEvents fs = []) :
    HasRead c' arrived (es ++ fs) := by
  obtain ⟨taken, harr, htaken⟩ := h
  have hpending : c'.inlet.pending = c.inlet.pending := congrArg Reader.pending hreader
  refine ⟨taken, by rw [harr, hpending], ?_⟩
  rw [hreader]
  exact (htaken.quiet hfs).finish

/-- A task that was reading frames and stops has read what it has read. -/
theorem HasRead.stop {c' : Connection κ} {buf : List UInt8} (h : HasRead c arrived es)
    (hstage : c.stage = .reading buf) (hreader : c'.reader = { c.reader with stage := .leaving })
    (hfs : readerEvents fs = []) : HasRead c' arrived (es ++ fs) := by
  obtain ⟨taken, harr, htaken⟩ := h
  have hpending : c'.inlet.pending = c.inlet.pending := congrArg Reader.pending hreader
  refine ⟨taken, by rw [harr, hpending], ?_⟩
  have hframed := htaken.quiet hfs
  rw [Reader.Taken, show c.reader.stage = _ from hstage] at hframed
  rw [hreader]
  exact ⟨buf, hframed⟩

/-! ### The main task keeps it -/

/-- A turn of the main task keeps what was read. -/
theorem HasRead.taskMove {t : Turn} {o : Outcome κ} (h : HasRead c arrived es)
    (hmove : TaskMove c t o) : HasRead o.1 arrived (es ++ o.2) := by
  have ⟨taken, harr, htaken⟩ := h
  -- The stage before the move says what has been taken: a part of the word, the word, or frames too.
  unfold Reader.Taken at htaken
  cases hmove with
  | begin hstage hsocket =>
    rw [show c.reader.stage = _ from hstage] at htaken
    obtain ⟨hside, htaken, hnone⟩ := htaken
    refine ⟨taken, harr, ?_, ?_⟩
    · show taken = (match c.reader.side with | .server => [] | .client => Bytes.ofWord c.reader.heard)
      rw [hside]
      exact htaken
    · rw [readerEvents_append_quiet es rfl]
      exact hnone
  | beginLate hstage hsocket => exact h.finish rfl rfl
  | attach hstage hphase =>
    rw [show c.reader.stage = _ from hstage] at htaken
    refine ⟨taken, harr, htaken.1, by decide, ?_⟩
    rw [readerEvents_append_quiet es rfl]
    exact htaken.2
  | attachLate hstage hphase => exact h.finish rfl rfl
  | giveUp hstage => exact h.finish (reader_giveUp c).1 (reader_giveUp c).2
  | writePart hstage hn hlt =>
    rw [show c.reader.stage = _ from hstage] at htaken
    refine ⟨taken, harr, htaken.1, ?_⟩
    rw [readerEvents_append_quiet es rfl]
    exact htaken.2
  | writeRest hstage hside =>
    rw [show c.reader.stage = _ from hstage, show c.reader.side = _ from hside] at htaken
    refine ⟨taken, harr, htaken.1, by decide, ?_⟩
    rw [readerEvents_append_quiet es rfl]
    exact htaken.2
  | writeAnswer hstage hside =>
    rw [show c.reader.stage = _ from hstage, show c.reader.side = _ from hside] at htaken
    refine ⟨taken, harr, htaken.1, fun hserver => ?_, ?_⟩
    · cases hside.symm.trans hserver
    · rw [readerEvents_append_quiet es rfl]
      exact htaken.2
  | writeFail hstage => exact h.finish (reader_failHandshake c).1 (reader_failHandshake c).2
  | cutShort hstage hpending hending =>
    exact h.finish (reader_failHandshake c).1 (reader_failHandshake c).2
  | @readPart got word pending hstage hread hlen =>
    rw [show c.reader.stage = _ from hstage] at htaken
    obtain ⟨rfl, hgot, hnone⟩ := htaken
    refine ⟨word, harr.trans hread.append.symm, rfl, ?_, ?_⟩
    · exact Nat.lt_of_le_of_ne (hread.length_le hgot) hlen
    · rw [readerEvents_append_quiet es rfl]
      exact hnone
  | @welcome got word pending hstage hread hlen hside hword =>
    rw [show c.reader.stage = _ from hstage] at htaken
    obtain ⟨rfl, -, hnone⟩ := htaken
    refine ⟨word, harr.trans hread.append.symm, (Bytes.ofWord_toWord hlen).symm, fun _ => hword, ?_⟩
    rw [readerEvents_append_quiet es rfl]
    exact hnone
  | @refuse got word pending hstage hread hlen hside hword =>
    rw [show c.reader.stage = _ from hstage] at htaken
    obtain ⟨rfl, -, hnone⟩ := htaken
    obtain ⟨hreader, hquiet⟩ := reader_failHandshake
      { c with inlet := { c.inlet with pending := pending }, heard := Bytes.toWord word }
    refine ⟨word, ?_, ?_⟩
    · rw [harr, ← hread.append]
      exact congrArg (word ++ ·) (congrArg Reader.pending hreader).symm
    · rw [hreader]
      refine .inl ?_
      rw [readerEvents_append_quiet es hquiet]
      exact hnone
  | @answer got word pending hstage hread hlen hside =>
    rw [show c.reader.stage = _ from hstage] at htaken
    obtain ⟨rfl, -, hnone⟩ := htaken
    refine ⟨word, harr.trans hread.append.symm, ?_, ?_⟩
    · show word = (match c.side with | .server => [] | .client => Bytes.ofWord (Bytes.toWord word))
      rw [hside]
      exact (Bytes.ofWord_toWord hlen).symm
    · rw [readerEvents_append_quiet es rfl]
      exact hnone
  | enter hstage hlock hphase =>
    rw [show c.reader.stage = _ from hstage] at htaken
    obtain ⟨htaken, hexpected, hnone⟩ := htaken
    refine ⟨taken, harr, hexpected, [], [], ?_, ?_, .start _⟩
    · rw [htaken, List.append_nil]
      rfl
    · rw [readerEvents_append, hnone]
      rfl
  | enterLate hstage hlock hphase => exact h.finish rfl rfl
  | @message buf rest m hstage hdecode =>
    rw [show c.reader.stage = _ from hstage] at htaken
    obtain ⟨hexpected, body, ms, htaken, hevents, hreads⟩ := htaken
    refine ⟨taken, harr, hexpected, body, ms ++ [m], htaken, ?_, hreads.take hdecode⟩
    rw [readerEvents_append, hevents, List.map_append]
    rfl
  | fault hstage hdecode =>
    exact h.stop hstage (reader_stopReading true c).1 (reader_stopReading true c).2
  | @more buf hstage hdecode hpending =>
    rw [show c.reader.stage = _ from hstage] at htaken
    obtain ⟨hexpected, body, ms, htaken, hevents, hreads⟩ := htaken
    refine ⟨taken ++ c.inlet.pending, by simpa using harr, hexpected, body ++ c.inlet.pending, ms,
      ?_, ?_, hreads.extend c.inlet.pending⟩
    · rw [htaken, List.append_assoc]
      rfl
    · rw [readerEvents_append_quiet es rfl]
      exact hevents
  | streamEnd hstage hdecode hpending hending =>
    exact h.stop hstage (reader_stopReading _ c).1 (reader_stopReading _ c).2
  | cancel hphase hstage => exact h.finish rfl rfl
  | cancelReading hphase hstage => exact h.stop hstage rfl rfl
  | leave hstage hlock =>
    exact h.finish rfl rfl

/-! ### Every run keeps it -/

/-- Where nothing arrives, the bytes that have arrived are the same. -/
theorem HasRead.still {a : Action κ} (h : HasRead c arrived es) (ha : a.brings = []) :
    HasRead c (arrived ++ a.brings) es := by
  rw [ha, List.append_nil]
  exact h

/-- **Reading.**  A step keeps what was read. -/
theorem HasRead.step {a : Action κ} {o : Outcome κ} (h : HasRead c arrived es)
    (hstep : c.step a = some o) : HasRead o.1 (arrived ++ a.brings) (es ++ o.2) := by
  cases move_of_step hstep with
  | send thread m => exact (h.frame (reader_send c thread m) rfl).still rfl
  | disconnect thread => exact (h.frame (reader_close c) (readerEvents_close c)).still rfl
  | approve id hside hstage hattended =>
    refine HasRead.still ?_ rfl
    rcases reader_approve id c with hreader | hreader
    · exact h.frame hreader rfl
    · obtain ⟨taken, harr, htaken⟩ := h
      unfold Reader.Taken at htaken
      rw [show c.reader.stage = _ from hstage] at htaken
      have hpending : (c.approve id).inlet.pending = c.inlet.pending :=
        congrArg Reader.pending hreader
      refine ⟨taken, by rw [harr, hpending], ?_⟩
      rw [hreader, List.append_nil]
      exact ⟨hside, htaken⟩
  | abort =>
    refine HasRead.still ?_ rfl
    by_cases hstage : c.stage = .absent
    · exact h.frame (by simp [abort, reader, hstage]) rfl
    · exact h.finish (by simp [abort, reader, hstage]) rfl
  | arrive bytes hending =>
    obtain ⟨taken, harr, htaken⟩ := h
    refine ⟨taken, ?_, htaken.quiet rfl⟩
    rw [harr, List.append_assoc]
    rfl
  | expire ending hending =>
    obtain ⟨taken, harr, htaken⟩ := h
    exact HasRead.still ⟨taken, harr, htaken.quiet rfl⟩ rfl
  | refuse hposted hphase => exact (h.frame (reader_withPosted c _ _) rfl).still rfl
  | enqueue hposted hphase => exact (h.frame (reader_withPosted c _ _) rfl).still rfl
  | task hmove => exact (h.taskMove hmove).still rfl
  | chain hmove => exact (h.frame hmove.reader_eq.1 hmove.reader_eq.2).still rfl

/-- The messages read are the first of those that the bytes behind the other end's word hold. -/
theorem HasRead.received_isPrefix (h : HasRead c arrived es) :
    received es <+: (Frame.drain c.limit (arrived.drop handshakeSize)).messages := by
  obtain ⟨taken, harr, htaken⟩ := h
  have hframed : readerEvents es = [] ∨ ∃ buf, c.reader.Framed taken es buf := htaken.finish
  rcases hframed with hnone | ⟨buf, -, body, ms, rfl, hevents, hreads⟩
  · rw [received_eq_readerEvents, hnone]
    exact List.nil_prefix
  · have hdrop : (Bytes.ofWord c.reader.heard ++ body ++ c.inlet.pending).drop handshakeSize
        = body ++ c.inlet.pending := by
      rw [List.append_assoc]
      exact List.drop_left' (Bytes.length_ofWord _)
    rw [harr, hdrop, received_of_readerEvents hevents]
    exact hreads.messages_isPrefix c.inlet.pending

end Parley.Connection

import Parley.Proofs.Connection.Gate

/-!
# Parley.Proofs.Connection.Transfer — from one connection to another

If the bytes that arrived at a connection are the first of those that another one wrote, then the
messages the one has read are the first of those the other has enqueued.  They are all of them if all
bytes have arrived and both connections are idle.
-/

namespace Parley.Connection

variable {κ : Type} [Kind κ] {c x y : Connection κ} {arrived : List UInt8} {es fs : List (Event κ)}

/-- What a connection reads of the bytes of another one is what the other one enqueued. -/
theorem HasRead.received_isPrefix_enqueued (hk : Kind.WrittenReads κ) (hy : HasRead y arrived fs)
    (hx : HasWritten x es) (hbytes : arrived <+: wrote es) : received fs <+: enqueued es := by
  have hbody : arrived.drop handshakeSize <+: (enqueued es).flatMap Frame.bytes :=
    (hbytes.drop handshakeSize).trans hx.frames_isPrefix
  exact hy.received_isPrefix.trans (Frame.messages_drain_isPrefix hk y.limit hbody)

/-- The connection is open, has written everything that was enqueued, and has read everything that
has arrived. -/
structure Idle (c : Connection κ) : Prop where
  opened : c.phase = .opened
  attended : c.attended = true
  flushed : c.outbound.toList = []
  resting : Resting c

/-- The connection is open and waits for a frame, and there is nothing to write. -/
def waits (c : Connection κ) : Bool :=
  c.phase == .opened && c.attended && c.outbound.toList.isEmpty && c.stage == .reading [] &&
    c.inlet == {}

namespace Idle

theorem of_waits (h : c.waits = true) : Idle c := by
  simp only [waits, Bool.and_eq_true, beq_iff_eq, List.isEmpty_iff] at h
  obtain ⟨⟨⟨⟨hphase, hattended⟩, hflushed⟩, hstage⟩, hinlet⟩ := h
  refine ⟨hphase, hattended, hflushed, resting_of_reading hstage (Frame.decode_nil _) hinlet ?_⟩
  rw [hphase]
  nofun

/-- It is waiting for more of a frame. -/
theorem reading (h : Idle c) (hsound : Sound c arrived es) :
    ∃ buf, c.stage = .reading buf ∧ (Frame.decode c.limit buf : Frame.Answer κ) = .ok none ∧
      c.inlet.pending = [] ∧ c.inlet.ending = none := by
  obtain ⟨buf, hstage⟩ := hsound.orderly.opened h.opened h.attended
  rcases h.resting.cases hsound with hs | ⟨got, hs, -⟩ | ⟨buf', hs, hrest⟩ | hs | hs
  · cases hstage.symm.trans hs
  · cases hstage.symm.trans hs
  · exact ⟨buf', hs, hrest⟩
  · cases hstage.symm.trans hs
  · cases hstage.symm.trans hs

/-- Behind the word there are the frames of all messages enqueued. -/
theorem drop_wrote (h : Idle c) (hwritten : HasWritten c es) :
    (wrote es).drop handshakeSize = (enqueued es).flatMap Frame.bytes :=
  hwritten.drop_wrote_of_flushed h.opened h.attended h.flushed

/-- All messages in the bytes behind the other end's word have been read, and none is bad. -/
theorem drain_eq (h : Idle c) (hsound : Sound c arrived es) :
    (Frame.drain c.limit (arrived.drop handshakeSize) : Frame.Drained κ).messages = received es ∧
      (Frame.drain c.limit (arrived.drop handshakeSize) : Frame.Drained κ).fault = none := by
  obtain ⟨buf, hstage, hdecode, hpending, -⟩ := h.reading hsound
  obtain ⟨body, ms, rfl, hevents, hreads⟩ := Undisturbed.framed_of_reading hsound.hasRead hstage
  rw [hpending, List.append_nil, List.drop_left' (show _ = handshakeSize from Bytes.length_ofWord _),
    hreads.drain_eq, Frame.drain_of_none hdecode, received_of_readerEvents hevents]
  exact ⟨List.append_nil ms, rfl⟩

/-- **Nothing is left between two idle connections**: if all bytes written by the one have arrived at
the other, all its messages have. -/
theorem received_eq_enqueued (hk : Kind.WrittenReads κ) (hy : Idle y) (hsound : Sound y arrived fs)
    (hx : Idle x) (hwritten : HasWritten x es) (hbytes : arrived = wrote es) :
    received fs = enqueued es := by
  obtain ⟨hmessages, hfault⟩ := hy.drain_eq hsound
  rw [hbytes, hx.drop_wrote hwritten] at hmessages hfault
  rw [← hmessages]
  exact Frame.messages_drain_flatMap hk hfault

end Idle

end Parley.Connection

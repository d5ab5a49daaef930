import Parley.Proofs.Server.Mail
import Parley.Proofs.Server.Sparing

/-!
# Parley.Proofs.Server.Isolation — connections do not get in each other's way

All connections of a server share one inbound queue and one set of counters.  On a connection that
nobody touches, the messages ever queued under its id are those that its own bytes hold, and only its
own bytes close it, whatever comes in on the other connections (`isolation`).
-/

namespace Parley

/-- From a point of a run on, the rest of it is a run, and adds what happens there. -/
theorem Run.all_rest {σ α ε : Type} {step : σ → α → Option (σ × List ε)} {s s₁ t : σ}
    {pre post : List α} {es₁ es : List ε} (hpre : all step s pre = some (s₁, es₁))
    (h : all step s (pre ++ post) = some (t, es)) :
    ∃ es₂, all step s₁ post = some (t, es₂) ∧ es = es₁ ++ es₂ := by
  rw [all_append, hpre, Option.bind_some] at h
  obtain ⟨⟨t', es₂⟩, hpost, hp⟩ := Option.map_eq_some_iff.mp h
  cases hp
  exact ⟨es₂, hpost, rfl⟩

namespace Server

open Connection (ComesToRest Resting verdict errors)

variable {κ : Type} {s s' : Server κ} {b b' : Bool} {br : Nat → List UInt8} {es : List (Event κ)}

/-! ### What is queued under an id -/

/-- The messages read on a connection are those among all that were read that came in on it. -/
theorem received_eventsOf (n : Nat) (es : List (Event κ)) :
    Connection.received (eventsOf n es) = ((arrived es).filter (·.1 = n)).map (·.2) := by
  refine filterMap_eventsOf (fun k ce => ?_) (fun e a h => ?_) n es
  · cases ce <;> rfl
  · cases e <;> first | exact ⟨_, _, rfl⟩ | cases h

variable [Kind κ]

/-- **Under the id of a connection, what it has read was queued**, in order, and nothing else was,
unless the application did so itself. -/
theorem queued_mail {settings : ServerSettings} {transport : TransportSettings} {entropy : Source}
    {as : List (Action κ)} (hrun : (create settings transport entropy).run as = some (s, es))
    (hbound : settings.firstClientId.toNat + s.connections.length ≤ 2 ^ 64) {id : UInt32} {n : Nat}
    (hid : (id, n) ∈ registrations es) (hforeign : ∀ l, .inject l ∈ as → l.origin ≠ some id) :
    queued id ((create settings transport entropy).mail as) =
      Connection.received (eventsOf n es) := by
  have henrolled := Enrolled.create (κ := κ) settings transport entropy
  have hnumbered := (henrolled.run hrun hbound).numbered
  refine Run.all_history (I := fun _ as es => queued id ((create settings transport entropy).mail as) =
    Connection.received (eventsOf n es)) rfl ?_ hrun
  rintro pre a post s₁ es₁ s₂ es₂ has hpre hstep ih
  have hregular := (Regular.create settings transport entropy).run hpre
  obtain ⟨later, hpost, hes⟩ := Run.all_rest hpre (has ▸ hrun)
  have hbound₁ : settings.firstClientId.toNat + s₁.connections.length ≤ 2 ^ 64 :=
    (Nat.add_le_add_left (length_run hregular hpost) _).trans hbound
  rw [mail_concat hpre hstep, queued_append, ih, eventsOf_append, Connection.received_append]
  refine congrArg (_ ++ ·) ?_
  cases posts_of_step hregular hstep with
  | @reads k c ca co _ hk howners hca hevents hinbound =>
    obtain ⟨br, hlives⟩ := lives_run hpre
    have hreg := hlives.registered_of_received hk hca
      ((henrolled.run hpre hbound₁).numbered.named_step hk howners hca)
    rw [put_of_append hinbound, queued_letters, show es₂ = _ from hevents, eventsOf_connection]
    by_cases hread : Connection.received co.2 = []
    · rw [hread, ite_self]
      split
      · exact hread.symm
      · rfl
    · have hentry : (co.1.id, k) ∈ registrations es := by
        rw [hes, registrations_append]
        exact List.mem_append_left _ (hreg hread)
      have hiff : co.1.id = id ↔ k = n :=
        ⟨fun heq => congrArg Prod.snd (hnumbered.eq_of_fst hentry hid heq),
          fun heq => congrArg Prod.fst (hnumbered.eq_of_snd hentry hid heq)⟩
      by_cases hkn : k = n
      · rw [if_pos (hiff.mpr hkn), if_pos hkn]
      · rw [if_neg (mt hiff.mp hkn), if_neg hkn]
        rfl
  | @injects l ha hevents hinbound =>
    rw [put_of_append hinbound, show es₂ = [] from hevents,
      queued_cons_of_ne (hforeign l (by rw [has, ha]; simp))]
    rfl
  | takes _ harrived hinbound =>
    rw [put_of_suffix ⟨_, hinbound.symm⟩, received_eventsOf, show arrived es₂ = [] from harrived]
    rfl

/-! ### Isolation -/

/-- What the other connections have no part in, of connection `n`, which is registered under `id` and
has become `c` in the run `as` of the server `s₀` to `s`. -/
structure Isolated (s₀ : Server κ) (as : List (Action κ)) (s : Server κ) (es : List (Event κ)) (n : Nat)
    (id : UInt32) (c : Connection κ) : Prop where
  there : s.connections[n]? = some c
  /-- What waits in the inbound queue is the last of what was ever put there. -/
  waiting : s.inbound.toList <:+ s₀.mail as
  /-- The messages ever queued under its id are the first of those that its own bytes hold. -/
  queued_isPrefix : queued id (s₀.mail as) <+:
    (Frame.drain s.limit ((arrivalsAt n as).drop handshakeSize)).messages
  /-- Its main task comes to rest, -/
  comesToRest : ComesToRest c
  /-- and then, if it was open, they are all of them, and the verdict on its own bytes and on the end of
  its own stream says whether it is closed and whether it has counted an error. -/
  concluded : .connection n .opened ∈ es → Resting c →
    queued id (s₀.mail as) =
        (Frame.drain s.limit ((arrivalsAt n as).drop handshakeSize)).messages ∧
      c.phase = (if (verdict κ s.limit ((arrivalsAt n as).drop handshakeSize) c.inlet.ending).isSome
        then .closed else .opened) ∧
      errors (eventsOf n es) = ((verdict κ s.limit ((arrivalsAt n as).drop handshakeSize)
        c.inlet.ending).getD false).toNat
  /-- The step that closes it when it is open is one of its main task.  This changes no other connection
  and queues nothing, since everything was queued before; and it counts an error or none, as the verdict
  says. -/
  closes : ∀ a o, s.step a = some o → ¬a.Touches s n → c.phase = .opened → o.1.Closed n →
    a = .connection n (.turn .ready) ∧
      (∃ c', o.1.connections = s.connections.set n c') ∧ o.1.inbound = s.inbound ∧
      queued id (s₀.mail as) =
        (Frame.drain s.limit ((arrivalsAt n as).drop handshakeSize)).messages ∧
      ∃ failed,
        verdict κ s.limit ((arrivalsAt n as).drop handshakeSize) c.inlet.ending = some failed ∧
        o.1.metrics.connectionErrors = s.metrics.connectionErrors + UInt64.ofNat failed.toNat
  /-- Bad frames are those with an unknown tag or with a length over the limit. -/
  fault : ∀ e, (Frame.drain s.limit ((arrivalsAt n as).drop handshakeSize) : Frame.Drained κ).fault =
    some e → (∃ word, e = .unknownTag word) ∨ ∃ size, s.limit < size ∧ e = .oversized size

/-- **Isolation.**  In any run of a server, however the steps of its connections are interleaved and
whatever comes in on them: for a connection that nobody sends on or disconnects, and under whose id the
application queues nothing itself, what is queued, why it is closed and which errors it counts depend on
its own bytes alone (`Isolated`).  No id must have been given out twice. -/
theorem isolation {settings : ServerSettings} {transport : TransportSettings} {entropy : Source}
    {as : List (Action κ)} (hrun : (create settings transport entropy).run as = some (s, es))
    (hbound : settings.firstClientId.toNat + s.connections.length ≤ 2 ^ 64) {id : UInt32} {n : Nat}
    (hid : (id, n) ∈ registrations es) (hforeign : ∀ l, .inject l ∈ as → l.origin ≠ some id)
    (hspared : Spared n (create settings transport entropy) as) :
    ∃ c, Isolated (create settings transport entropy) as s es n id c := by
  have hqueued := queued_mail hrun hbound hid hforeign
  have hregular := (Regular.create settings transport entropy).run hrun
  have hnumbered := ((Enrolled.create settings transport entropy).run hrun hbound).numbered
  have hlt : n < s.connections.length := by
    obtain ⟨k, -, -, hall⟩ := hnumbered.counted
    exact (hall _ hid).2.2
  have hc := List.getElem?_eq_getElem hlt
  generalize s.connections[n] = c at hc
  obtain ⟨ces, hces, hsound, hasks⟩ := (ran_run hrun).sound hc
  obtain ⟨ces', hces', hcalm⟩ := calm_run hrun hspared hc
  obtain rfl : ces = ces' := (List.cons.inj (hces.symm.trans hces')).2
  have hreceived : queued id ((create settings transport entropy).mail as) =
      Connection.received ces := by
    rw [hqueued, hces]
    rfl
  have herrors : errors (eventsOf n es) = errors ces := by
    rw [hces]
    exact (Connection.errors_append [.established] ces).trans (Nat.zero_add _)
  obtain ⟨gone, hmail, -⟩ := waiting_run hrun
  refine ⟨c, hc, ⟨gone, hmail.symm⟩, ?_, hsound.comesToRest hasks, fun hopened hrest => ?_,
    fun a o hstep htouch hopened hclosed => ?_, fun e => Frame.fault_drain⟩
  · rw [hreceived, ← hasks.limit_eq]
    exact hsound.hasRead.received_isPrefix
  · have htold : .opened ∈ ces := by
      have hmem : .opened ∈ eventsOf n es :=
        List.mem_filterMap.mpr ⟨_, hopened, if_pos rfl⟩
      rw [hces] at hmem
      exact (List.mem_cons.mp hmem).resolve_left nofun
    obtain ⟨hmessages, hphase, hcounted⟩ :=
      hcalm.rests hsound (Connection.readerEvents_ne_nil_of_mem htold) hrest
    rw [hasks.limit_eq] at hmessages hphase hcounted
    exact ⟨hreceived.trans hmessages, hphase, herrors.trans hcounted⟩
  · -- no other step reaches it, so the step is its own
    have hconnected : s.Connected n := ⟨c, hc, Phase.isLive_iff.mpr (.inr hopened)⟩
    obtain ⟨ca, rfl⟩ : ∃ ca, a = .connection n ca := by
      by_contra hown
      have hsame := (LeavesAlone.step hstep hconnected htouch fun ca hca => hown ⟨ca, hca⟩).connection_eq
      obtain ⟨d, hd, hdclosed⟩ := hclosed
      obtain rfl : c = d := Option.some.inj (hc.symm.trans (hsame.symm.trans hd))
      cases hopened.symm.trans hdclosed
    simp only [step] at hstep
    split at hstep
    · cases hstep
    · next howners =>
      rw [hc] at hstep
      obtain ⟨co, hca, rfl⟩ := Option.map_eq_some_iff.mp hstep
      have hdeed : ca.isDeed = false := by
        cases ca <;> first | rfl | exact absurd ⟨rfl, hconnected⟩ htouch
      have hco : co.1.phase = .closed := by
        obtain ⟨d, hd, hdclosed⟩ := hclosed
        rw [absorb_eq] at hd
        obtain rfl : co.1 = d := Option.some.inj ((List.getElem?_set_self hlt).symm.trans hd)
        exact hdclosed
      obtain ⟨rfl, hquiet, hmessages, failed, hverdict, hfailed⟩ :=
        hcalm.closes hsound hasks.side_eq hopened (Bool.eq_false_iff.mpr howners) hdeed hca hco
      rw [hasks.limit_eq] at hmessages hverdict
      rw [absorb_eq, hquiet]
      refine ⟨rfl, ⟨co.1, rfl⟩, rfl, hreceived.trans hmessages, failed, hverdict, ?_⟩
      dsimp only
      rw [Metrics.connectionErrors_recordAll, ← hfailed]
      rfl

/-- Two connections are accepted.  On the first one a message comes in, in pieces, and then a frame of an
unknown tag; in between a message comes in on the second, whose stream then ends. -/
theorem isolation_garbage :
    let m : Message GameTag := ⟨⟨.chat, 2⟩, [7, 8], rfl⟩
    let as : List (Action GameTag) :=
      [.start .loopback 0, .accept [] true, .accept [] true, .connection 0 (.turn .ready),
        .connection 0 (.turn (.wrote 8)), .connection 1 (.turn .ready),
        .connection 1 (.turn (.wrote 8)), .connection 0 (.arrive (Bytes.ofWord (scramble 0) ++ [1, 0, 0])),
        .connection 1 (.arrive (Bytes.ofWord (scramble 0) ++ Frame.bytes m)),
        .connection 0 (.turn .ready), .connection 1 (.turn .ready), .connection 1 (.turn .ready),
        .connection 0 (.turn .ready), .connection 0 (.turn .ready),
        .connection 0 (.arrive ((Frame.bytes m).drop 3 ++ [255, 255, 255, 255, 0, 0, 0, 0])),
        .connection 1 (.turn .ready), .connection 1 (.turn .ready), .connection 1 (.expire .finished),
        .connection 0 (.turn .ready), .connection 0 (.turn .ready), .connection 1 (.turn .ready),
        .connection 0 (.turn .ready), .connection 0 (.turn .ready), .connection 1 (.turn .ready)]
    ∃ s es c d, (create {} {} fun _ => 0).run as = some (s, es) ∧
      Isolated (create {} {} fun _ => 0) as s es 0 10000 c ∧
      Isolated (create {} {} fun _ => 0) as s es 1 10001 d ∧
      c.phase = .closed ∧ d.phase = .closed ∧ s.metrics.connectionErrors = 1 := by
  intro m as
  have hruns : ((create {} {} fun _ => 0).run as).any (fun o =>
      o.1.connections.map (·.phase) == [.closed, .closed] &&
        registrations o.2 == [(10000, 0), (10001, 1)] && o.1.metrics.connectionErrors == 1) = true := by
    decide +kernel
  have hspared : Spared 0 (create {} {} fun _ => 0) as ∧ Spared 1 (create {} {} fun _ => 0) as := by
    decide +kernel
  obtain ⟨⟨s, es⟩, hrun, hlast⟩ := (Option.any_eq_true _ _).mp hruns
  simp only [Bool.and_eq_true, beq_iff_eq] at hlast
  obtain ⟨⟨hphases, hregs⟩, herrors⟩ := hlast
  have hlength : s.connections.length = 2 := by simpa using congrArg List.length hphases
  have hown : ∀ (id : UInt32) (l : Letter GameTag), .inject l ∈ as → l.origin ≠ some id := by
    intro id l hl
    simp [as] at hl
  have hphase : ∀ (n : Nat) (c : Connection GameTag), s.connections[n]? = some c → c.phase = .closed := by
    intro n c hc
    have hmem : c.phase ∈ s.connections.map (·.phase) :=
      List.mem_map_of_mem (List.mem_of_getElem? hc)
    rw [hphases] at hmem
    simpa using hmem
  obtain ⟨c, hzero⟩ := isolation hrun (by rw [hlength]; decide)
    (show (10000, 0) ∈ registrations es by rw [hregs]; decide) (hown 10000) hspared.1
  obtain ⟨d, hone⟩ := isolation hrun (by rw [hlength]; decide)
    (show (10001, 1) ∈ registrations es by rw [hregs]; decide) (hown 10001) hspared.2
  exact ⟨s, es, c, d, hrun, hzero, hone, hphase 0 c hzero.there, hphase 1 d hone.there, herrors⟩

end Server
end Parley

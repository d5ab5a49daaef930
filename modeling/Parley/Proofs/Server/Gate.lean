import Parley.Proofs.Connection.Gate
import Parley.Proofs.Counters
import Parley.Proofs.Server.Operations

/-!
# Parley.Proofs.Server.Gate — the handshake gate of a server

What the gate of a connection means for its server: nothing is queued and the handler is told nothing
before the right answer has arrived; a wrong answer is counted once; and behind the right answer every
message of the stream is queued under the id of the connection.
-/

namespace Parley

namespace Connection

variable {κ : Type}

/-- The whole life of a server's connection: the handler was shown it, did something and approved of
it, and then came what is said. -/
def life (deeds : List (Deed κ)) (id : UInt32) (as : List (Action κ)) : List (Action κ) :=
  deeds.map (.perform .reactor) ++ .approve id :: as

theorem life_eq_append (deeds : List (Deed κ)) (id : UInt32) (as : List (Action κ)) :
    life deeds id as = life deeds id [] ++ as := by
  simp [life]

theorem arrivals_life (deeds : List (Deed κ)) (id : UInt32) (as : List (Action κ)) :
    arrivals (life deeds id as) = arrivals as := by
  have hdeeds : arrivals (deeds.map (Action.perform Thread.reactor)) = [] := by
    simp [arrivals, Action.brings, List.flatMap_map]
  rw [life, arrivals_append, hdeeds]
  rfl

theorem endings_life (deeds : List (Deed κ)) (id : UInt32) (as : List (Action κ)) :
    endings (life deeds id as) = endings as := by
  have hdeeds : endings (deeds.map (Action.perform Thread.reactor)) = [] := by
    simp [endings, Action.ends, List.filterMap_map]
  rw [endings, life, List.filterMap_append]
  rw [endings] at hdeeds
  rw [hdeeds]
  rfl

theorem abort_not_mem_life {deeds : List (Deed κ)} {id : UInt32} {as : List (Action κ)}
    (h : ∀ a ∈ as, a.isOwners = false) : .abort ∉ life deeds id as := by
  intro hmem
  rcases List.mem_append.mp hmem with hmem | hmem
  · simp at hmem
  · rcases List.mem_cons.mp hmem with heq | hmem
    · cases heq
    · cases h _ hmem

variable [Kind κ]

/-- While it is shown to the handler a connection may only be closed. -/
theorem events_shown {c c₀ : Connection κ} {deeds : List (Deed κ)} {id : UInt32}
    {es : List (Event κ)} (hrun : c.run (life deeds id []) = some (c₀, es)) :
    ∀ e ∈ es, e = .closed := by
  refine Run.all_history (I := fun _ _ es => ∀ e ∈ es, e = Event.closed) nofun ?_ hrun
  intro pre a post c₁ es₁ c₂ es₂ has _ hstep h₁ e he
  rcases List.mem_append.mp he with he | he
  · exact h₁ e he
  · have hmem : a ∈ life deeds id [] := by rw [has]; simp
    rcases List.mem_append.mp hmem with hmem | hmem
    · obtain ⟨deed, -, rfl⟩ := List.mem_map.mp hmem
      cases deed with
      | send m => cases hstep; cases he
      | disconnect =>
        have hclose : c₁.close = (c₂, es₂) := Option.some.inj hstep
        refine eq_closed_of_mem_close (c := c₁) ?_
        rw [hclose]
        exact he
    · obtain rfl := List.mem_singleton.mp hmem
      cases move_of_step hstep
      cases he

theorem quiet_shown {c c₀ : Connection κ} {deeds : List (Deed κ)} {id : UInt32}
    {es : List (Event κ)} (hrun : c.run (life deeds id []) = some (c₀, es)) :
    readerEvents es = [] ∧ wrote es = [] ∧ failures es = 0 := by
  have hclosed := events_shown hrun
  refine ⟨List.filter_eq_nil_iff.mpr ?_, List.flatMap_eq_nil_iff.mpr ?_, List.countP_eq_zero.mpr ?_⟩
  · intro e he
    rw [hclosed e he]
    nofun
  · intro e he
    rw [hclosed e he]
    rfl
  · intro e he
    rw [hclosed e he]
    nofun

/-- Unless it was disconnected, a connection that the handler approved of has its id. -/
theorem id_shown {limit : Nat} {ch : Challenge} {c₀ : Connection κ} {deeds : List (Deed κ)}
    {id : UInt32} {es : List (Event κ)}
    (hrun : (accepted limit ch).run (life deeds id []) = some (c₀, es))
    (hlocal : ClosesOnlyBy (fun a => a.isDisconnect = false) (accepted limit ch) (life deeds id [])) :
    c₀.id = id := by
  obtain ⟨c₁, es₁, es₂, hdeeds, hstep, -⟩ := Run.all_concat_eq_some_iff.mp hrun
  have habort : .abort ∉ deeds.map (Action.perform (κ := κ) Thread.reactor) := by simp
  have hfate : Fate c₁ es₁ := (fate_run hdeeds habort hlocal.of_append).1
  cases move_of_step hstep with
  | approve _ hside hstage =>
    have hphase : c₁.phase = .validating := (hfate.early (by rw [hstage]; rfl)).1
    simp [Connection.approve, isConnected, hphase, Phase.isLive]

end Connection

namespace Server

open Connection

variable {κ : Type} [Kind κ]

/-- A connection that the handler approves of has been shown to it, and the next id was assigned. -/
theorem shown_of_accept {s s₁ : Server κ} {deeds : List (Nat × Deed κ)} {es₁ : List (Event κ)}
    (haccept : s.step (.accept deeds true) = some (s₁, es₁))
    (hroom : s.nextId.toNat < UInt32.size) :
    ∃ c₀ es₀, (accepted s.limit (s.source.challenge s.connections.length)).run
        (life (deedsOn s.connections.length deeds) s.nextId.toUInt32 []) = some (c₀, es₀) ∧
      s₁.connections[s.connections.length]? = some c₀ := by
  have hnew : s.appear.1.connections[s.connections.length]? =
      some (accepted s.limit (s.source.challenge s.connections.length)) := by
    simp [appear]
  obtain ⟨c, es₀, hn, hrun⟩ := performAll_run deeds hnew
  have hfresh := fresh_of_performs hrun
  have happrove : c.step (.approve s.nextId.toUInt32) = some (c.approve s.nextId.toUInt32, []) :=
    if_pos hfresh
  refine ⟨c.approve s.nextId.toUInt32, es₀ ++ [], ?_, ?_⟩
  · exact Run.all_concat_eq_some_iff.mpr ⟨c, es₀, [], hrun, happrove, rfl⟩
  · have hs₁ : s₁ = (enrol s.connections.length (performAll deeds s.appear.1).1).1 := by
      simp only [step] at haccept
      split at haccept
      · rw [accept_eq] at haccept
        exact (congrArg Prod.fst (Option.some.inj haccept)).symm
      · cases haccept
    have hnext : (performAll deeds s.appear.1).1.nextId = s.nextId := nextId_performAll _ deeds
    rw [hs₁]
    unfold enrol
    dsimp only
    rw [hnext, if_pos hroom]
    simp only [onConnection, hn, absorb_eq]
    exact List.getElem?_set_self (List.getElem?_eq_some_iff.mp hn).1

/-- **The handshake gate.**  A server accepts a socket, which its handler approves of; whatever then
arrives, in whatever pieces, and whatever else is done to the connection:

* as long as the first eight bytes are not the answer, the connection is not open, nothing is queued,
  the handler is not told of the connection, and nothing but a part of the challenge is written;
* if they are another answer, or the stream ends before them, and nobody disconnects first, the main
  task comes to rest, and then the connection is closed and one handshake has failed;
* if they are the answer and only the main task closes the connection, the handler is told of the
  connection once and before any message, and the messages queued, under the id of the connection, are
  those that the bytes behind the eighth hold: some first ones, and all of them when the task, as it
  must, comes to rest. -/
theorem handshake_gate {s s₁ s' : Server κ} {deeds : List (Nat × Deed κ)} {n : Nat}
    {word : UInt64} {id : UInt32} {as : List (Connection.Action κ)} {es₁ es : List (Event κ)}
    (hn : s.connections.length = n) (hword : s.source n = word) (hid : s.nextId.toUInt32 = id)
    (hroom : s.nextId.toNat < UInt32.size) (haccept : s.step (.accept deeds true) = some (s₁, es₁))
    (hrun : s₁.run (as.map (.connection n)) = some (s', es)) :
    ∃ c ces, s'.connections[n]? = some c ∧ es = ces.map (.connection n) ∧
      ((arrivals as).take 8 ≠ Bytes.ofWord (scramble word) →
        c.phase ≠ .opened ∧ s'.inbound = s₁.inbound ∧ .opened ∉ ces ∧
          wrote ces <+: Bytes.ofWord word) ∧
      ((arrivals as).take 8 ≠ Bytes.ofWord (scramble word) →
        8 ≤ (arrivals as).length ∨ endings as ≠ [] →
        ClosesOnlyBy (fun a => a.isDisconnect = false) (accepted s.limit (.ofWord word))
          (life (deedsOn n deeds) id as) →
        ComesToRest c ∧
          (Resting c → c.phase = .closed ∧
            s'.metrics.handshakesFailed = s₁.metrics.handshakesFailed + 1)) ∧
      ((arrivals as).take 8 = Bytes.ofWord (scramble word) →
        ClosesOnlyBy (· = .turn .ready) (accepted s.limit (.ofWord word))
          (life (deedsOn n deeds) id as) →
        ∃ all : List (Message κ), all = (Frame.drain s.limit ((arrivals as).drop 8)).messages ∧
          (∃ ms, ms <+: all ∧
            s'.inbound.toList = s₁.inbound.toList ++ ms.map (fun m => ⟨some id, m⟩) ∧
            ((readerEvents ces = [] ∧ ms = []) ∨
              readerEvents ces = .opened :: ms.map .received)) ∧
          ComesToRest c ∧
          (Resting c →
            s'.inbound.toList = s₁.inbound.toList ++ all.map (fun m => ⟨some id, m⟩) ∧
            readerEvents ces = .opened :: all.map .received)) := by
  obtain ⟨c₀, es₀, hshown, hn₀⟩ := shown_of_accept haccept hroom
  rw [hn, Source.challenge, hword, hid] at hshown
  rw [hn] at hn₀
  generalize s.limit = limit at hshown ⊢
  generalize deedsOn n deeds = deeds at hshown ⊢
  obtain ⟨c, ces, hcrun, howners, -, hn', hes, hinbound, hmetrics⟩ := run_connection hn₀ hrun
  have hlife : (accepted limit (.ofWord word)).run (life deeds id as) = some (c, es₀ ++ ces) := by
    rw [life_eq_append]
    show Run.all Connection.step _ _ = _
    rw [Run.all_append, show Run.all Connection.step _ _ = _ from hshown]
    show (Connection.run c₀ as).map _ = _
    rw [hcrun]
    rfl
  obtain ⟨hquiet, hunwritten, hunfailed⟩ := quiet_shown hshown
  have hreader : readerEvents (es₀ ++ ces) = readerEvents ces := by
    rw [readerEvents_append, hquiet, List.nil_append]
  have hsound := (sound_accepted limit (.ofWord word)).run hlife
  have hasks := (asks_accepted limit (.ofWord word)).run hlife
  have habort : .abort ∉ life deeds id as := abort_not_mem_life howners
  have happroved : ∃ i, .approve i ∈ life deeds id as := ⟨id, by simp [life]⟩
  have hrests := hsound.comesToRest hasks
  have hnamed : ClosesOnlyBy (· = .turn .ready) (accepted limit (.ofWord word)) (life deeds id as) →
      c₀.id = id := by
    intro hlocal
    rw [life_eq_append] at hlocal
    exact id_shown hshown (hlocal.of_append.mono (by rintro a rfl; rfl))
  refine ⟨c, ces, hn', hes, fun hanswer => ?_, fun hanswer hend hlocal => ⟨hrests, fun hrest => ?_⟩,
    fun hanswer hlocal => ⟨_, rfl, ?_, hrests, fun hrest => ?_⟩⟩
  · rw [← arrivals_life deeds id] at hanswer
    obtain ⟨hphase, hnone, hwrote⟩ := shut_run hlife hanswer
    rw [hreader] at hnone
    refine ⟨hphase, ?_, fun hmem => ?_, ?_⟩
    · rw [hinbound, received_eq_readerEvents, hnone]
      rfl
    · have htold : .opened ∈ readerEvents ces := List.mem_filter.mpr ⟨hmem, rfl⟩
      rw [hnone] at htold
      exact List.not_mem_nil htold
    · rw [wrote_append, hunwritten] at hwrote
      exact hwrote
  · rw [← arrivals_life deeds id] at hanswer hend
    rw [← endings_life deeds id] at hend
    obtain ⟨hclosed, hfailed⟩ := refused_run hlife habort happroved hlocal hanswer hend hrest
    rw [failures_append, hunfailed, Nat.zero_add, failures_eq_countP] at hfailed
    refine ⟨hclosed, ?_⟩
    rw [hmetrics, Metrics.handshakesFailed_recordAll, hfailed]
    rfl
  · rw [hinbound, toList_enqueueLetters, hnamed hlocal]
    have htold := hsound.told
    rw [hreader, hasks.limit_eq, arrivals_life] at htold
    rcases htold with hnone | ⟨ms, hevents, hprefix⟩
    · exact ⟨[], List.nil_prefix, by rw [received_eq_readerEvents, hnone]; rfl, .inl ⟨hnone, rfl⟩⟩
    · exact ⟨ms, hprefix, by rw [received_of_readerEvents hevents], .inr hevents⟩
  · rw [← arrivals_life deeds id] at hanswer
    have hall := admitted_run hlife habort happroved hlocal hanswer hrest
    rw [hreader, arrivals_life] at hall
    refine ⟨?_, hall⟩
    rw [hinbound, toList_enqueueLetters, hnamed hlocal, received_of_readerEvents hall]
    rfl

theorem handshake_gate_chat :
    let s : Server GameTag := { Server.create {} {} (fun _ => 0) with attended := true }
    let m : Message GameTag := ⟨⟨.chat, 2⟩, [7, 8], rfl⟩
    let as : List (Connection.Action GameTag) :=
      [.turn .ready, .turn (.wrote 8), .arrive (Bytes.ofWord (scramble 0) ++ [1, 0, 0]),
        .turn .ready, .turn .ready, .turn .ready, .arrive [0, 2, 0, 0, 0, 7, 8],
        .turn .ready, .turn .ready]
    ∃ s₁ es₁ s' es, s.step (.accept [] true) = some (s₁, es₁) ∧
      s₁.run (as.map (.connection 0)) = some (s', es) ∧
      s'.inbound.toList = s₁.inbound.toList ++ [⟨some 10000, m⟩] := by
  intro s m as
  have hruns : ((s.accept [] true).1.run (as.map (.connection 0))).isSome = true := by
    decide +kernel
  obtain ⟨⟨s', es⟩, hrun⟩ := Option.isSome_iff_exists.mp hruns
  have haccept : s.step (.accept [] true) = some (s.accept [] true) := rfl
  have hlength : s.connections.length = 0 := rfl
  have hword : s.source 0 = 0 := rfl
  obtain ⟨c, ces, hn, -, -, -, hright⟩ := handshake_gate hlength hword rfl (by decide) haccept hrun
  have hlast : (((s.accept [] true).1.run (as.map (.connection 0))).bind
      (·.1.connections[0]?)).map (fun c => (c.stage, c.inlet, c.phase, c.limit)) =
        some (.reading [], ⟨[], none⟩, .opened, s.limit) := by
    decide +kernel
  rw [hrun] at hlast
  have hend : (c.stage, c.inlet, c.phase, c.limit) = (.reading [], ⟨[], none⟩, .opened, s.limit) := by
    simpa [hn] using hlast
  obtain ⟨hstage, hinlet, hphase, hlimit⟩ := by simpa only [Prod.mk.injEq] using hend
  have hlife : ((accepted s.limit (.ofWord 0)).run (life (κ := GameTag) [] 10000 as)).map
      (·.1.phase) = some .opened := by
    decide +kernel
  obtain ⟨o, hlived, hopen⟩ := Option.map_eq_some_iff.mp hlife
  have hlocal : ClosesOnlyBy (· = .turn .ready) (accepted s.limit (.ofWord 0))
      (life (κ := GameTag) [] 10000 as) := .of_not_closed hlived (by rw [hopen]; decide)
  obtain ⟨all, hall, -, -, hrest⟩ := hright (by decide +kernel) hlocal
  have hms : all = [m] := by
    have hreads : Frame.Reads s.limit ([m].flatMap Frame.bytes) [m] [] :=
      Frame.reads_flatMap_bytes Kind.gameTag_writtenReads (by decide +kernel)
    have hbody : (arrivals as).drop 8 = [m].flatMap Frame.bytes := by decide +kernel
    rw [hall, hbody, hreads.drain_eq, Frame.drain_of_none (Frame.decode_nil _)]
    rfl
  subst hms
  exact ⟨_, _, s', es, rfl, hrun,
    (hrest (resting_of_reading hstage (Frame.decode_nil _) hinlet (by rw [hphase]; decide))).1⟩

end Server
end Parley

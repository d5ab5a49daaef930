import Parley.Proofs.Connection.History
import Parley.Server.Step

/-!
# Parley.Proofs.Server.Absorb — a server and the events of its connections

When a step of a connection is done, the server queues the messages it brought, each under the id of
the connection, and counts what happened (`absorb_eq`).  A run of one connection inside a server is
a run of the connection (`run_connection`).
-/

namespace Parley

namespace Server

variable {κ : Type}

/-- Queue messages of the connection with the given id. -/
def enqueueLetters (id : UInt32) (ms : List (Message κ)) (q : Deque (Letter κ)) : Deque (Letter κ) :=
  ms.foldl (fun q m => q.pushBack ⟨some id, m⟩) q

theorem toList_enqueueLetters (id : UInt32) (ms : List (Message κ)) (q : Deque (Letter κ)) :
    (enqueueLetters id ms q).toList = q.toList ++ ms.map fun m => ⟨some id, m⟩ := by
  induction ms generalizing q with
  | nil => simp [enqueueLetters]
  | cons m ms ih =>
    have hcons : enqueueLetters id (m :: ms) q = enqueueLetters id ms (q.pushBack ⟨some id, m⟩) := rfl
    rw [hcons, ih, Deque.toList_pushBack, List.append_assoc]
    rfl

theorem enqueueLetters_append (id : UInt32) (ms ns : List (Message κ)) (q : Deque (Letter κ)) :
    enqueueLetters id (ms ++ ns) q = enqueueLetters id ns (enqueueLetters id ms q) := by
  simp [enqueueLetters]

/-- The events of a connection are counted, and its messages are queued. -/
theorem foldl_note (id : UInt32) (es : List (Connection.Event κ)) (s : Server κ) :
    es.foldl (note id) s =
      { s with
        metrics := s.metrics.recordAll (es.filterMap Connection.Event.entry?)
        inbound := enqueueLetters id (Connection.received es) s.inbound } := by
  induction es generalizing s with
  | nil => rfl
  | cons e es ih =>
    rw [List.foldl_cons, ih]
    cases e <;> rfl

/-- What taking over a step of a connection makes of a server. -/
theorem absorb_eq (s : Server κ) (n : Nat) (o : Connection.Outcome κ) :
    s.absorb n o =
      ({ s with
          connections := s.connections.set n o.1
          metrics := s.metrics.recordAll (o.2.filterMap Connection.Event.entry?)
          inbound := enqueueLetters o.1.id (Connection.received o.2) s.inbound },
        o.2.map (.connection n)) := by
  rw [absorb, foldl_note]

variable [Kind κ]

/-- **A run of one connection in a server** is a run of the connection, whose messages are queued
under its id and whose events are counted. -/
theorem run_connection {s s' : Server κ} {n : Nat} {c : Connection κ}
    {as : List (Connection.Action κ)} {es : List (Event κ)} (hn : s.connections[n]? = some c)
    (hrun : s.run (as.map (.connection n)) = some (s', es)) :
    ∃ c' ces, c.run as = some (c', ces) ∧ (∀ a ∈ as, a.isOwners = false) ∧ c'.id = c.id ∧
      s'.connections[n]? = some c' ∧ es = ces.map (.connection n) ∧
      s'.inbound = enqueueLetters c.id (Connection.received ces) s.inbound ∧
      s'.metrics = s.metrics.recordAll (ces.filterMap Connection.Event.entry?) := by
  induction as generalizing s c es with
  | nil =>
    cases hrun
    exact ⟨c, [], rfl, nofun, rfl, hn, rfl, rfl, rfl⟩
  | cons a as ih =>
    obtain ⟨s₁, es₁, es₂, hstep, hrest, rfl⟩ :=
      Run.all_cons_eq_some_iff.mp (show Run.all step s (.connection n a :: _) = _ from hrun)
    obtain ⟨howners, o, hc, hs₁⟩ : a.isOwners = false ∧ ∃ o, c.step a = some o ∧
        s.absorb n o = (s₁, es₁) := by
      simp only [step] at hstep
      split at hstep
      · cases hstep
      · next howners =>
        rw [hn] at hstep
        obtain ⟨o, hc, ho⟩ := Option.map_eq_some_iff.mp hstep
        exact ⟨Bool.eq_false_iff.mpr howners, o, hc, ho⟩
    rw [absorb_eq] at hs₁
    cases hs₁
    have hlt : n < s.connections.length := (List.getElem?_eq_some_iff.mp hn).1
    obtain ⟨c', ces, hrun', howners', hid, hn', rfl, hinbound, hmetrics⟩ :=
      ih (List.getElem?_set_self hlt) hrest
    have hid₁ : o.1.id = c.id := Connection.id_step hc howners
    refine ⟨c', o.2 ++ ces, ?_, ?_, hid.trans hid₁, hn', ?_, ?_, ?_⟩
    · exact Run.all_cons_eq_some_iff.mpr ⟨o.1, o.2, ces, hc, hrun', rfl⟩
    · intro b hb
      rcases List.mem_cons.mp hb with rfl | hb
      · exact howners
      · exact howners' b hb
    · rw [List.map_append]
    · rw [hinbound, hid₁, Connection.received_append, enqueueLetters_append]
    · rw [hmetrics, List.filterMap_append, Metrics.recordAll_append]

end Server
end Parley

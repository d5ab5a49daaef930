import Parley.Proofs.Server.Calls
import Parley.Proofs.Server.Lives

/-!
# Parley.Proofs.Server.Steady — what most operations leave alone

Ids are given out by accepting a socket, messages are read by the connections, and letters are taken
off the inbound queue by updates.  Every other operation is steady: it makes and numbers no connection
(`Steady`), and its events say nothing of ids, messages read and letters (`Event.isTame`).  So a step
is one of these four things, unless the application changes the inbound queue itself (`turn_of_step`).
-/

namespace Parley

namespace Metrics

/-- Only the entry of a connection that is turned away moves the counter of these. -/
theorem connectionsRejected_recordAll {es : List Entry} (h : .rejected ∉ es) (m : Metrics) :
    (m.recordAll es).connectionsRejected = m.connectionsRejected := by
  induction es generalizing m with
  | nil => rfl
  | cons e es ih =>
    obtain ⟨hne, hrest⟩ := not_or.mp (mt List.mem_cons.mpr h)
    refine (ih hrest (m.record e)).trans ?_
    cases e with
    | rejected => exact absurd rfl hne
    | _ => rfl

end Metrics

namespace Server

variable {κ : Type}

/-! ### Messages read and letters taken off the queue -/

def Event.arrived? : Event κ → Option (Nat × Message κ)
  | .connection n (.received m) => some (n, m)
  | _ => none

def Event.popped? : Event κ → Option (Option Nat × Message κ)
  | .delivered n m => some (some n, m)
  | .dropped l => some (none, l.message)
  | _ => none

/-- The messages that were read, with the connections they came in on. -/
def arrived (es : List (Event κ)) : List (Nat × Message κ) := es.filterMap Event.arrived?

/-- The messages that were taken off the inbound queue, with the connections the handler was told they
came in on; those that were dropped have none. -/
def popped (es : List (Event κ)) : List (Option Nat × Message κ) := es.filterMap Event.popped?

section Append

variable (es fs : List (Event κ))

@[simp] theorem arrived_append : arrived (es ++ fs) = arrived es ++ arrived fs := by
  simp [arrived]

@[simp] theorem popped_append : popped (es ++ fs) = popped es ++ popped fs := by
  simp [popped]

end Append

theorem arrived_connection (n : Nat) (ces : List (Connection.Event κ)) :
    arrived (ces.map (.connection n)) = (Connection.received ces).map fun m => (n, m) := by
  rw [arrived, Connection.received, List.filterMap_map, List.map_filterMap]
  congr 1
  funext e
  cases e <;> rfl

theorem popped_connection (n : Nat) (ces : List (Connection.Event κ)) :
    popped (ces.map (.connection n)) = [] := by
  simp [popped, Event.popped?]

/-- Events that say nothing of ids, messages read and letters taken off the queue. -/
def Event.isTame : Event κ → Bool
  | .connection _ (.received _) | .registered _ _ | .delivered _ _ | .dropped _
  | .returned (some _) => false
  | _ => true

section Tame

variable {es : List (Event κ)} (h : ∀ e ∈ es, e.isTame = true)

include h

theorem registrations_tame : registrations es = [] := by
  refine List.filterMap_eq_nil_iff.mpr fun e he => ?_
  have htame := h e he
  cases e <;> first | rfl | cases htame

theorem arrived_tame : arrived es = [] := by
  refine List.filterMap_eq_nil_iff.mpr fun e he => ?_
  have htame := h e he
  cases e with
  | connection n e => cases e <;> first | rfl | cases htame
  | _ => rfl

end Tame

section Aside

variable {es : List (Event κ)} (h : ∀ e ∈ es, e.isAside = true)

include h

theorem arrived_aside : arrived es = [] := by
  refine List.filterMap_eq_nil_iff.mpr fun e he => ?_
  have haside := h e he
  cases e <;> first | rfl | cases haside

theorem popped_aside : popped es = [] := by
  refine List.filterMap_eq_nil_iff.mpr fun e he => ?_
  have haside := h e he
  cases e <;> first | rfl | cases haside

end Aside

/-! ### Steady operations -/

/-- No connection is made, numbered or turned away, and no message is read or dispatched. -/
structure Steady (s : Server κ) (o : Outcome κ) : Prop where
  length_eq : o.1.connections.length = s.connections.length
  nextId_eq : o.1.nextId = s.nextId
  rejected_eq : o.1.metrics.connectionsRejected = s.metrics.connectionsRejected
  tame : ∀ e ∈ o.2, e.isTame = true

theorem length_absorb (s : Server κ) (n : Nat) (o : Connection.Outcome κ) :
    (s.absorb n o).1.connections.length = s.connections.length := by
  rw [absorb_eq]
  exact List.length_set

theorem nextId_absorb (s : Server κ) (n : Nat) (o : Connection.Outcome κ) :
    (s.absorb n o).1.nextId = s.nextId := by
  rw [absorb_eq]

/-- The events of a connection turn nobody away. -/
theorem rejected_absorb (s : Server κ) (n : Nat) (o : Connection.Outcome κ) :
    (s.absorb n o).1.metrics.connectionsRejected = s.metrics.connectionsRejected := by
  rw [absorb_eq]
  refine Metrics.connectionsRejected_recordAll (fun hmem => ?_) s.metrics
  obtain ⟨e, -, he⟩ := List.mem_filterMap.mp hmem
  cases e <;> cases he

namespace Steady

theorem refl (s : Server κ) : Steady s (s, []) := ⟨rfl, rfl, rfl, nofun⟩

theorem andThen {s : Server κ} {o : Outcome κ} {next : Server κ → Outcome κ} (h : Steady s o)
    (hnext : Steady o.1 (next o.1)) : Steady s (o.andThen next) where
  length_eq := hnext.length_eq.trans h.length_eq
  nextId_eq := hnext.nextId_eq.trans h.nextId_eq
  rejected_eq := hnext.rejected_eq.trans h.rejected_eq
  tame e he := by
    rcases List.mem_append.mp he with he | he
    · exact h.tame e he
    · exact hnext.tame e he

theorem onConnection (s : Server κ) (n : Nat) {f : Connection κ → Connection.Outcome κ}
    (hf : ∀ c, Connection.received (f c).2 = []) : Steady s (s.onConnection n f) := by
  unfold Server.onConnection
  split
  · exact refl s
  · next c hn =>
    refine ⟨length_absorb s n _, nextId_absorb s n _, rejected_absorb s n _, fun e he => ?_⟩
    obtain ⟨ce, hce, rfl⟩ := List.mem_map.mp he
    have hnone := List.filterMap_eq_nil_iff.mp (hf c) ce hce
    cases ce with
    | received m => cases hnone
    | _ => rfl

theorem close (s : Server κ) (n : Nat) : Steady s (s.onConnection n Connection.close) :=
  onConnection s n Connection.received_close

theorem send (s : Server κ) (n : Nat) (m : Message κ) :
    Steady s (s.onConnection n fun c => (c.send .application m, [])) :=
  onConnection s n fun _ => rfl

theorem approve (s : Server κ) (n : Nat) (id : UInt32) :
    Steady s (s.onConnection n fun c => (c.approve id, [])) :=
  onConnection s n fun _ => rfl

theorem perform (s : Server κ) (n : Nat) (deed : Connection.Deed κ) :
    Steady s (s.onConnection n fun c => c.perform .reactor deed) := by
  cases deed with
  | send m => exact onConnection s n fun _ => rfl
  | disconnect => exact close s n

theorem disconnectAll (ns : List Nat) (s : Server κ) : Steady s (disconnectAll ns s) := by
  induction ns generalizing s with
  | nil => exact refl s
  | cons n ns ih => exact (close s n).andThen (ih _)

theorem performAll (deeds : List (Nat × Connection.Deed κ)) (s : Server κ) :
    Steady s (performAll deeds s) := by
  induction deeds generalizing s with
  | nil => exact refl s
  | cons d deeds ih => exact (perform s d.1 d.2).andThen (ih _)

theorem start {s s' : Server κ} {host : Host} {portNumber : UInt16}
    (h : s.start host portNumber = .ok s') : Steady s (s', []) := by
  unfold Server.start at h
  split at h
  · cases h
  · split at h
    · cases h
    · split at h
      · cases h
      · cases h
        exact ⟨rfl, rfl, rfl, nofun⟩

theorem stop (s : Server κ) : Steady s s.stop := by
  unfold Server.stop
  split
  · have haborted : Steady s
        ({ s with attended := false, connections := s.connections.map Connection.abort }, []) :=
      ⟨List.length_map _, rfl, rfl, nofun⟩
    have hclosed : Steady s
        (Outcome.andThen
          ({ s with attended := false, connections := s.connections.map Connection.abort }, [])
          (Server.disconnectAll s.registry.numbers)) := haborted.andThen (disconnectAll _ _)
    exact hclosed.andThen ⟨rfl, rfl, rfl, nofun⟩
  · exact refl s

theorem sweep (m : Message κ) (exclude : Option Nat) (ns : List Nat) (dead : List UInt32)
    (s : Server κ) : Steady s (sweep m exclude ns dead s) := by
  induction ns generalizing s with
  | nil => exact ⟨rfl, rfl, rfl, by simp [Server.sweep, Event.isTame]⟩
  | cons n ns ih =>
    unfold Server.sweep
    split
    · exact ih s
    · split
      · split
        · exact ih s
        · exact (send s n m).andThen (ih _)
      · exact ⟨rfl, rfl, rfl, by simp [Event.isTame]⟩

theorem messageClient {s : Server κ} {n : Nat} {m : Message κ} {o : Outcome κ}
    (h : s.messageClient n m = some o) : Steady s o := by
  obtain ⟨c, hn, rfl⟩ := Option.map_eq_some_iff.mp h
  split
  · exact (send s n m).andThen ⟨rfl, rfl, rfl, by simp [Event.isTame]⟩
  · exact ⟨rfl, rfl, rfl, by simp [Event.isTame]⟩

end Steady

/-! ### Steps -/

/-- Approving a socket. -/
def Action.isApproval : Action κ → Bool
  | .accept _ approved => approved
  | _ => false

/-- The calls that wait: the innermost one may have gone on, and one may have begun to wait. -/
def Restacked (s : Server κ) (a : Action κ) (o : Outcome κ) : Prop :=
  ∃ kept, (s.calls = kept ∨ a = .resume ∧ ∃ call, s.calls = call :: kept) ∧
    (o.1.calls = kept ∨ ∃ call, o.1.calls = call :: kept)

theorem Unmoved.restacked {s : Server κ} {a : Action κ} {o : Outcome κ} (h : Unmoved s o) :
    Restacked s a o := ⟨s.calls, .inl rfl, .inl h.calls_eq⟩

variable [Kind κ]

/-- What a step is: only sockets that are accepted, steps of connections, and updates are not
steady. -/
inductive Turn (s : Server κ) : Action κ → Outcome κ → Prop
  /-- A socket is accepted. -/
  | accepts {deeds : List (Nat × Connection.Deed κ)} {approved : Bool} :
    Turn s (.accept deeds approved) (s.accept deeds approved)
  /-- A connection makes a step. -/
  | connection {n : Nat} {c : Connection κ} {a : Connection.Action κ} {o : Connection.Outcome κ}
    (hn : s.connections[n]? = some c) (ha : a.isOwners = false) (hstep : c.step a = some o) :
    Turn s (.connection n a) (s.absorb n o)
  /-- An update begins. -/
  | updates {limit : Option Nat} {wait : Bool} :
    Turn s (.update limit wait) (s.dispatch (limit.getD Message.addressMax) 0)
  /-- An update goes on. -/
  | updatesOn {left handled : Nat} {calls : List (Call κ)}
    (hcalls : s.calls = .updating left handled :: calls) :
    Turn s .resume (dispatch left handled { s with calls := calls })
  /-- Something steady is done. -/
  | steady {a : Action κ} {o : Outcome κ} (ha : a.isApproval = false) (hcalls : Restacked s a o)
    (h : Steady s o) : Turn s a o
  /-- The application does something to the inbound queue itself. -/
  | requeues {a : Action κ} {q : Deque (Letter κ)} (ha : a.isTampering = true) :
    Turn s a ({ s with inbound := q }, [])

variable {s : Server κ} {a : Action κ} {o : Outcome κ}

theorem restacked_sweep (s : Server κ) (m : Message κ) (exclude : Option Nat) (ns : List Nat)
    (dead : List UInt32) :
    (sweep m exclude ns dead s).1.calls = s.calls ∨
      ∃ call, (sweep m exclude ns dead s).1.calls = call :: s.calls := by
  cases swept_sweep s m exclude ns dead with
  | ends _ hcalls => exact .inl hcalls
  | meets _ _ hcalls => exact .inr ⟨_, hcalls⟩

theorem turn_of_resume (h : s.resume = some o) : Turn s .resume o := by
  unfold resume at h
  split at h
  · cases h
  · next call calls hcalls =>
    cases h
    cases call with
    | updating left handled => exact .updatesOn hcalls
    | sweeping m exclude n rest dead =>
      obtain ⟨hlength, hnext, hrejected, htame⟩ := Steady.sweep m exclude rest
        (dead ++ s.idsOf n) { s with calls := calls }
      exact .steady rfl
        ⟨calls, .inr ⟨rfl, _, hcalls⟩, restacked_sweep { s with calls := calls } m exclude rest _⟩
        ⟨hlength, hnext, hrejected, htame⟩
    | reporting n =>
      exact .steady rfl ⟨calls, .inr ⟨rfl, _, hcalls⟩, .inl rfl⟩
        ⟨rfl, rfl, rfl, by simp [Event.isTame]⟩

/-- **Every step is one of these.** -/
theorem turn_of_step (h : s.step a = some o) : Turn s a o := by
  cases a with
  | start host portNumber =>
    simp only [step] at h
    split at h
    · split at h
      · next s' hstart =>
        cases h
        exact .steady rfl (Unmoved.start hstart).restacked (.start hstart)
      · cases h
        exact .steady rfl ⟨s.calls, .inl rfl, .inl rfl⟩ (.refl s)
    · cases h
  | stop =>
    simp only [step] at h
    split at h
    · cases h; exact .steady rfl (Unmoved.stop s).restacked (.stop s)
    · cases h
  | accept deeds approved =>
    simp only [step] at h
    split at h
    · cases h; exact .accepts
    · cases h
  | connection n a =>
    simp only [step] at h
    split at h
    · cases h
    · next ha =>
      obtain ⟨c, hn, hc⟩ := Option.bind_eq_some_iff.mp h
      obtain ⟨o', hstep, rfl⟩ := Option.map_eq_some_iff.mp hc
      exact .connection hn (Bool.eq_false_iff.mpr ha) hstep
  | messageClient n m =>
    have hsteady := Steady.messageClient h
    obtain ⟨c, -, rfl⟩ := Option.map_eq_some_iff.mp h
    refine .steady rfl ⟨s.calls, .inl rfl, ?_⟩ hsteady
    split
    · exact .inl (Unmoved.onConnection s n _).calls_eq
    · exact .inr ⟨_, rfl⟩
  | broadcast m exclude =>
    cases h
    exact .steady rfl ⟨s.calls, .inl rfl, restacked_sweep s m exclude _ []⟩
      (.sweep m exclude _ [] s)
  | update limit wait =>
    simp only [step, update] at h
    split at h
    · cases h
    · cases h; exact .updates
  | resume => exact turn_of_resume h
  | inject l => cases h; exact .requeues rfl
  | take =>
    obtain ⟨p, -, rfl⟩ := Option.map_eq_some_iff.mp h
    exact .requeues rfl

theorem Turn.restacked (h : Turn s a o) : Restacked s a o := by
  cases h with
  | @accepts deeds approved =>
    rcases accept_cases s deeds approved with hsame | ⟨-, -, hcalls, -⟩
    · exact hsame.restacked
    · exact ⟨s.calls, .inl rfl, .inl hcalls⟩
  | connection => exact (Unmoved.absorb s _ _).restacked
  | @updates limit wait =>
    obtain ⟨-, -, hafter⟩ := dispatch_cases (limit.getD Message.addressMax) 0 s
    exact ⟨s.calls, .inl rfl, hafter.imp_right fun ⟨l, h, hcalls⟩ => ⟨_, hcalls⟩⟩
  | @updatesOn left handled calls hcalls =>
    obtain ⟨-, -, hafter⟩ := dispatch_cases left handled { s with calls := calls }
    exact ⟨calls, .inr ⟨rfl, _, hcalls⟩, hafter.imp_right fun ⟨l, h, hcalls⟩ => ⟨_, hcalls⟩⟩
  | steady _ hcalls _ => exact hcalls
  | requeues => exact ⟨s.calls, .inl rfl, .inl rfl⟩

end Server
end Parley

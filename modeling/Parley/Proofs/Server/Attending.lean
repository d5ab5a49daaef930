import Parley.Proofs.Connection.Pipeline
import Parley.Proofs.Server.Reaping
import Parley.Proofs.Server.Stopping

/-!
# Parley.Proofs.Server.Attending — whose posts are taken up

What is posted for a connection is taken up only while the thread that runs the tasks is there.  The
thread goes when a server is stopped, and then the registered connections are closed; no other step
takes it from a connection (`Has.attended_step`).  So the registered connections that are not closed
have it, however often the server was stopped and started again (`attending_run`).
-/

namespace Parley

namespace Connection

variable {κ : Type}

/-- The connection is closed, or what is posted for it is taken up. -/
def Attended (c : Connection κ) : Prop := c.phase = .closed ∨ c.attended = true

theorem Attended.step [Kind κ] {c : Connection κ} (h : c.Attended) {a : Action κ} {o : Outcome κ}
    (hstep : c.step a = some o) (ha : a ≠ .abort) : o.1.Attended :=
  h.imp (closed_step hstep ·) ((attended_step hstep ha).trans ·)

theorem Attended.approve {c : Connection κ} (h : c.Attended) (id : UInt32) :
    (c.approve id).Attended := by
  unfold Connection.approve
  split
  · exact h
  · exact h

end Connection

namespace Server

open Connection (Attended)

variable {κ : Type} {s : Server κ} {k : Nat}

/-- A connection that was changed has still what the change keeps. -/
theorem Has.absorb {P : Connection κ → Prop} (h : s.Has P k) {n : Nat} {d : Connection κ}
    (hn : s.connections[n]? = some d) {o : Connection.Outcome κ} (hP : P d → P o.1) :
    (s.absorb n o).1.Has P k := by
  obtain ⟨c, hk, hc⟩ := h
  rw [absorb_eq]
  by_cases hkn : k = n
  · subst hkn
    cases hn.symm.trans hk
    exact ⟨o.1, List.getElem?_set_self (List.getElem?_eq_some_iff.mp hn).1, hP hc⟩
  · exact ⟨c, (List.getElem?_set_ne (Ne.symm hkn)).trans hk, hc⟩

theorem Has.onConnection {P : Connection κ → Prop} (h : s.Has P k) (n : Nat)
    {f : Connection κ → Connection.Outcome κ} (hP : ∀ c, P c → P (f c).1) :
    (s.onConnection n f).1.Has P k := by
  unfold Server.onConnection
  split
  · exact h
  · next d hn => exact h.absorb hn (hP d)

/-- Dispatching leaves the connections alone. -/
theorem Has.dispatch {P : Connection κ → Prop} (h : s.Has P k) (left handled : Nat) :
    (Server.dispatch left handled s).1.Has P k := by
  obtain ⟨c, hk, hc⟩ := h
  exact ⟨c, (congrArg (·[k]?) (untouched_dispatch left handled s).connections_eq).trans hk, hc⟩

/-- Starting a server leaves the connections alone. -/
theorem Has.start {P : Connection κ → Prop} (h : s.Has P k) {s' : Server κ} {host : Host}
    {portNumber : UInt16} (hstart : s.start host portNumber = .ok s') : s'.Has P k := by
  unfold Server.start at hstart
  split at hstart
  · cases hstart
  · split at hstart
    · cases hstart
    · split at hstart
      · cases hstart
      · cases hstart
        exact h

variable [Kind κ]

/-! ### One operation -/

section Operations

variable (h : s.Has Attended k)

include h

theorem attended_perform (n : Nat) (thread : Connection.Thread) (deed : Connection.Deed κ) :
    (s.onConnection n fun c => c.perform thread deed).1.Has Attended k :=
  h.onConnection n fun _ hc => hc.step (a := .perform thread deed) rfl nofun

theorem attended_send (n : Nat) (m : Message κ) :
    (s.onConnection n fun c => (c.send .application m, [])).1.Has Attended k :=
  attended_perform h n .application (.send m)

theorem attended_performAll (deeds : List (Nat × Connection.Deed κ)) :
    (performAll deeds s).1.Has Attended k := by
  induction deeds generalizing s with
  | nil => exact h
  | cons d deeds ih => exact ih (attended_perform h d.1 .reactor d.2)

theorem attended_reject (n : Nat) : (s.reject n).1.Has Attended k :=
  attended_perform (s := { s with metrics := s.metrics.record .rejected }) h n .application
    .disconnect

theorem attended_enrol (n : Nat) : (s.enrol n).1.Has Attended k := by
  unfold enrol
  dsimp only
  split
  · exact Has.onConnection
      (s := { s with
        nextId := s.nextId + 1
        registry := s.registry.insert s.nextId.toUInt32 n })
      h n fun c hc => hc.approve _
  · exact attended_reject (s := { s with nextId := s.nextId + 1 }) h n

theorem attended_sweep (m : Message κ) (exclude : Option Nat) (ns : List Nat) (dead : List UInt32) :
    (sweep m exclude ns dead s).1.Has Attended k := by
  induction ns generalizing s with
  | nil => exact h
  | cons n ns ih =>
    unfold sweep
    split
    · exact ih h
    · split
      · split
        · exact ih h
        · exact ih (attended_send h n m)
      · exact h

theorem attended_messageClient {n : Nat} {m : Message κ} {o : Outcome κ}
    (hsent : s.messageClient n m = some o) : o.1.Has Attended k := by
  obtain ⟨c, -, rfl⟩ := Option.map_eq_some_iff.mp hsent
  split
  · exact attended_send h n m
  · exact h

theorem attended_resume {o : Outcome κ} (hresume : s.resume = some o) : o.1.Has Attended k := by
  unfold resume at hresume
  split at hresume
  · cases hresume
  · next call calls hcalls =>
    cases hresume
    have hpopped : Has { s with calls := calls } Attended k := h
    cases call with
    | updating left handled => exact hpopped.dispatch left handled
    | sweeping m exclude n rest dead => exact attended_sweep hpopped m exclude rest _
    | reporting n => exact h

end Operations

/-- A new connection has the thread as the old ones have. -/
theorem attended_accept (h : k = s.connections.length ∨ s.Has Attended k)
    (deeds : List (Nat × Connection.Deed κ)) (approved : Bool) :
    (s.accept deeds approved).1.Has Attended k := by
  have happear : s.appear.1.Has Attended k := by
    rcases h with rfl | ⟨c, hk, hc⟩
    · exact ⟨.accepted s.limit (s.source.challenge s.connections.length), by simp [appear], .inr rfl⟩
    · have hlt := (List.getElem?_eq_some_iff.mp hk).1
      exact ⟨c, (List.getElem?_append_left hlt).trans hk, hc⟩
  have hshown := attended_performAll happear deeds
  rw [accept_eq]
  cases approved with
  | true => exact attended_enrol hshown _
  | false => exact attended_reject hshown _

/-- Only stopping a server takes the thread from a connection. -/
theorem Has.attended_step (h : s.Has Attended k) {a : Action κ} {o : Outcome κ}
    (hstep : s.step a = some o) (ha : a ≠ .stop) : o.1.Has Attended k := by
  cases a with
  | start host portNumber =>
    simp only [Server.step] at hstep
    split at hstep
    · split at hstep
      · next s' hstart =>
        cases hstep
        exact h.start hstart
      · cases hstep
        exact h
    · cases hstep
  | stop => exact absurd rfl ha
  | accept deeds approved =>
    simp only [Server.step] at hstep
    split at hstep
    · cases hstep
      exact attended_accept (.inr h) deeds approved
    · cases hstep
  | connection n b =>
    simp only [Server.step] at hstep
    split at hstep
    · cases hstep
    · next howners =>
      obtain ⟨c, hn, hc⟩ := Option.bind_eq_some_iff.mp hstep
      obtain ⟨o', hmove, rfl⟩ := Option.map_eq_some_iff.mp hc
      refine h.absorb hn fun hd => hd.step hmove ?_
      rintro rfl
      exact howners rfl
  | messageClient n m => exact attended_messageClient h hstep
  | broadcast m exclude =>
    cases hstep
    exact attended_sweep h m exclude _ []
  | update limit wait =>
    simp only [Server.step, update] at hstep
    split at hstep
    · cases hstep
    · cases hstep
      exact h.dispatch _ 0
  | resume => exact attended_resume h hstep
  | inject l =>
    cases hstep
    exact h
  | take =>
    obtain ⟨p, -, rfl⟩ := Option.map_eq_some_iff.mp hstep
    exact h

/-! ### Runs -/

/-- What is posted for a registered connection is taken up, unless it is closed. -/
def Attending (s : Server κ) : Prop := ∀ n ∈ s.registry.numbers, s.Has Attended n

theorem Attending.step (h : Attending s) (hkeyed : Keyed s.core false) {a : Action κ} {o : Outcome κ}
    (hstep : s.step a = some o) : Attending o.1 := by
  intro n hn
  obtain ⟨e, he, rfl⟩ := exists_of_mem_numbers hn
  rcases (advance_of_step hstep).entry_cases he with hold | ⟨deeds, rfl, -, hlast, -⟩
  · have hattended := h e.2 (mem_numbers hold)
    by_cases ha : a = .stop
    · subst ha
      obtain ⟨-, rfl⟩ := stop_of_step hstep
      by_cases hrunning : s.attended = true
      · -- the thread is gone, but the connection is closed
        have hclosed := (connections_stop hrunning).2 e.2 (mem_numbers hold) (hkeyed.below e hold)
        exact hclosed.imp fun c hc => .inl hc
      · unfold Server.stop
        rw [if_neg hrunning]
        exact hattended
    · exact hattended.attended_step hstep ha
  · simp only [Server.step] at hstep
    split at hstep
    · cases hstep
      exact attended_accept (.inl hlast) deeds true
    · cases hstep

theorem attending_run {settings : ServerSettings} {transport : TransportSettings} {entropy : Source}
    {as : List (Action κ)} {es : List (Event κ)}
    (hrun : (create settings transport entropy).run as = some (s, es)) : Attending s := by
  refine Run.all_history (I := fun s _ _ => Attending s)
    (fun _ hn => absurd hn List.not_mem_nil) ?_ hrun
  intro pre a post s₁ es₁ s₂ es₂ _ hpre hstep h
  exact h.step (keyed_run hpre).2.1 hstep

end Server
end Parley

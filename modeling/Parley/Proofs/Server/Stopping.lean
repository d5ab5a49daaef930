import Parley.Proofs.Accounting
import Parley.Proofs.Connection.Stopped
import Parley.Proofs.Server.Draining
import Parley.Proofs.Server.Ids

/-!
# Parley.Proofs.Server.Stopping — what is left of a server that was stopped

Stopping a server ends the thread that runs the tasks and closes the connections in the registry.  Any
other connection was turned away, or was found closed and set aside (`registered_or_closed`), so that
none is left open (`Deserted`).  Until the server is started again nothing happens to its connections,
whatever the application does (`Lull`), while the letters that wait are handed to the handler as if it
ran.
-/

namespace Parley.Server

open Connection (Stopped)

variable {κ : Type} {s t : Server κ}

/-! ### A server without a thread -/

/-- Nobody listens, and no connection has a task left. -/
structure Halted (s : Server κ) : Prop where
  unattended : s.attended = false
  localAddress_eq : s.localAddress = none
  stopped : ∀ c ∈ s.connections, Stopped c

/-- All connections are closed, and none is counted as open. -/
structure Deserted (s : Server κ) : Prop where
  closed : ∀ c ∈ s.connections, c.phase = .closed
  uncounted : s.metrics.connectionsActive = 0

/-- The connections are left alone: nothing is sent on them, and nothing happens to them. -/
structure Untouched (s : Server κ) (o : Outcome κ) : Prop where
  connections_eq : o.1.connections = s.connections
  metrics_eq : o.1.metrics = s.metrics
  attended_eq : o.1.attended = s.attended
  localAddress_eq : o.1.localAddress = s.localAddress
  quiet : ∀ n e, .connection n e ∉ o.2

theorem arrived_of_quiet {es : List (Event κ)} (h : ∀ n e, .connection n e ∉ es) :
    arrived es = [] := by
  refine List.filterMap_eq_nil_iff.mpr fun e he => ?_
  cases e with
  | connection n e => exact absurd he (h n e)
  | _ => rfl

/-- Dispatching concerns no connection. -/
theorem untouched_dispatch (left handled : Nat) (s : Server κ) :
    Untouched s (dispatch left handled s) := by
  have hended : Untouched s (s.endUpdate handled) :=
    ⟨rfl, rfl, rfl, rfl, fun n e => by simp [endUpdate]⟩
  induction left generalizing s handled with
  | zero => exact hended
  | succ left ih =>
    unfold dispatch
    split
    · exact hended
    · next l rest hpop =>
      dsimp only
      split
      · exact ⟨rfl, rfl, rfl, rfl, fun n e => by simp⟩
      · obtain ⟨hconn, hmetrics, hattended, haddress, hquiet⟩ :=
          ih (handled + 1) { s with inbound := rest }
            ⟨rfl, rfl, rfl, rfl, fun n e => by simp [endUpdate]⟩
        refine ⟨hconn, hmetrics, hattended, haddress, fun n e he => ?_⟩
        rcases List.mem_cons.mp he with he | he
        · cases he
        · exact hquiet n e he

namespace Halted

/-- What is posted for a connection is not taken up. -/
theorem onConnection_send (h : Halted s) (n : Nat) (m : Message κ) :
    s.onConnection n (fun c => (c.send .application m, [])) = (s, []) := by
  unfold onConnection
  split
  · rfl
  · next c hn =>
    obtain ⟨hlt, hget⟩ := List.getElem?_eq_some_iff.mp hn
    have hset : s.connections.set n c = s.connections := by
      rw [← hget]
      exact List.set_getElem_self hlt
    dsimp only
    rw [(h.stopped c (List.mem_of_getElem? hn)).send_eq, absorb_eq, hset]
    rfl

theorem untouched_sweep (h : Halted s) (m : Message κ) (exclude : Option Nat) (ns : List Nat)
    (dead : List UInt32) : Untouched s (sweep m exclude ns dead s) := by
  induction ns with
  | nil => exact ⟨rfl, rfl, rfl, rfl, fun n e => by simp [sweep]⟩
  | cons n ns ih =>
    unfold sweep
    split
    · exact ih
    · split
      · split
        · exact ih
        · rw [h.onConnection_send]
          exact ih
      · exact ⟨rfl, rfl, rfl, rfl, fun n e => by simp⟩

theorem untouched_messageClient (h : Halted s) {n : Nat} {m : Message κ} {o : Outcome κ}
    (hsent : s.messageClient n m = some o) : Untouched s o := by
  obtain ⟨c, -, rfl⟩ := Option.map_eq_some_iff.mp hsent
  split
  · rw [h.onConnection_send]
    exact ⟨rfl, rfl, rfl, rfl, fun n e => by simp [Outcome.andThen]⟩
  · exact ⟨rfl, rfl, rfl, rfl, fun n e => by simp⟩

theorem untouched_resume (h : Halted s) {o : Outcome κ} (hresume : s.resume = some o) :
    Untouched s o := by
  unfold resume at hresume
  split at hresume
  · cases hresume
  · next call calls hcalls =>
    cases hresume
    have hpopped : Halted { s with calls := calls } :=
      ⟨h.unattended, h.localAddress_eq, h.stopped⟩
    cases call with
    | updating left handled =>
      obtain ⟨hconn, hmetrics, hattended, haddress, hquiet⟩ :=
        untouched_dispatch left handled { s with calls := calls }
      exact ⟨hconn, hmetrics, hattended, haddress, hquiet⟩
    | sweeping m exclude n rest dead =>
      obtain ⟨hconn, hmetrics, hattended, haddress, hquiet⟩ :=
        hpopped.untouched_sweep m exclude rest (dead ++ s.idsOf n)
      exact ⟨hconn, hmetrics, hattended, haddress, hquiet⟩
    | reporting n => exact ⟨rfl, rfl, rfl, rfl, fun n e => by simp⟩

theorem stop_eq (h : Halted s) : s.stop = (s, []) := by
  unfold Server.stop
  rw [if_neg (by rw [h.unattended]; exact Bool.false_ne_true)]

end Halted

/-- The server is started. -/
def Action.isStart : Action κ → Bool
  | .start _ _ => true
  | _ => false

/-! ### Until it is started again -/

section Lull

variable [Kind κ] {a : Action κ} {o : Outcome κ}

/-- What can be done to a server without a thread: a call of the application leaves the connections
alone, and of a connection that has no task left little more can come than that it is closed. -/
inductive Lull (s : Server κ) : Action κ → Outcome κ → Prop
  | call {a : Action κ} {o : Outcome κ} (h : Untouched s o) : Lull s a o
  | connection {n : Nat} {c : Connection κ} {b : Connection.Action κ} {o : Connection.Outcome κ}
    (hn : s.connections[n]? = some c) (hstep : c.step b = some o) :
    Lull s (.connection n b) (s.absorb n o)

theorem Halted.lull (h : Halted s) (ha : a.isStart = false) (hstep : s.step a = some o) :
    Lull s a o := by
  cases a with
  | start => cases ha
  | stop =>
    simp only [step] at hstep
    split at hstep
    · cases hstep
      rw [h.stop_eq]
      exact .call ⟨rfl, rfl, rfl, rfl, fun n e => List.not_mem_nil⟩
    · cases hstep
  | accept deeds approved =>
    simp only [step, h.unattended] at hstep
    cases hstep
  | connection n b =>
    simp only [step] at hstep
    split at hstep
    · cases hstep
    · obtain ⟨c, hn, hc⟩ := Option.bind_eq_some_iff.mp hstep
      obtain ⟨o', hmove, rfl⟩ := Option.map_eq_some_iff.mp hc
      exact .connection hn hmove
  | messageClient n m => exact .call (h.untouched_messageClient hstep)
  | broadcast m exclude =>
    cases hstep
    exact .call (h.untouched_sweep m exclude _ [])
  | update limit wait =>
    simp only [step, update] at hstep
    split at hstep
    · cases hstep
    · cases hstep
      exact .call (untouched_dispatch _ 0 s)
  | resume => exact .call (h.untouched_resume hstep)
  | inject l =>
    cases hstep
    exact .call ⟨rfl, rfl, rfl, rfl, fun n e => List.not_mem_nil⟩
  | take =>
    obtain ⟨p, -, rfl⟩ := Option.map_eq_some_iff.mp hstep
    exact .call ⟨rfl, rfl, rfl, rfl, fun n e => List.not_mem_nil⟩

theorem Halted.step (h : Halted s) (ha : a.isStart = false) (hstep : s.step a = some o) :
    Halted o.1 := by
  cases h.lull ha hstep with
  | call hcall =>
    refine ⟨hcall.attended_eq.trans h.unattended, hcall.localAddress_eq.trans h.localAddress_eq, ?_⟩
    rw [hcall.connections_eq]
    exact h.stopped
  | @connection n c b o hn hmove =>
    rw [absorb_eq]
    refine ⟨h.unattended, h.localAddress_eq, fun d hd => ?_⟩
    rcases List.mem_or_eq_of_mem_set hd with hd | rfl
    · exact h.stopped d hd
    · exact ((h.stopped c (List.mem_of_getElem? hn)).step hmove).1

/-- No step reads a message or registers a connection. -/
theorem Halted.silent (h : Halted s) (ha : a.isStart = false) (hstep : s.step a = some o) :
    arrived o.2 = [] ∧ registrations o.2 = [] := by
  refine ⟨?_, ?_⟩
  · cases h.lull ha hstep with
    | call hcall => exact arrived_of_quiet hcall.quiet
    | @connection n c b o hn hmove =>
      have hstopped := h.stopped c (List.mem_of_getElem? hn)
      rw [absorb_eq, arrived_connection, List.map_eq_nil_iff]
      refine List.filterMap_eq_nil_iff.mpr fun e he => ?_
      rw [hstopped.eq_closed_of_mem hmove he]
      rfl
  · cases counts_of_step hstep with
    | still _ _ _ hregs => exact hregs
    | accepts =>
      simp only [Server.step, h.unattended] at hstep
      cases hstep

/-- Nothing happens to connections that are all closed. -/
theorem Deserted.step (hd : Deserted s) (h : Halted s) (ha : a.isStart = false)
    (hstep : s.step a = some o) : Deserted o.1 ∧ ∀ n e, .connection n e ∉ o.2 := by
  cases h.lull ha hstep with
  | call hcall =>
    refine ⟨⟨?_, ?_⟩, hcall.quiet⟩
    · rw [hcall.connections_eq]
      exact hd.closed
    · rw [hcall.metrics_eq]
      exact hd.uncounted
  | @connection n c b o hn hmove =>
    have hmem := List.mem_of_getElem? hn
    have hnone : o.2 = [] := (h.stopped c hmem).events_eq_nil (hd.closed c hmem) hmove
    rw [absorb_eq, hnone]
    refine ⟨⟨fun d hd' => ?_, hd.uncounted⟩, fun n e => List.not_mem_nil⟩
    rcases List.mem_or_eq_of_mem_set hd' with hd' | rfl
    · exact hd.closed d hd'
    · exact Connection.stable_closed c b o hmove (hd.closed c hmem)

variable {rest : List (Action κ)} {gs : List (Event κ)}

theorem Halted.run (h : Halted s) (hstart : ∀ a ∈ rest, a.isStart = false)
    (hrun : s.run rest = some (t, gs)) :
    Halted t ∧ arrived gs = [] ∧ registrations gs = [] := by
  refine Run.all_history (I := fun t _ gs => Halted t ∧ arrived gs = [] ∧ registrations gs = [])
    ⟨h, rfl, rfl⟩ ?_ hrun
  rintro pre a post s₁ es₁ s₂ es₂ rfl - hstep ⟨h₁, harrived, hregs⟩
  have ha := hstart a (by simp)
  obtain ⟨hquiet, hnobody⟩ := h₁.silent ha hstep
  rw [arrived_append, registrations_append, harrived, hregs]
  exact ⟨h₁.step ha hstep, hquiet, hnobody⟩

theorem Deserted.run (hd : Deserted s) (h : Halted s) (hstart : ∀ a ∈ rest, a.isStart = false)
    (hrun : s.run rest = some (t, gs)) : Deserted t ∧ ∀ n e, .connection n e ∉ gs := by
  have hall := Run.all_history (I := fun t _ gs => Halted t ∧ Deserted t ∧ ∀ n e, .connection n e ∉ gs)
    ⟨h, hd, fun n e => List.not_mem_nil⟩ ?_ hrun
  · exact hall.2
  rintro pre a post s₁ es₁ s₂ es₂ rfl - hstep ⟨h₁, hd₁, hquiet₁⟩
  have ha := hstart a (by simp)
  obtain ⟨hd₂, hquiet₂⟩ := hd₁.step h₁ ha hstep
  refine ⟨h₁.step ha hstep, hd₂, fun n e he => ?_⟩
  rcases List.mem_append.mp he with he | he
  · exact hquiet₁ n e he
  · exact hquiet₂ n e he

/-- While a call waits, nobody starts the server. -/
theorem Waits.not_start {h : Nat} {body : List (Action κ)} (hwaits : s.Waits h body)
    (hrun : s.run body = some (t, gs)) : ∀ a ∈ body, a.isStart = false := by
  induction body generalizing s gs with
  | nil => exact nofun
  | cons a body ih =>
    obtain ⟨s₁, es₁, es₂, hstep, hrest, -⟩ := Run.all_cons_eq_some_iff.mp hrun
    refine List.forall_mem_cons.mpr ⟨?_, ih (hwaits.2 _ hstep) hrest⟩
    cases a with
    | start host portNumber =>
      have hcalls : s.calls ≠ [] := List.ne_nil_of_length_pos (Nat.zero_lt_of_lt hwaits.1)
      simp only [step] at hstep
      split at hstep
      · next hempty => exact absurd (List.isEmpty_iff.mp hempty) hcalls
      · cases hstep
    | _ => rfl

end Lull

/-! ### Stopping -/

/-- Closing connections closes them. -/
theorem closed_disconnectAll [Kind κ] (ns : List Nat) (s : Server κ) {n : Nat} (hn : n ∈ ns)
    (hlt : n < s.connections.length) : (disconnectAll ns s).1.Closed n := by
  induction ns generalizing s with
  | nil => cases hn
  | cons k ns ih =>
    have hrest := acts_disconnectAll (s.onConnection k Connection.close).1 false ns
    have hlength := (Steady.close s k).length_eq
    rcases List.mem_cons.mp hn with rfl | hn
    · have hc := List.getElem?_eq_getElem hlt
      have hclosed : (s.onConnection n Connection.close).1.Closed n :=
        ⟨_, (onConnection_self hc Connection.close).1, Connection.phase_close _⟩
      exact Has.acts Connection.stable_closed hclosed hrest
    · exact ih (s.onConnection k Connection.close).1 hn (hlength ▸ hlt)

/-- Closing connections changes neither who listens nor what waits in the queue. -/
structure Closes (s t : Server κ) : Prop where
  attended_eq : t.attended = s.attended
  retired_eq : t.retired = s.retired
  inbound_eq : t.inbound = s.inbound

theorem closes_disconnectAll (ns : List Nat) (s : Server κ) : Closes s (disconnectAll ns s).1 := by
  induction ns generalizing s with
  | nil => exact ⟨rfl, rfl, rfl⟩
  | cons n ns ih =>
    obtain ⟨hattended, hretired, hinbound⟩ := ih (s.onConnection n Connection.close).1
    have hone : Closes s (s.onConnection n Connection.close).1 := by
      unfold onConnection
      split
      · exact ⟨rfl, rfl, rfl⟩
      · next c hn =>
        rw [absorb_eq, Connection.received_close]
        exact ⟨rfl, rfl, rfl⟩
    exact ⟨hattended.trans hone.attended_eq, hretired.trans hone.retired_eq,
      hinbound.trans hone.inbound_eq⟩

theorem stop_of_step [Kind κ] {o : Outcome κ} (hstop : s.step .stop = some o) :
    s.calls = [] ∧ s.stop = o := by
  simp only [Server.step] at hstop
  split at hstop
  · next hidle => exact ⟨List.isEmpty_iff.mp hidle, Option.some.inj hstop⟩
  · cases hstop

/-- What stopping leaves as it is: the registered connections, the ids, the letters that wait. -/
structure Preserves (s t : Server κ) : Prop where
  registry_eq : t.registry = s.registry
  retired_eq : t.retired = s.retired
  inbound_eq : t.inbound = s.inbound
  nextId_eq : t.nextId = s.nextId
  calls_eq : t.calls = s.calls

theorem stop_of_attended (h : s.attended = true) :
    Preserves s s.stop.1 ∧ s.stop.1.attended = false ∧ s.stop.1.localAddress = none := by
  obtain ⟨hcalls, hregistry, -⟩ := Unmoved.stop s
  have hnext := (Steady.stop s).nextId_eq
  unfold Server.stop at *
  rw [if_pos h] at *
  obtain ⟨hattended, hretired, hinbound⟩ := closes_disconnectAll s.registry.numbers
    { s with attended := false, connections := s.connections.map Connection.abort }
  exact ⟨⟨hregistry, hretired, hinbound, hnext, hcalls⟩, hattended, rfl⟩

section Stopping

variable [Kind κ]

theorem stable_stopped : Connection.Stable (Stopped (κ := κ)) :=
  fun _ _ _ hstep h => (h.step hstep).1

/-- Stopping ends the tasks of all connections and closes the registered ones. -/
theorem connections_stop (h : s.attended = true) :
    (∀ c ∈ s.stop.1.connections, Stopped c) ∧
      ∀ n ∈ s.registry.numbers, n < s.connections.length → s.stop.1.Closed n := by
  have hlength := (Steady.stop s).length_eq
  unfold Server.stop at *
  rw [if_pos h] at *
  refine ⟨fun c hc => ?_, fun n hn hlt => ?_⟩
  · obtain ⟨n, hn⟩ := List.mem_iff_getElem?.mp hc
    have hlt : n < s.connections.length := hlength ▸ (List.getElem?_eq_some_iff.mp hn).1
    have haborted : Has { s with attended := false, connections := s.connections.map Connection.abort }
        Stopped n := by
      refine ⟨s.connections[n].abort, ?_, Connection.stopped_abort _⟩
      rw [List.getElem?_map, List.getElem?_eq_getElem hlt]
      rfl
    obtain ⟨c', hn', hstopped⟩ :=
      haborted.acts stable_stopped (acts_disconnectAll _ false s.registry.numbers)
    obtain rfl := Option.some.inj (hn'.symm.trans hn)
    exact hstopped
  · refine closed_disconnectAll s.registry.numbers _ hn ?_
    rw [List.length_map]
    exact hlt

theorem halted_stop (h : s.attended = true) : Halted s.stop.1 := by
  obtain ⟨-, hattended, haddress⟩ := stop_of_attended h
  exact ⟨hattended, haddress, (connections_stop h).1⟩

variable {settings : ServerSettings} {transport : TransportSettings} {entropy : Source}
  {as : List (Action κ)} {es fs : List (Event κ)}

/-- Every connection was registered, unless it is closed. -/
theorem registered_or_closed (hrun : (create settings transport entropy).run as = some (s, es)) :
    ∀ n < s.connections.length, (∃ id, (id, n) ∈ registrations es) ∨ s.Closed n := by
  refine Run.all_history (I := fun s _ es =>
    ∀ n < s.connections.length, (∃ id, (id, n) ∈ registrations es) ∨ s.Closed n)
    (fun n hn => absurd hn (Nat.not_lt_zero n)) ?_ hrun
  intro pre a post s₁ es₁ s₂ es₂ _ hpre hstep ih n hn
  have hregular := (Regular.create settings transport entropy).run hpre
  have hold : n < s₁.connections.length →
      (∃ id, (id, n) ∈ registrations (es₁ ++ es₂)) ∨ s₂.Closed n := by
    intro hlt
    rcases ih n hlt with ⟨id, hid⟩ | hclosed
    · rw [registrations_append]
      exact .inl ⟨id, List.mem_append_left _ hid⟩
    · exact .inr (hclosed.step Connection.stable_closed hregular hstep)
  cases counts_of_step hstep with
  | still _ hlength =>
    exact hold (hlength ▸ hn)
  | accepts haccepted =>
    have hlast : s₂.connections.length = s₁.connections.length + 1 := by
      cases haccepted with
      | given _ _ hlength => exact hlength
      | refused _ hlength => exact hlength
    by_cases hlt : n < s₁.connections.length
    · exact hold hlt
    · obtain rfl : n = s₁.connections.length := by omega
      cases haccepted with
      | given _ _ _ _ hregs =>
        have hregs : registrations es₂ = [(_, s₁.connections.length)] := hregs
        rw [registrations_append, hregs]
        exact .inl ⟨_, List.mem_append_right _ List.mem_cons_self⟩
      | refused _ _ _ _ hclosed => exact .inr hclosed

/-- A connection outside the registry is closed, as long as no id was given out twice. -/
theorem listed_or_closed (hrun : (create settings transport entropy).run as = some (s, es))
    (hfirst : 1 ≤ settings.firstClientId.toNat)
    (hbound : settings.firstClientId.toNat + s.connections.length ≤ 2 ^ 64) {n : Nat}
    (hn : n < s.connections.length) : n ∈ s.registry.numbers ∨ s.Closed n := by
  rcases registered_or_closed hrun n hn with ⟨id, hid⟩ | hclosed
  · have henrolled := (Enrolled.create settings transport entropy).run hrun hbound
    have hzero : id ≠ 0 := henrolled.numbered.ne_zero hfirst hid
    exact (henrolled.retained id n hzero hid).imp_left fun hentry => List.mem_map.mpr ⟨_, hentry, rfl⟩
  · exact .inr hclosed

/-- The gauge is at zero when all connections are closed. -/
theorem uncounted_of_closed (hrun : (create settings transport entropy).run as = some (s, es))
    (hfew : accepts as < 2 ^ 64) (hclosed : ∀ c ∈ s.connections, c.phase = .closed) :
    s.metrics.connectionsActive = 0 := by
  have haccount := account_run hrun
  rw [haccount.active (haccount.fits hfew), List.countP_eq_zero.mpr fun c hc => ?_]
  · rfl
  · simp [hclosed c hc]

omit [Kind κ] in
theorem accepts_stop (as : List (Action κ)) : accepts (as ++ [.stop]) = accepts as := by
  rw [accepts, List.countP_append]
  rfl

/-- No connection is left open. -/
theorem deserted_stop (hrun : (create settings transport entropy).run as = some (s, es))
    (hfirst : 1 ≤ settings.firstClientId.toNat) (hrunning : s.attended = true)
    (hstop : s.step .stop = some (t, fs))
    (hbound : settings.firstClientId.toNat + accepts as ≤ 2 ^ 64) : Deserted t := by
  have hall : (create settings transport entropy).run (as ++ [.stop]) = some (t, es ++ fs) :=
    Run.all_concat_eq_some_iff.mpr ⟨s, es, fs, hrun, hstop, rfl⟩
  have hstopped : s.stop = (t, fs) := (stop_of_step hstop).2
  have hlength : s.connections.length = accepts as := (account_run hrun).accepted
  have hsame : t.connections.length = s.connections.length := by
    have hsteady := (Steady.stop s).length_eq
    rwa [hstopped] at hsteady
  have hregular := (Regular.create settings transport entropy).run hrun
  have hclosed : ∀ c ∈ t.connections, c.phase = .closed := by
    intro c hc
    obtain ⟨n, hn⟩ := List.mem_iff_getElem?.mp hc
    have hlt : n < s.connections.length := hsame ▸ (List.getElem?_eq_some_iff.mp hn).1
    have hdone : t.Closed n := by
      rcases listed_or_closed hrun hfirst (hlength ▸ hbound) hlt with hlisted | hclosed
      · have hclosed := (connections_stop hrunning).2 n hlisted hlt
        rwa [hstopped] at hclosed
      · exact hclosed.step Connection.stable_closed hregular hstop
    obtain ⟨c', hn', hphase⟩ := hdone
    obtain rfl := Option.some.inj (hn'.symm.trans hn)
    exact hphase
  have hfew : accepts (as ++ [.stop]) < 2 ^ 64 := by
    rw [accepts_stop]
    omega
  exact ⟨hclosed, uncounted_of_closed hall hfew hclosed⟩

/-! ### What follows -/

/-- What is true of a server `u` that was stopped, when it was `t`, and not started since. -/
structure Rests (t u : Server κ) (rest : List (Action κ)) (gs : List (Event κ)) : Prop where
  halted : Halted u
  /-- The connections stay closed, and nothing happens to them any more. -/
  deserted : Deserted t → Deserted u ∧ ∀ n e, .connection n e ∉ gs
  /-- Stopping it again does nothing. -/
  again : u.stop = (u, [])
  /-- A message to all is sent to nobody, and neither is anything else. -/
  broadcast : ∀ m exclude, Untouched u (u.broadcast m exclude)
  messageClient : ∀ n m o, u.messageClient n m = some o → Untouched u o
  resume : ∀ o, u.resume = some o → Untouched u o
  /-- Letters are taken off the queue with the senders they had when the server was stopped. -/
  drained : (∀ a ∈ rest, a.isTampering = false) → Drained t u gs
  /-- An update that has returned has taken off as many as it might, or all, -/
  updates : ∀ limit wait body u₁ u₂ es₁ es₂, u.step (.update limit wait) = some (u₁, es₁) →
    u₁.run body = some (u₂, es₂) → u₁.Waits u.calls.length body →
    (∀ a ∈ body, a.isTampering = false) → u₂.calls.length ≤ u.calls.length →
      u.core.addressed.take (limit.getD Message.addressMax) <+: popped (es₁ ++ es₂)
  /-- and it returns if the handler does. -/
  returns : ∀ limit, ∃ k u' es,
    u.run (.update limit false :: List.replicate k .resume) = some (u', es) ∧
      u'.calls = u.calls ∧ popped es = u.core.addressed.take (limit.getD Message.addressMax)

theorem Halted.rests (h : Halted t) (hs : Regular t) {u : Server κ} {rest : List (Action κ)}
    {gs : List (Event κ)} (hstart : ∀ a ∈ rest, a.isStart = false)
    (hrun : t.run rest = some (u, gs)) : Rests t u rest gs := by
  obtain ⟨hu, hquiet, hnobody⟩ := h.run hstart hrun
  refine
    { halted := hu
      deserted := fun hd => hd.run h hstart hrun
      again := hu.stop_eq
      broadcast := fun m exclude => hu.untouched_sweep m exclude _ []
      messageClient := fun n m o => hu.untouched_messageClient
      resume := fun o => hu.untouched_resume
      drained := fun hown => Drained.run hs hown hrun hquiet hnobody
      updates := ?updates
      returns := update_returns u }
  case updates =>
    intro limit wait body u₁ u₂ es₁ es₂ hstep hbody hwaits hown hreturned
    have hall : u.run (.update limit wait :: body) = some (u₂, es₁ ++ es₂) :=
      Run.all_cons_eq_some_iff.mpr ⟨u₁, es₁, es₂, hstep, hbody, rfl⟩
    obtain ⟨-, hquiet', hnobody'⟩ :=
      hu.run (List.forall_mem_cons.mpr ⟨rfl, hwaits.not_start hbody⟩) hall
    have hdrained : Drained u u₂ (es₁ ++ es₂) :=
      .run (hs.run hrun) (List.forall_mem_cons.mpr ⟨rfl, hown⟩) hall hquiet' hnobody'
    exact drained_update hstep hbody hwaits hreturned hdrained

/-- A server `s` to which `as` was done is stopped, and is `t` afterwards; `first` was the first number
to assign. -/
structure Stopping (first : Nat) (as : List (Action κ)) (s t : Server κ) : Prop where
  not_running : t.isRunning = false
  localAddress_eq : t.localAddress = none
  /-- It has the same registered connections, and the same letters wait. -/
  preserves : Preserves s t
  /-- All connections ever accepted are closed and none is counted, if no id was given out twice. -/
  deserted : first + accepts as ≤ 2 ^ 64 → t.connections.length = accepts as ∧ Deserted t
  /-- Stopping it once more changes nothing. -/
  again : t.step .stop = some (t, [])
  /-- This does not change before it is started again. -/
  rests : ∀ rest u gs, (∀ a ∈ rest, a.isStart = false) → t.run rest = some (u, gs) →
    Rests t u rest gs
  /-- When it is, the ids go on where they were. -/
  continues : ∀ rest u gs deeds v hs, t.run rest = some (u, gs) →
    u.step (.accept deeds true) = some (v, hs) → first + v.connections.length ≤ 2 ^ 64 →
    first + approvals as + approvals rest < 2 ^ 32 →
      ∃ id : UInt32, id.toNat = first + approvals as + approvals rest ∧
        registrations hs = [(id, u.connections.length)] ∧
        (id, u.connections.length) ∈ v.registry.entries

/-- The next connection that is approved gets the next id, however often the server was stopped. -/
theorem registered_next {deeds : List (Nat × Connection.Deed κ)}
    (hrun : (create settings transport entropy).run as = some (s, es))
    (hstep : s.step (.accept deeds true) = some (t, fs))
    (hbound : settings.firstClientId.toNat + t.connections.length ≤ 2 ^ 64)
    (hfits : settings.firstClientId.toNat + approvals as < 2 ^ 32) :
    ∃ id : UInt32, id.toNat = settings.firstClientId.toNat + approvals as ∧
      registrations fs = [(id, s.connections.length)] ∧
      (id, s.connections.length) ∈ t.registry.entries := by
  have hlength : t.connections.length = s.connections.length + 1 := by
    cases accepted_of_step hstep with
    | given _ _ hlength => exact hlength
    | refused _ hlength => exact hlength
  have hbound' : settings.firstClientId.toNat + s.connections.length < 2 ^ 64 := by omega
  have hrises := rising_run hrun (Nat.le_of_lt hbound')
  cases accepted_of_step hstep with
  | given _ hroom _ _ hregs hentry => exact ⟨_, hrises.toNat_id hbound' hroom, hregs, hentry⟩
  | refused hwhy =>
    rw [← hrises.toNat_nextId hbound'] at hfits
    rcases hwhy with hno | hfull
    · cases hno
    · exact absurd hfits (Nat.not_lt_of_le hfull)

/-- **Stopping a server.**  A server that runs is stopped, after any run in which ids begin above zero.
Then every connection it ever accepted is closed and has no task left, none is counted as open, nobody
listens, and the registry and the inbound queue are as they were.  Nothing of this changes before the
server is started again: no call sends anything, stopping it once more does nothing, and the letters
that wait are still handed to the handler, with the connections they came in on.  When it is started
again, the ids go on where they were. -/
theorem stop_closes_all (hrun : (create settings transport entropy).run as = some (s, es))
    (hfirst : settings.firstClientId ≠ 0) (hrunning : s.isRunning = true)
    (hstop : s.step .stop = some (t, fs)) :
    Stopping settings.firstClientId.toNat as s t := by
  have hall : (create settings transport entropy).run (as ++ [.stop]) = some (t, es ++ fs) :=
    Run.all_concat_eq_some_iff.mpr ⟨s, es, fs, hrun, hstop, rfl⟩
  obtain ⟨hidle, hstopped⟩ := stop_of_step hstop
  have hpositive : 1 ≤ settings.firstClientId.toNat :=
    Nat.one_le_iff_ne_zero.mpr fun hzero => hfirst (UInt32.toNat_inj.mp hzero)
  have hhalted : Halted t := by
    have hhalted := halted_stop hrunning
    rwa [hstopped] at hhalted
  have hpreserves : Preserves s t := by
    have hpreserves := (stop_of_attended hrunning).1
    rwa [hstopped] at hpreserves
  have hregular : Regular t := (Regular.create settings transport entropy).run hall
  have happrovals : approvals (as ++ [.stop]) = approvals as := by
    rw [approvals, List.countP_append]
    rfl
  refine
    { not_running := hhalted.unattended
      localAddress_eq := hhalted.localAddress_eq
      preserves := hpreserves
      deserted := fun hbound => ⟨?length, deserted_stop hrun hpositive hrunning hstop hbound⟩
      again := ?again
      rests := fun rest u gs hstart hrest => hhalted.rests hregular hstart hrest
      continues := ?continues }
  case length => exact (account_run hall).accepted.trans (accepts_stop as)
  case again =>
    simp only [Server.step]
    rw [hpreserves.calls_eq, hidle, if_pos List.isEmpty_nil, hhalted.stop_eq]
  case continues =>
    intro rest u gs deeds v hs hrest hstep hbound hfits
    have happroved : approvals (as ++ [.stop] ++ rest) = approvals as + approvals rest := by
      rw [approvals, List.countP_append]
      exact congrArg (· + approvals rest) happrovals
    have hnext := registered_next (Run.all_append_of_eq_some hall hrest) hstep hbound
      (by rw [happroved, ← Nat.add_assoc]; exact hfits)
    rwa [happroved, ← Nat.add_assoc] at hnext

/-- A server with two clients, one of which has sent a message, is stopped after it has turned a third
one away.  A message to all then finds both clients closed, the message that waits is handed to the
handler although its sender was set aside by then, and when the server is started again, the next
client gets the next id. -/
theorem stop_closes_all_restart :
    let m : Message GameTag := ⟨⟨.chat, 2⟩, [7, 8], rfl⟩
    let as : List (Action GameTag) :=
      [.start .loopback 0, .accept [] true, .connection 0 (.turn .ready),
        .connection 0 (.turn (.wrote 8)),
        .connection 0 (.arrive (Bytes.ofWord (scramble 0) ++ Frame.bytes m)),
        .connection 0 (.turn .ready), .connection 0 (.turn .ready), .connection 0 (.turn .ready),
        .connection 0 (.turn .ready), .accept [] false, .accept [] true]
    let rest : List (Action GameTag) :=
      [.broadcast m none, .resume, .resume, .update none false, .resume]
    ∃ s es t fs u gs w ks v hs, (create {} {} fun _ => 0).run as = some (s, es) ∧
      s.step .stop = some (t, fs) ∧ t.run rest = some (u, gs) ∧
      t.run (rest ++ [.start .loopback 0]) = some (w, ks) ∧
      w.step (.accept [] true) = some (v, hs) ∧ t.connections.length = 3 ∧
      (∀ c ∈ t.connections, c.phase = .closed) ∧ u.metrics.connectionsActive = 0 ∧
      u.registry.count = 0 ∧ popped gs = [(some 0, m)] ∧ registrations hs = [(10002, 3)] := by
  intro m as rest
  have hruns : ((create {} {} fun _ => 0).run as).any (fun o => o.1.attended &&
      (o.1.step .stop).any fun p => p.1.core.addressed == [(some 0, m)] &&
        ((p.1.run rest).any fun q => q.1.core.addressed.isEmpty && q.1.registry.count == 0) &&
        (p.1.run (rest ++ [.start .loopback 0])).any fun q => q.1.connections.length == 3 &&
          (q.1.step (.accept [] true)).any fun r => r.1.connections.length == 4) = true := by
    decide +kernel
  obtain ⟨⟨s, es⟩, hrun, hlast⟩ := (Option.any_eq_true _ _).mp hruns
  simp only [Bool.and_eq_true, Option.any_eq_true, beq_iff_eq, List.isEmpty_iff] at hlast
  obtain ⟨hrunning, ⟨t, fs⟩, hstop, ⟨hwaiting, ⟨u, gs⟩, hrest, hhandled, hpruned⟩, ⟨w, ks⟩, hagain,
    hthree, ⟨v, hs⟩, haccept, hfour⟩ := hlast
  have h := stop_closes_all hrun (by decide) hrunning hstop
  obtain ⟨hlength, hdeserted⟩ := h.deserted (by decide)
  have hrests := h.rests rest u gs (by decide) hrest
  have hdrained : popped gs ++ u.core.addressed = t.core.addressed := hrests.drained (by decide)
  obtain ⟨id, hid, hregs, -⟩ := h.continues _ w ks [] v hs hagain haccept (by rw [hfour]; decide)
    (by decide)
  refine ⟨s, es, t, fs, u, gs, w, ks, v, hs, hrun, hstop, hrest, hagain, haccept, hlength,
    hdeserted.closed, (hrests.deserted hdeserted).1.uncounted, hpruned, ?_, ?_⟩
  · rw [show u.core.addressed = [] from hhandled, List.append_nil] at hdrained
    exact hdrained.trans hwaiting
  · obtain rfl : id = 10002 := UInt32.toNat_inj.mp (hid.trans (by decide))
    rw [hregs, show w.connections.length = 3 from hthree]

end Stopping

end Parley.Server

import Parley.Proofs.Server.Operations

/-!
# Parley.Proofs.Server.Calls — the calls that wait for the handler

A call that has to tell the handler something waits on a stack, and the handler may make calls of its
own in the meantime.  `Advance` lists what one step can make of this stack and of the registry, and
which connection it reports to be closed: a step begins a call, lets the innermost one go on or come
to its end, registers a connection, or does none of this (`advance_of_step`).
-/

namespace Parley.Server

variable {κ : Type}

/-! ### Reports -/

def Event.reported? : Event κ → Option Nat
  | .disconnected n => some n
  | _ => none

/-- The connections that were reported to be closed, in order. -/
def reported (es : List (Event κ)) : List Nat := es.filterMap Event.reported?

@[simp] theorem reported_append (es fs : List (Event κ)) :
    reported (es ++ fs) = reported es ++ reported fs := by
  simp [reported]

theorem reported_connection (n : Nat) (ces : List (Connection.Event κ)) :
    reported (ces.map (.connection n)) = [] := by
  simp [reported, Event.reported?]

/-- The id of connection `n`, as far as it exists. -/
def idsOf (s : Server κ) (n : Nat) : List UInt32 := (s.connections[n]?.map (·.id)).toList

/-! ### What stays as it is -/

/-- The calls and the registry are left alone, and no connection is reported. -/
structure Unmoved (s : Server κ) (o : Outcome κ) : Prop where
  calls_eq : o.1.calls = s.calls
  registry_eq : o.1.registry = s.registry
  reported_eq : reported o.2 = []

namespace Unmoved

theorem andThen {s : Server κ} {o : Outcome κ} {next : Server κ → Outcome κ} (h : Unmoved s o)
    (hnext : Unmoved o.1 (next o.1)) : Unmoved s (o.andThen next) where
  calls_eq := hnext.calls_eq.trans h.calls_eq
  registry_eq := hnext.registry_eq.trans h.registry_eq
  reported_eq := by
    show reported (o.2 ++ (next o.1).2) = []
    rw [reported_append, h.reported_eq, hnext.reported_eq]
    rfl

theorem absorb (s : Server κ) (n : Nat) (o : Connection.Outcome κ) : Unmoved s (s.absorb n o) := by
  rw [absorb_eq]
  exact ⟨rfl, rfl, reported_connection n o.2⟩

theorem onConnection (s : Server κ) (n : Nat) (f : Connection κ → Connection.Outcome κ) :
    Unmoved s (s.onConnection n f) := by
  unfold Server.onConnection
  split
  · exact ⟨rfl, rfl, rfl⟩
  · exact absorb s n _

theorem disconnectAll (ns : List Nat) (s : Server κ) : Unmoved s (disconnectAll ns s) := by
  induction ns generalizing s with
  | nil => exact ⟨rfl, rfl, rfl⟩
  | cons n ns ih => exact (onConnection s n Connection.close).andThen (ih _)

theorem performAll (deeds : List (Nat × Connection.Deed κ)) (s : Server κ) :
    Unmoved s (performAll deeds s) := by
  induction deeds generalizing s with
  | nil => exact ⟨rfl, rfl, rfl⟩
  | cons d deeds ih =>
    exact (onConnection s d.1 fun c => c.perform .reactor d.2).andThen (ih _)

theorem stop (s : Server κ) : Unmoved s s.stop := by
  unfold Server.stop
  split
  · obtain ⟨hcalls, hregistry, hreported⟩ := disconnectAll s.registry.numbers
      { s with attended := false, connections := s.connections.map Connection.abort }
    refine ⟨hcalls, hregistry, ?_⟩
    show reported (_ ++ []) = []
    rw [List.append_nil]
    exact hreported
  · exact ⟨rfl, rfl, rfl⟩

theorem start {s s' : Server κ} {host : Host} {portNumber : UInt16}
    (h : s.start host portNumber = .ok s') : Unmoved s (s', []) := by
  unfold Server.start at h
  split at h
  · cases h
  · split at h
    · cases h
    · split at h
      · cases h
      · cases h
        exact ⟨rfl, rfl, rfl⟩

theorem reject (n : Nat) (s : Server κ) : Unmoved s (s.reject n) := by
  obtain ⟨hcalls, hregistry, hreported⟩ :=
    onConnection { s with metrics := s.metrics.record .rejected } n Connection.close
  exact ⟨hcalls, hregistry, hreported⟩

end Unmoved

/-- A connection that is approved is registered under the next id, if there is one. -/
theorem enrol_cases (n : Nat) (s : Server κ) :
    Unmoved s (s.enrol n) ∨ (s.nextId.toNat < UInt32.size ∧ (s.enrol n).1.calls = s.calls ∧
      (s.enrol n).1.registry = s.registry.insert s.nextId.toUInt32 n ∧
      reported (s.enrol n).2 = [] ∧ .registered n s.nextId.toUInt32 ∈ (s.enrol n).2) := by
  unfold enrol
  dsimp only
  split
  · next hroom =>
    obtain ⟨hcalls, hregistry, hreported⟩ := Unmoved.onConnection
      { s with
        nextId := s.nextId + 1
        registry := s.registry.insert s.nextId.toUInt32 n }
      n fun c => (c.approve s.nextId.toUInt32, [])
    exact .inr ⟨hroom, hcalls, hregistry, hreported, List.mem_cons_self⟩
  · obtain ⟨hcalls, hregistry, hreported⟩ := Unmoved.reject n { s with nextId := s.nextId + 1 }
    exact .inl ⟨hcalls, hregistry, hreported⟩

/-- The server after a hook was shown a new connection and has done something. -/
def shown (s : Server κ) (deeds : List (Nat × Connection.Deed κ)) : Outcome κ :=
  s.appear.andThen (performAll deeds)

theorem accept_eq_shown (s : Server κ) (deeds : List (Nat × Connection.Deed κ)) (approved : Bool) :
    s.accept deeds approved = (s.shown deeds).andThen fun t =>
      if approved then t.enrol s.connections.length else t.reject s.connections.length := by
  rw [accept_eq, shown]
  simp [Outcome.andThen]

/-- Accepting a socket registers the new connection at most. -/
theorem accept_cases (s : Server κ) (deeds : List (Nat × Connection.Deed κ)) (approved : Bool) :
    Unmoved s (s.accept deeds approved) ∨ (approved = true ∧ s.nextId.toNat < UInt32.size ∧
      (s.accept deeds approved).1.calls = s.calls ∧
      (s.accept deeds approved).1.registry =
        s.registry.insert s.nextId.toUInt32 s.connections.length ∧
      reported (s.accept deeds approved).2 = [] ∧
      .registered s.connections.length s.nextId.toUInt32 ∈ (s.accept deeds approved).2) := by
  have hshown : Unmoved s (s.shown deeds) :=
    Unmoved.andThen ⟨rfl, rfl, rfl⟩ (.performAll deeds s.appear.1)
  rw [accept_eq_shown]
  cases approved with
  | false => exact .inl (hshown.andThen (.reject _ _))
  | true =>
    simp only [↓reduceIte]
    rcases enrol_cases s.connections.length (s.shown deeds).1 with
      hsame | ⟨hroom, hcalls, hregistry, hreported, hevent⟩
    · exact .inl (hshown.andThen hsame)
    · have hnext : (s.shown deeds).1.nextId = s.nextId := nextId_performAll s.appear.1 deeds
      rw [hshown.registry_eq, hnext] at hregistry
      rw [hnext] at hroom hevent
      refine .inr ⟨trivial, hroom, hcalls.trans hshown.calls_eq, hregistry, ?_,
        List.mem_append_right _ hevent⟩
      exact (reported_append _ _).trans (by rw [hshown.reported_eq, hreported]; rfl)

/-- A dispatch leaves the registry alone and waits for the handler with an update at most. -/
theorem dispatch_cases (left handled : Nat) (s : Server κ) :
    (dispatch left handled s).1.registry = s.registry ∧
      reported (dispatch left handled s).2 = [] ∧
      ((dispatch left handled s).1.calls = s.calls ∨
        ∃ l h, (dispatch left handled s).1.calls = .updating l h :: s.calls) := by
  induction left generalizing s handled with
  | zero => exact ⟨rfl, rfl, .inl rfl⟩
  | succ left ih =>
    unfold dispatch
    split
    · exact ⟨rfl, rfl, .inl rfl⟩
    · next l rest hpop =>
      dsimp only
      split
      · exact ⟨rfl, rfl, .inr ⟨_, _, rfl⟩⟩
      · exact ih _ { s with inbound := rest }

/-! ### Sweeps -/

/-- What a message to the connections `ns` comes to, if the ids `dead` are set aside at its end. -/
inductive Swept (s : Server κ) (m : Message κ) (exclude : Option Nat) (ns : List Nat)
    (dead : List UInt32) (o : Outcome κ) : Prop
  /-- It has met no closed connection, and comes to its end. -/
  | ends (hopen : ∀ n ∈ ns, ¬s.Closed n) (hcalls : o.1.calls = s.calls)
    (hregistry : ∀ e, e ∈ o.1.registry.entries ↔ e ∈ s.registry.entries ∧ e.1 ∉ dead)
    (hreported : reported o.2 = [])
  /-- It reports the first closed connection it meets, and waits for the handler. -/
  | meets {pre rest : List Nat} {n : Nat} (hns : ns = pre ++ n :: rest)
    (hopen : ∀ k ∈ pre, ¬s.Closed k)
    (hcalls : o.1.calls = .sweeping m exclude n rest dead :: s.calls)
    (hregistry : o.1.registry = s.registry) (hreported : reported o.2 = [n])

namespace Swept

variable {s : Server κ} {m : Message κ} {exclude : Option Nat} {n : Nat} {ns : List Nat}
  {dead : List UInt32} {o : Outcome κ}

theorem cons (h : Swept s m exclude ns dead o) (hn : ¬s.Closed n) :
    Swept s m exclude (n :: ns) dead o := by
  cases h with
  | ends hopen hcalls hregistry hreported =>
    exact .ends (List.forall_mem_cons.mpr ⟨hn, hopen⟩) hcalls hregistry hreported
  | @meets pre rest k hns hopen hcalls hregistry hreported =>
    exact .meets (congrArg (n :: ·) hns) (List.forall_mem_cons.mpr ⟨hn, hopen⟩) hcalls hregistry
      hreported

/-- It registers nothing. -/
theorem entry_mem (h : Swept s m exclude ns dead o) {e : Registry.Entry}
    (he : e ∈ o.1.registry.entries) : e ∈ s.registry.entries := by
  cases h with
  | ends hopen hcalls hregistry => exact ((hregistry e).mp he).1
  | meets hns hopen hcalls hregistry => exact hregistry ▸ he

/-- Something is done before, after which the closed connections are still closed. -/
theorem after {p : Outcome κ} (h : Swept p.1 m exclude ns dead o) (hp : Unmoved s p)
    (hclosed : ∀ k, s.Closed k → p.1.Closed k) : Swept s m exclude ns dead (o.1, p.2 ++ o.2) := by
  have hreports : reported (p.2 ++ o.2) = reported o.2 := by
    rw [reported_append, hp.reported_eq]
    rfl
  cases h with
  | ends hopen hcalls hregistry hreported =>
    refine .ends (fun k hk hc => hopen k hk (hclosed k hc)) (hcalls.trans hp.calls_eq) ?_
      (hreports.trans hreported)
    rw [← hp.registry_eq]
    exact hregistry
  | meets hns hopen hcalls hregistry hreported =>
    exact .meets hns (fun k hk hc => hopen k hk (hclosed k hc))
      (hcalls.trans (congrArg _ hp.calls_eq)) (hregistry.trans hp.registry_eq)
      (hreports.trans hreported)

end Swept

/-- A connection that is connected is not closed. -/
theorem not_closed_of_isConnected {s : Server κ} {n : Nat} {c : Connection κ}
    (hn : s.connections[n]? = some c) (hc : c.isConnected = true) : ¬s.Closed n := by
  rintro ⟨c', hn', hclosed⟩
  cases hn.symm.trans hn'
  simp [Connection.isConnected, hclosed, Phase.isLive] at hc

variable [Kind κ]

theorem swept_sweep (s : Server κ) (m : Message κ) (exclude : Option Nat) (ns : List Nat)
    (dead : List UInt32) : Swept s m exclude ns dead (sweep m exclude ns dead s) := by
  induction ns generalizing s with
  | nil => exact .ends nofun rfl (fun _ => Registry.mem_fst_move_iff dead) rfl
  | cons n ns ih =>
    unfold sweep
    split
    · next hnone =>
      refine (ih s).cons ?_
      rintro ⟨c, hn, -⟩
      cases hnone.symm.trans hn
    · next c hn =>
      split
      · next hconnected =>
        have hopen := not_closed_of_isConnected hn hconnected
        split
        · exact (ih s).cons hopen
        · have hsent := acts_onConnection s false n (fun c => (c.send .application m, []))
            (.perform .application (.send m)) rfl rfl fun c => rfl
          refine Swept.cons ?_ hopen
          exact (ih _).after (.onConnection s n _) fun k hk =>
            Has.acts Connection.stable_closed hk hsent
      · exact .meets (List.nil_append _).symm nofun rfl rfl rfl

/-! ### Steps -/

/-- What a step makes of the calls that wait and of the registry, and which connection it reports. -/
inductive Advance (s : Server κ) : Action κ → Outcome κ → Prop
  /-- An update begins to wait or goes on, or none of the calls does anything. -/
  | dispatches {a : Action κ} {o : Outcome κ} {calls : List (Call κ)}
    (hbefore : s.calls = calls ∨ ∃ l h, s.calls = .updating l h :: calls)
    (hafter : o.1.calls = calls ∨ ∃ l h, o.1.calls = .updating l h :: calls)
    (hregistry : o.1.registry = s.registry) (hreported : reported o.2 = []) : Advance s a o
  /-- A new connection is registered. -/
  | enrols {deeds : List (Nat × Connection.Deed κ)} {o : Outcome κ}
    (hroom : s.nextId.toNat < UInt32.size) (hcalls : o.1.calls = s.calls)
    (hregistry : o.1.registry = s.registry.insert s.nextId.toUInt32 s.connections.length)
    (hreported : reported o.2 = [])
    (hevent : .registered s.connections.length s.nextId.toUInt32 ∈ o.2) :
    Advance s (.accept deeds true) o
  /-- A message to a connection that is not connected reports it. -/
  | reports {n : Nat} {m : Message κ} {o : Outcome κ} {c : Connection κ}
    (hn : s.connections[n]? = some c) (hc : ¬c.isConnected = true)
    (hcalls : o.1.calls = .reporting n :: s.calls) (hregistry : o.1.registry = s.registry)
    (hreported : reported o.2 = [n]) : Advance s (.messageClient n m) o
  /-- The connection reported is set aside. -/
  | prunes {n : Nat} {o : Outcome κ} (hcalls : s.calls = .reporting n :: o.1.calls)
    (hregistry : ∀ e, e ∈ o.1.registry.entries ↔ e ∈ s.registry.entries ∧ e.1 ∉ s.idsOf n)
    (hreported : reported o.2 = []) : Advance s .resume o
  /-- A message to all begins. -/
  | sweeps {m : Message κ} {exclude : Option Nat} {o : Outcome κ}
    (h : Swept s m exclude s.registry.numbers [] o) : Advance s (.broadcast m exclude) o
  /-- A message to all goes on. -/
  | sweepsOn {m : Message κ} {exclude : Option Nat} {n : Nat} {rest : List Nat} {dead : List UInt32}
    {calls : List (Call κ)} {o : Outcome κ}
    (hcalls : s.calls = .sweeping m exclude n rest dead :: calls)
    (h : Swept { s with calls := calls } m exclude rest (dead ++ s.idsOf n) o) : Advance s .resume o

omit [Kind κ] in
theorem Advance.aside {s : Server κ} {a : Action κ} {o : Outcome κ} (h : Unmoved s o) :
    Advance s a o := .dispatches (.inl rfl) (.inl h.calls_eq) h.registry_eq h.reported_eq

theorem advance_of_resume {s : Server κ} {o : Outcome κ} (h : s.resume = some o) :
    Advance s .resume o := by
  unfold resume at h
  split at h
  · cases h
  · next call calls hcalls =>
    cases h
    cases call with
    | updating left handled =>
      obtain ⟨hregistry, hreported, hafter⟩ := dispatch_cases left handled { s with calls := calls }
      exact .dispatches (.inr ⟨left, handled, hcalls⟩) hafter hregistry hreported
    | sweeping m exclude n rest dead =>
      exact .sweepsOn hcalls (swept_sweep { s with calls := calls } m exclude rest _)
    | reporting n => exact .prunes hcalls (fun _ => Registry.mem_fst_move_iff _) rfl

/-- **Every step is one of these.** -/
theorem advance_of_step {s : Server κ} {a : Action κ} {o : Outcome κ} (h : s.step a = some o) :
    Advance s a o := by
  cases a with
  | start host portNumber =>
    simp only [step] at h
    split at h
    · split at h
      · next s' hstart => cases h; exact .aside (.start hstart)
      · cases h; exact .aside ⟨rfl, rfl, rfl⟩
    · cases h
  | stop =>
    simp only [step] at h
    split at h
    · cases h; exact .aside (.stop s)
    · cases h
  | accept deeds approved =>
    simp only [step] at h
    split at h
    · cases h
      rcases accept_cases s deeds approved with
        hsame | ⟨rfl, hroom, hcalls, hregistry, hreported, hevent⟩
      · exact .aside hsame
      · exact .enrols hroom hcalls hregistry hreported hevent
    · cases h
  | connection n a =>
    simp only [step] at h
    split at h
    · cases h
    · obtain ⟨c, -, hc⟩ := Option.bind_eq_some_iff.mp h
      obtain ⟨o', -, rfl⟩ := Option.map_eq_some_iff.mp hc
      exact .aside (.absorb s n o')
  | messageClient n m =>
    obtain ⟨c, hn, rfl⟩ := Option.map_eq_some_iff.mp h
    split
    · exact .aside ((Unmoved.onConnection s n _).andThen ⟨rfl, rfl, rfl⟩)
    · next hc => exact .reports hn hc rfl rfl rfl
  | broadcast m exclude =>
    cases h
    exact .sweeps (swept_sweep s m exclude _ [])
  | update limit wait =>
    simp only [step, update] at h
    split at h
    · cases h
    · cases h
      obtain ⟨hregistry, hreported, hafter⟩ := dispatch_cases (limit.getD Message.addressMax) 0 s
      exact .dispatches (.inl rfl) hafter hregistry hreported
  | resume => exact advance_of_resume h
  | inject l => cases h; exact .aside ⟨rfl, rfl, rfl⟩
  | take =>
    obtain ⟨p, -, rfl⟩ := Option.map_eq_some_iff.mp h
    exact .aside ⟨rfl, rfl, rfl⟩

omit [Kind κ] in
/-- What a step registers is the connection it has just accepted; everything else was registered
before. -/
theorem Advance.entry_cases {s : Server κ} {a : Action κ} {o : Outcome κ} (h : Advance s a o)
    {e : Registry.Entry} (he : e ∈ o.1.registry.entries) :
    e ∈ s.registry.entries ∨ ∃ deeds, a = .accept deeds true ∧ s.nextId.toNat < UInt32.size ∧
      e.2 = s.connections.length ∧ .registered e.2 e.1 ∈ o.2 := by
  cases h with
  | dispatches _ _ hregistry => exact .inl (hregistry ▸ he)
  | @enrols deeds _ hroom hcalls hregistry hreported hevent =>
    rw [hregistry] at he
    rcases Registry.of_mem_insert he with rfl | he
    · exact .inr ⟨deeds, rfl, hroom, rfl, hevent⟩
    · exact .inl he
  | reports hn hc hcalls hregistry => exact .inl (hregistry ▸ he)
  | prunes hcalls hregistry => exact .inl ((hregistry e).mp he).1
  | sweeps h => exact .inl (h.entry_mem he)
  | sweepsOn hcalls h => exact .inl (h.entry_mem he)

end Parley.Server

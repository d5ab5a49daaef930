import Parley.Proofs.Address
import Parley.Proofs.Server.Histories
import Parley.Proofs.Server.Ids

/-!
# Parley.Proofs.Server.Starting — what becomes of the settings of a server

A server keeps the settings and the limit it was made with, whatever is done to it (`fixed_run`).  So it
starts on the address its settings spell, each time it is started (`start_of_spells`), and all its
connections have that limit (`limit_eq_of_mem`).  Its ids count on from the first one, without end: one of
them comes up a second time only after all numbers of 64 bits have been used (`numbering_run`).
-/

namespace Parley.Server

variable {κ : Type}

/-! ### Settings -/

/-- What nothing that is done to a server changes. -/
def fixed (s : Server κ) : ServerSettings × Nat := (s.settings, s.limit)

theorem fixed_absorb (s : Server κ) (n : Nat) (o : Connection.Outcome κ) :
    (s.absorb n o).1.fixed = s.fixed := by
  rw [absorb_eq]
  rfl

theorem fixed_onConnection (s : Server κ) (n : Nat) (f : Connection κ → Connection.Outcome κ) :
    (s.onConnection n f).1.fixed = s.fixed := by
  unfold onConnection
  split
  · rfl
  · exact fixed_absorb s n _

theorem fixed_disconnectAll (ns : List Nat) (s : Server κ) :
    (disconnectAll ns s).1.fixed = s.fixed := by
  induction ns generalizing s with
  | nil => rfl
  | cons n ns ih => exact (ih _).trans (fixed_onConnection s n _)

theorem fixed_stop (s : Server κ) : s.stop.1.fixed = s.fixed := by
  unfold stop
  split
  · exact fixed_disconnectAll s.registry.numbers
      { s with attended := false, connections := s.connections.map Connection.abort }
  · rfl

theorem fixed_performAll (deeds : List (Nat × Connection.Deed κ)) (s : Server κ) :
    (performAll deeds s).1.fixed = s.fixed := by
  induction deeds generalizing s with
  | nil => rfl
  | cons d deeds ih => exact (ih _).trans (fixed_onConnection s d.1 _)

theorem fixed_reject (n : Nat) (s : Server κ) : (s.reject n).1.fixed = s.fixed :=
  fixed_onConnection { s with metrics := s.metrics.record .rejected } n _

theorem fixed_enrol (n : Nat) (s : Server κ) : (s.enrol n).1.fixed = s.fixed := by
  unfold enrol
  dsimp only
  split
  · exact fixed_onConnection
      { s with nextId := s.nextId + 1, registry := s.registry.insert s.nextId.toUInt32 n } n _
  · exact fixed_reject n { s with nextId := s.nextId + 1 }

theorem fixed_accept (s : Server κ) (deeds : List (Nat × Connection.Deed κ)) (approved : Bool) :
    (s.accept deeds approved).1.fixed = s.fixed := by
  have hshown : (s.shown deeds).1.fixed = s.fixed := fixed_performAll deeds s.appear.1
  rw [accept_eq_shown]
  cases approved with
  | true => exact (fixed_enrol s.connections.length _).trans hshown
  | false => exact (fixed_reject s.connections.length _).trans hshown

theorem fixed_sweep (m : Message κ) (exclude : Option Nat) (ns : List Nat) (dead : List UInt32)
    (s : Server κ) : (sweep m exclude ns dead s).1.fixed = s.fixed := by
  induction ns generalizing s with
  | nil => rfl
  | cons n ns ih =>
    unfold sweep
    split
    · exact ih s
    · split
      · split
        · exact ih s
        · exact (ih _).trans (fixed_onConnection s n _)
      · rfl

theorem fixed_dispatch (left handled : Nat) (s : Server κ) :
    (dispatch left handled s).1.fixed = s.fixed := by
  induction left generalizing s handled with
  | zero => rfl
  | succ left ih =>
    unfold dispatch
    split
    · rfl
    · dsimp only
      split
      · rfl
      · exact ih _ { s with inbound := _ }

theorem fixed_resume {s : Server κ} {o : Outcome κ} (h : s.resume = some o) :
    o.1.fixed = s.fixed := by
  unfold resume at h
  split at h
  · cases h
  · next call calls hcalls =>
    cases h
    cases call with
    | updating left handled => exact fixed_dispatch left handled { s with calls := calls }
    | sweeping m exclude n rest dead =>
      exact fixed_sweep m exclude rest _ { s with calls := calls }
    | reporting n => rfl

theorem fixed_start {s s' : Server κ} {host : Host} {portNumber : UInt16}
    (h : s.start host portNumber = .ok s') : s'.fixed = s.fixed := by
  unfold start at h
  split at h
  · cases h
  · split at h
    · cases h
    · split at h
      · cases h
      · cases h
        rfl

variable [Kind κ] {s s' : Server κ} {es : List (Event κ)} {as : List (Action κ)}
  {settings : ServerSettings} {transport : TransportSettings} {entropy : Source}

theorem fixed_step {a : Action κ} {o : Outcome κ} (h : s.step a = some o) : o.1.fixed = s.fixed := by
  cases a with
  | start host portNumber =>
    simp only [step] at h
    split at h
    · split at h
      · next s' hstart =>
        cases h
        exact fixed_start hstart
      · cases h
        rfl
    · cases h
  | stop =>
    simp only [step] at h
    split at h
    · cases h
      exact fixed_stop s
    · cases h
  | accept deeds approved =>
    simp only [step] at h
    split at h
    · cases h
      exact fixed_accept s deeds approved
    · cases h
  | connection n a =>
    simp only [step] at h
    split at h
    · cases h
    · obtain ⟨c, -, hc⟩ := Option.bind_eq_some_iff.mp h
      obtain ⟨o', -, rfl⟩ := Option.map_eq_some_iff.mp hc
      exact fixed_absorb s n o'
  | messageClient n m =>
    obtain ⟨c, -, rfl⟩ := Option.map_eq_some_iff.mp h
    split
    · exact fixed_onConnection s n _
    · rfl
  | broadcast m exclude =>
    cases h
    exact fixed_sweep m exclude _ [] s
  | update limit wait =>
    simp only [step, update] at h
    split at h
    · cases h
    · cases h
      exact fixed_dispatch _ 0 s
  | resume => exact fixed_resume h
  | inject l =>
    cases h
    rfl
  | take =>
    obtain ⟨p, -, rfl⟩ := Option.map_eq_some_iff.mp h
    rfl

theorem fixed_run (hrun : s.run as = some (s', es)) : s'.fixed = s.fixed :=
  Run.all_invariant (I := fun t => t.fixed = s.fixed) (fun _ _ _ hs hstep => (fixed_step hstep).trans hs)
    rfl hrun

/-- All connections of a server have the limit it was made with. -/
theorem limit_eq_of_mem (hrun : (create settings transport entropy).run as = some (s, es))
    {c : Connection κ} (hc : c ∈ s.connections) : c.limit = transport.maxBodySize.toNat := by
  obtain ⟨n, hn⟩ := List.mem_iff_getElem?.mp hc
  obtain ⟨-, -, -, hasks⟩ := (ran_run hrun).sound hn
  exact hasks.limit_eq.trans (congrArg Prod.snd (fixed_run hrun))

omit [Kind κ] in
/-- **A server whose settings spell an address starts on it**, unless it is running or the machine
refuses that address. -/
theorem start_of_spells {address : Address} (h : Address.Spells s.settings.bindAddress.toList address)
    (host : Host) (portNumber : UInt16) :
    (∀ e, s.start host portNumber = .error e →
      s.attended = true ∧ e = .setup Fault.alreadyRunning ∨
      ∃ reason, host.bindFailure? address = some reason ∧
        e = .setup ("Failed to bind " ++ address.text ++ ":" ++ toString portNumber.toNat
          ++ ": " ++ reason)) ∧
    (s.attended = false → host.bindFailure? address = none →
      s.start host portNumber = .ok { s with attended := true, localAddress := some address }) := by
  have haddress : s.bindAddress? = .ok address := by
    simp only [bindAddress?, Address.parse?_eq_some_iff.mpr h]
  constructor
  · intro e he
    simp only [start, haddress] at he
    split at he
    · next hattended =>
      cases he
      exact .inl ⟨hattended, rfl⟩
    · split at he
      · next reason hreason =>
        cases he
        exact .inr ⟨reason, hreason, rfl⟩
      · cases he
  · intro hattended hbind
    simp only [start, haddress, hattended, hbind, Bool.false_eq_true, if_false]

/-! ### Ids -/

/-- Each id is a number counted on from `first`, by no more than the number of sockets accepted before;
the counter has 64 bits. -/
structure Numbering (s : Server κ) (first : Nat) (es : List (Event κ)) : Prop where
  next : ∃ k ≤ s.connections.length, s.nextId.toNat = (first + k) % 2 ^ 64
  given : ∀ e ∈ registrations es, ∃ k ≤ e.2, e.1.toNat = (first + k) % 2 ^ 64

omit [Kind κ] in
theorem Numbering.step {first : Nat} {a : Action κ} {o : Outcome κ} (h : Numbering s first es)
    (hcounts : Counts s a o) : Numbering o.1 first (es ++ o.2) := by
  obtain ⟨k, hk, hnext⟩ := h.next
  -- Only an accepted connection moves the counter, also if there is no id left to give it.
  have hsucc : (s.nextId + 1).toNat = (first + (k + 1)) % 2 ^ 64 := by
    rw [UInt64.toNat_add, hnext, UInt64.toNat_one, Nat.mod_add_mod, Nat.add_assoc]
  have hstill : registrations o.2 = [] →
      ∀ e ∈ registrations (es ++ o.2), ∃ k ≤ e.2, e.1.toNat = (first + k) % 2 ^ 64 := by
    intro hregs
    rw [registrations_append, hregs, List.append_nil]
    exact h.given
  cases hcounts with
  | still _ hlength hnext' hregs =>
    exact ⟨⟨k, hlength ▸ hk, hnext' ▸ hnext⟩, hstill hregs⟩
  | @accepts _ approved _ haccepted =>
    cases haccepted with
    | given _ hroom hlength hnext' hregs =>
      refine ⟨⟨k + 1, by omega, hnext' ▸ hsucc⟩, ?_⟩
      rw [registrations_append, hregs]
      intro e he
      rcases List.mem_append.mp he with he | he
      · exact h.given e he
      · rw [List.mem_singleton.mp he]
        refine ⟨k, hk, ?_⟩
        rw [UInt64.toNat_toUInt32, Nat.mod_eq_of_lt hroom, hnext]
    | refused _ hlength hnext' hregs =>
      refine ⟨?_, hstill hregs⟩
      cases approved with
      | true => exact ⟨k + 1, by omega, hnext' ▸ hsucc⟩
      | false => exact ⟨k, by omega, hnext' ▸ hnext⟩

theorem numbering_run (hrun : (create settings transport entropy).run as = some (s, es)) :
    Numbering s settings.firstClientId.toNat es := by
  refine Run.all_history (I := fun s _ es => Numbering s settings.firstClientId.toNat es) ?_ ?_ hrun
  · refine ⟨⟨0, Nat.le_refl 0, ?_⟩, nofun⟩
    have hlt : settings.firstClientId.toNat < 2 ^ 64 :=
      Nat.lt_trans settings.firstClientId.toNat_lt (by decide)
    rw [Nat.add_zero, Nat.mod_eq_of_lt hlt]
    exact UInt32.toNat_toUInt64 _
  · intro pre a post s₁ es₁ s₂ es₂ _ _ hstep ih
    exact ih.step (counts_of_step hstep)

omit [Kind κ] in
/-- No connection gets the id zero before all numbers have been used, unless it is the first id. -/
theorem Numbering.le_of_zero {first : Nat} (h : Numbering s first es) (hfirst : first ≠ 0) {n : Nat}
    (hzero : (0, n) ∈ registrations es) : 2 ^ 64 ≤ first + n := by
  obtain ⟨k, hk, hmod⟩ := h.given _ hzero
  have hdvd : 2 ^ 64 ∣ first + k := Nat.dvd_of_mod_eq_zero hmod.symm
  have hle : 2 ^ 64 ≤ first + k := Nat.le_of_dvd (by omega) hdvd
  omega

/-- What is registered was given its id. -/
theorem registered_of_entry (hrun : (create settings transport entropy).run as = some (s, es))
    {e : Registry.Entry} (he : e ∈ s.registry.entries) : e ∈ registrations es := by
  refine Run.all_history (I := fun s _ es => ∀ e ∈ s.registry.entries, e ∈ registrations es)
    (fun e he => absurd he List.not_mem_nil) ?_ hrun e he
  intro pre a post s₁ es₁ s₂ es₂ _ _ hstep ih e he
  rw [registrations_append]
  rcases (advance_of_step hstep).entry_cases he with hold | ⟨-, -, -, -, hevent⟩
  · exact List.mem_append_left _ (ih e hold)
  · exact List.mem_append_right _ (List.mem_filterMap.mpr ⟨_, hevent, rfl⟩)

end Parley.Server

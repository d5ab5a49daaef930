import Parley.Proofs.Server.Keyed

/-!
# Parley.Proofs.Server.Histories — the run that each connection has made

Whatever a server does, each of its connections makes a run of its own: from the moment it was
accepted its events are those of a run of the connection (`Ran`, `ran_run`).  So what holds of the
runs of one connection holds of all connections of a server.
-/

namespace Parley.Server

open Connection (arrivals)

variable {κ : Type}

variable [Kind κ] {s s' : Server κ} {b b' : Bool} {br br' : Nat → List UInt8}
  {es es' : List (Event κ)}

/-! ### Runs from one moment to another -/

/-- Between two moments connection `n` makes a run of its own. -/
def Onward (s s' : Server κ) (br : List UInt8) (es : List (Event κ)) (n : Nat) : Prop :=
  ∀ c, s.connections[n]? = some c → ∃ as c', s'.connections[n]? = some c' ∧
    c.run as = some (c', eventsOf n es) ∧ arrivals as = br

namespace Onward

variable {n : Nat}

/-- Nothing is done to the connection. -/
theorem still (hsame : s'.connections[n]? = s.connections[n]?) (hes : eventsOf n es = []) :
    Onward s s' [] es n := fun c hn =>
  ⟨[], c, hsame.trans hn, by rw [hes]; rfl, rfl⟩

/-- One connection makes a step, be it this one or another. -/
theorem absorb {k : Nat} {d : Connection κ} {a : Connection.Action κ} {o : Connection.Outcome κ}
    (hk : s.connections[k]? = some d) (hstep : d.step a = some o) :
    Onward s (s.absorb k o).1 (if n = k then a.brings else []) (s.absorb k o).2 n := by
  rw [absorb_eq]
  by_cases hnk : n = k
  · subst hnk
    intro c hn
    obtain rfl : d = c := Option.some.inj (hk.symm.trans hn)
    refine ⟨[a], o.1, List.getElem?_set_self (List.getElem?_eq_some_iff.mp hn).1, ?_, ?_⟩
    · rw [eventsOf_connection, if_pos rfl]
      exact Run.all_cons_eq_some_iff.mpr ⟨o.1, o.2, [], hstep, rfl, (List.append_nil _).symm⟩
    · rw [if_pos rfl, Connection.arrivals_singleton]
  · rw [if_neg hnk]
    refine still (List.getElem?_set_ne (Ne.symm hnk)) ?_
    rw [eventsOf_connection, if_neg (Ne.symm hnk)]

theorem act (h : Act s b br s' b' es) (n : Nat) : Onward s s' (br n) es n := by
  have hsame : s'.core.connections = s.core.connections → s'.connections[n]? = s.connections[n]? :=
    fun heq => congrArg (·[n]?) heq
  cases h with
  | connection hk ha hstep => exact absorb hk hstep
  | approve hk hentry hstep =>
    have hrun := absorb (n := n) hk hstep
    rwa [show (Connection.Action.approve (κ := κ) _).brings = [] from rfl, ite_self] at hrun
  | abort hcore =>
    intro c hn
    refine ⟨[.abort], c.abort, ?_, rfl, rfl⟩
    rw [show s'.connections = _ from congrArg Core.connections hcore, List.getElem?_map, hn]
    rfl
  | appear hcore =>
    intro c hn
    have hlt : n < s.connections.length := (List.getElem?_eq_some_iff.mp hn).1
    refine ⟨[], c, ?_, ?_, rfl⟩
    · rw [show s'.connections = _ from congrArg Core.connections hcore]
      exact (List.getElem?_append_left hlt).trans hn
    · have hof := eventsOf_connection (κ := κ) n s.connections.length [.established]
      rw [List.map_singleton, if_neg (Nat.ne_of_gt hlt)] at hof
      rw [hof]
      rfl
  | aside hcalls hcore hes => exact still (hsame (by rw [hcore])) (eventsOf_aside hes n)
  | _ => exact still (hsame (by simp only [*])) rfl

theorem acts (h : Acts s b br s' b' es) (n : Nat) : Onward s s' (br n) es n := by
  induction h with
  | refl => exact still rfl rfl
  | tail h hact ih =>
    intro c hn
    obtain ⟨as, c', hn', hrun, has⟩ := ih c hn
    obtain ⟨as', c'', hn'', hrun', has'⟩ := act hact n c' hn'
    refine ⟨as ++ as', c'', hn'', ?_, ?_⟩
    · rw [eventsOf_append]
      exact Run.all_append_of_eq_some hrun hrun'
    · rw [Connection.arrivals_append, has, has']

/-- Whatever is done to a server, connection `n` goes on with a run of its own. -/
theorem step (hs : Regular s) {a : Action κ} {o : Outcome κ} (hstep : s.step a = some o) (n : Nat) :
    Onward s o.1 (a.brings n) o.2 n := by
  rcases requeued_or_acts_of_step hs hstep with ⟨q, rfl⟩ | hacts
  · cases ha : a.isTampering with
    | false => exact acts (acts_of_step hs ha hstep) n
    | true =>
      have hbrings : a.brings n = [] := by
        cases a <;> first | rfl | cases ha
      rw [hbrings]
      exact still rfl rfl
  · exact acts hacts n

end Onward

/-! ### Runs from the beginning -/

/-- The bytes that arrived at connection `n`. -/
def arrivalsAt (n : Nat) (as : List (Action κ)) : List UInt8 := as.flatMap (·.brings n)

omit [Kind κ] in
@[simp] theorem arrivalsAt_append (n : Nat) (as bs : List (Action κ)) :
    arrivalsAt n (as ++ bs) = arrivalsAt n as ++ arrivalsAt n bs := by
  simp [arrivalsAt]

omit [Kind κ] in
@[simp] theorem arrivalsAt_singleton (n : Nat) (a : Action κ) :
    arrivalsAt n [a] = a.brings n := by
  simp [arrivalsAt]

/-- A connection that was just accepted. -/
structure Born (s : Server κ) (br : Nat → List UInt8) (es : List (Event κ)) (n : Nat)
    (c : Connection κ) : Prop where
  last : n = s.connections.length
  accepted : c = .accepted s.limit (s.source.challenge n)
  silent : br n = []
  counted : eventsOf n es = [.established]

/-- A connection that was not there before an act was just accepted. -/
theorem Act.born (h : Act s b br s' b' es) {n : Nat} {c : Connection κ}
    (hn : s'.connections[n]? = some c) (hge : s.connections.length ≤ n) : Born s br es n c := by
  have hlt : n < s'.core.connections.length := (List.getElem?_eq_some_iff.mp hn).1
  cases h with
  | connection hk ha hstep => rw [core_absorb, List.length_set] at hlt; exact absurd hlt (by omega)
  | approve hk hentry hstep =>
    rw [core_absorb, List.length_set] at hlt
    exact absurd hlt (by omega)
  | abort hcore => rw [hcore, List.length_map] at hlt; exact absurd hlt (by omega)
  | appear hcore =>
    rw [hcore, List.length_append, List.length_singleton] at hlt
    obtain rfl : n = s.connections.length := by omega
    have hlast : s'.core.connections[s.connections.length]? = some c := hn
    rw [hcore, List.getElem?_concat_length] at hlast
    have hof := eventsOf_connection (κ := κ) s.connections.length s.connections.length [.established]
    rw [List.map_singleton, if_pos rfl] at hof
    exact ⟨rfl, (Option.some.inj hlast).symm, rfl, hof⟩
  | _ =>
    simp only [*] at hlt
    exact absurd hlt (Nat.not_lt_of_le hge)

/-- The limit and the challenges of a server stay the same. -/
theorem Act.limit_source_eq (h : Act s b br s' b' es) : s'.limit = s.limit ∧ s'.source = s.source := by
  have hcore : s'.core.limit = s.core.limit ∧ s'.core.source = s.core.source := by
    cases h with
    | connection hk ha hstep => rw [core_absorb]; exact ⟨rfl, rfl⟩
    | approve hk hentry hstep => rw [core_absorb]; exact ⟨rfl, rfl⟩
    | _ => simp only [*, and_self]
  exact hcore

/-- Every connection has made a run since it was accepted, and nothing happened to connections that do
not exist. -/
structure Ran (s : Server κ) (br : Nat → List UInt8) (es : List (Event κ)) : Prop where
  run : ∀ (n : Nat) (c : Connection κ), s.connections[n]? = some c →
    ∃ as ces, (Connection.accepted s.limit (s.source.challenge n)).run as = some (c, ces) ∧
      arrivals as = br n ∧ eventsOf n es = .established :: ces
  blank : ∀ n, s.connections.length ≤ n → br n = [] ∧ eventsOf n es = []

namespace Ran

/-- So it is sound for what has happened since, and keeps its challenge. -/
theorem sound (h : Ran s br es) {n : Nat} {c : Connection κ} (hn : s.connections[n]? = some c) :
    ∃ ces, eventsOf n es = .established :: ces ∧ Connection.Sound c (br n) ces ∧
      Connection.Asks c s.limit (s.source.challenge n) := by
  obtain ⟨as, ces, hrun, has, hces⟩ := h.run n c hn
  refine ⟨ces, hces, ?_, (Connection.asks_accepted _ _).run hrun⟩
  rw [← has]
  exact (Connection.sound_accepted _ _).run hrun

theorem create (settings : ServerSettings) (transport : TransportSettings) (entropy : Source) :
    Ran (Server.create (κ := κ) settings transport entropy) (fun _ => []) [] where
  run n _ hn := absurd (List.getElem?_eq_some_iff.mp hn).1 (Nat.not_lt_zero n)
  blank _ _ := ⟨rfl, rfl⟩

theorem act (h : Ran s br es) (hact : Act s b br' s' b' es') :
    Ran s' (fun k => br k ++ br' k) (es ++ es') := by
  obtain ⟨hlimit, hsource⟩ := hact.limit_source_eq
  refine ⟨fun n c hn => ?_, fun n hn => ?_⟩
  · rw [hlimit, hsource, eventsOf_append]
    by_cases hlt : n < s.connections.length
    · obtain ⟨as, ces, hrun, has, hces⟩ := h.run n _ (List.getElem?_eq_getElem hlt)
      obtain ⟨as', c', hn', hrun', has'⟩ := Onward.act hact n _ (List.getElem?_eq_getElem hlt)
      obtain rfl : c' = c := Option.some.inj (hn'.symm.trans hn)
      refine ⟨as ++ as', _, Run.all_append_of_eq_some hrun hrun', ?_, ?_⟩
      · rw [Connection.arrivals_append, has, has']
      · rw [hces]
        rfl
    · obtain ⟨-, rfl, hbr, hevents⟩ := hact.born hn (Nat.le_of_not_lt hlt)
      obtain ⟨hnone, hblank⟩ := h.blank n (Nat.le_of_not_lt hlt)
      exact ⟨[], [], rfl, by rw [hnone, hbr]; rfl, by rw [hblank, hevents]; rfl⟩
  · have hle : s.connections.length ≤ n := hact.length_le.trans hn
    obtain ⟨hnone, hblank⟩ := h.blank n hle
    rw [eventsOf_append, hnone, hblank]
    have hquiet : br' n = [] ∧ eventsOf n es' = [] := by
      have hne : ∀ {k : Nat}, k < s.connections.length → n ≠ k := fun hk heq => by omega
      cases hact with
      | @connection _ k c a o hk ha hstep =>
        have hnk : n ≠ k := hne (List.getElem?_eq_some_iff.mp hk).1
        rw [absorb_eq, eventsOf_connection]
        exact ⟨if_neg hnk, if_neg (Ne.symm hnk)⟩
      | @approve _ k c id o hk hentry hstep =>
        have hnk : n ≠ k := hne (List.getElem?_eq_some_iff.mp hk).1
        rw [absorb_eq, eventsOf_connection]
        exact ⟨rfl, if_neg (Ne.symm hnk)⟩
      | appear hcore =>
        have hlen : s'.connections.length = _ := congrArg (List.length ∘ Core.connections) hcore
        rw [Function.comp_apply, List.length_append, List.length_singleton] at hlen
        have hnk : s.connections.length ≠ n := by
          intro heq
          rw [hlen, ← heq] at hn
          exact Nat.not_succ_le_self _ hn
        have hof := eventsOf_connection (κ := κ) n s.connections.length [.established]
        rw [List.map_singleton, if_neg hnk] at hof
        exact ⟨rfl, hof⟩
      | aside hcalls hcore hes => exact ⟨rfl, eventsOf_aside hes n⟩
      | _ => exact ⟨rfl, rfl⟩
    rw [hquiet.1, hquiet.2]
    exact ⟨rfl, rfl⟩

theorem acts (h : Ran s br es) (hacts : Acts s b br' s' b' es') :
    Ran s' (fun k => br k ++ br' k) (es ++ es') := by
  induction hacts with
  | refl => simpa only [List.append_nil] using h
  | tail hacts hact ih =>
    have hall := ih.act hact
    simpa only [List.append_assoc] using hall

end Ran

/-- **Every connection has made a run of its own**, whatever the server and the application did. -/
theorem ran_run {settings : ServerSettings} {transport : TransportSettings} {entropy : Source}
    {as : List (Action κ)} (hrun : (create settings transport entropy).run as = some (s, es)) :
    Ran s (fun n => arrivalsAt n as) es := by
  refine Run.all_history (I := fun s as es => Ran s (fun n => arrivalsAt n as) es)
    (.create settings transport entropy) ?_ hrun
  rintro pre a post s₁ es₁ s₂ es₂ - hpre hstep hran
  simp only [arrivalsAt_append, arrivalsAt_singleton]
  cases ha : a.isTampering with
  | false =>
    exact hran.acts (acts_of_step ((Regular.create settings transport entropy).run hpre) ha hstep)
  | true =>
    have hkept : s₂.connections = s₁.connections ∧ s₂.limit = s₁.limit ∧
        s₂.source = s₁.source ∧ es₂ = [] ∧ ∀ n, a.brings n = [] := by
      cases a with
      | inject l => cases hstep; exact ⟨rfl, rfl, rfl, rfl, fun _ => rfl⟩
      | take =>
        obtain ⟨p, -, ho⟩ := Option.map_eq_some_iff.mp hstep
        cases ho
        exact ⟨rfl, rfl, rfl, rfl, fun _ => rfl⟩
      | _ => cases ha
    obtain ⟨hconn, hlimit, hsource, rfl, hbr⟩ := hkept
    simp only [hbr, List.append_nil]
    exact ⟨by rw [hconn, hlimit, hsource]; exact hran.run, by rw [hconn]; exact hran.blank⟩

end Parley.Server

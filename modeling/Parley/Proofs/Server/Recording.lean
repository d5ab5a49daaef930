import Parley.Proofs.Counters
import Parley.Proofs.Server.Ids

/-!
# Parley.Proofs.Server.Recording — the counters of a server are its events, counted

Whatever a server does, its counters change by the entries of its events and by nothing else
(`recorded_step`).  A connection that is turned away is counted once, whoever turned it away
(`rejected_step`).
-/

namespace Parley.Server

variable {κ : Type}

/-- How an event is counted, if it is. -/
def Event.entry? : Event κ → Option Metrics.Entry
  | .connection _ e => e.entry?
  | .rejected _ => some .rejected
  | _ => none

/-- How events are counted. -/
def entries (es : List (Event κ)) : List Metrics.Entry := es.filterMap Event.entry?

@[simp] theorem entries_append (es fs : List (Event κ)) :
    entries (es ++ fs) = entries es ++ entries fs := by
  simp [entries]

theorem entries_connection (n : Nat) (ces : List (Connection.Event κ)) :
    entries (ces.map (.connection n)) = ces.filterMap Connection.Event.entry? := by
  rw [entries, List.filterMap_map]
  rfl

/-! ### Operations -/

/-- The counters have changed by what happened. -/
def Recorded (s : Server κ) (o : Outcome κ) : Prop :=
  o.1.metrics = s.metrics.recordAll (entries o.2)

namespace Recorded

theorem refl (s : Server κ) : Recorded s (s, []) := rfl

theorem andThen {s : Server κ} {o : Outcome κ} {next : Server κ → Outcome κ} (h : Recorded s o)
    (hnext : Recorded o.1 (next o.1)) : Recorded s (o.andThen next) := by
  show (next o.1).1.metrics = s.metrics.recordAll (entries (o.2 ++ (next o.1).2))
  rw [hnext, h, entries_append, Metrics.recordAll_append]

theorem absorb (s : Server κ) (n : Nat) (o : Connection.Outcome κ) : Recorded s (s.absorb n o) := by
  rw [absorb_eq]
  exact congrArg s.metrics.recordAll (entries_connection n o.2).symm

theorem onConnection (s : Server κ) (n : Nat) (f : Connection κ → Connection.Outcome κ) :
    Recorded s (s.onConnection n f) := by
  unfold Server.onConnection
  split
  · exact refl s
  · exact absorb s n _

theorem disconnectAll (ns : List Nat) (s : Server κ) : Recorded s (disconnectAll ns s) := by
  induction ns generalizing s with
  | nil => exact refl s
  | cons n ns ih => exact (onConnection s n _).andThen (ih _)

theorem performAll (deeds : List (Nat × Connection.Deed κ)) (s : Server κ) :
    Recorded s (performAll deeds s) := by
  induction deeds generalizing s with
  | nil => exact refl s
  | cons d deeds ih => exact (onConnection s d.1 _).andThen (ih _)

theorem stop (s : Server κ) : Recorded s s.stop := by
  unfold Server.stop
  split
  · have hclosed : Recorded s (Server.disconnectAll s.registry.numbers
        { s with attended := false, connections := s.connections.map Connection.abort }) :=
      disconnectAll _ _
    exact hclosed.andThen rfl
  · exact refl s

theorem reject (n : Nat) (s : Server κ) : Recorded s (s.reject n) := by
  have hclose := onConnection { s with metrics := s.metrics.record .rejected } n Connection.close
  exact hclose

theorem enrol (n : Nat) (s : Server κ) : Recorded s (s.enrol n) := by
  unfold Server.enrol
  dsimp only
  split
  · have hbegun := onConnection
      { s with nextId := s.nextId + 1, registry := s.registry.insert s.nextId.toUInt32 n } n
      fun c => (c.approve s.nextId.toUInt32, [])
    exact hbegun
  · have haway := reject n { s with nextId := s.nextId + 1 }
    exact haway

theorem accept (s : Server κ) (deeds : List (Nat × Connection.Deed κ)) (approved : Bool) :
    Recorded s (s.accept deeds approved) := by
  have happear : Recorded s s.appear := rfl
  rw [accept_eq]
  refine happear.andThen ((performAll deeds _).andThen ?_)
  cases approved with
  | true => exact enrol _ _
  | false => exact reject _ _

theorem sweep (m : Message κ) (exclude : Option Nat) (ns : List Nat) (dead : List UInt32)
    (s : Server κ) : Recorded s (sweep m exclude ns dead s) := by
  induction ns generalizing s with
  | nil => exact refl s
  | cons n ns ih =>
    unfold Server.sweep
    split
    · exact ih s
    · split
      · split
        · exact ih s
        · exact (onConnection s n _).andThen (ih _)
      · exact refl s

theorem messageClient {s : Server κ} {n : Nat} {m : Message κ} {o : Outcome κ}
    (h : s.messageClient n m = some o) : Recorded s o := by
  obtain ⟨c, hn, rfl⟩ := Option.map_eq_some_iff.mp h
  split
  · exact (onConnection s n _).andThen (refl _)
  · exact refl s

theorem dispatch (left handled : Nat) (s : Server κ) : Recorded s (dispatch left handled s) := by
  induction left generalizing s handled with
  | zero => exact refl s
  | succ left ih =>
    unfold Server.dispatch
    split
    · exact refl s
    · dsimp only
      split
      · exact refl s
      · exact ih _ { s with inbound := _ }

theorem resume {s : Server κ} {o : Outcome κ} (h : s.resume = some o) : Recorded s o := by
  unfold Server.resume at h
  split at h
  · cases h
  · next call calls hcalls =>
    cases h
    cases call with
    | updating left handled => exact dispatch left handled { s with calls := calls }
    | sweeping m exclude n rest dead => exact sweep m exclude rest _ { s with calls := calls }
    | reporting n => exact refl s

end Recorded

/-! ### Steps -/

variable [Kind κ] {s : Server κ} {a : Action κ} {o : Outcome κ}

/-- **The counters change by what happens**, in every step. -/
theorem recorded_step (h : s.step a = some o) : Recorded s o := by
  cases a with
  | start host portNumber =>
    simp only [step] at h
    split at h
    · split at h
      · next s' hstart =>
        cases h
        unfold start at hstart
        split at hstart
        · cases hstart
        · split at hstart
          · cases hstart
          · split at hstart
            · cases hstart
            · cases hstart; rfl
      · cases h; exact .refl s
    · cases h
  | stop =>
    simp only [step] at h
    split at h
    · cases h; exact .stop s
    · cases h
  | accept deeds approved =>
    simp only [step] at h
    split at h
    · cases h; exact .accept s deeds approved
    · cases h
  | connection n a =>
    simp only [step] at h
    split at h
    · cases h
    · obtain ⟨c, hn, hc⟩ := Option.bind_eq_some_iff.mp h
      obtain ⟨o', hstep, rfl⟩ := Option.map_eq_some_iff.mp hc
      exact .absorb s n o'
  | messageClient n m => exact .messageClient h
  | broadcast m exclude => cases h; exact .sweep m exclude _ [] s
  | update limit wait =>
    simp only [step, update] at h
    split at h
    · cases h
    · cases h; exact .dispatch _ 0 s
  | resume => exact .resume h
  | inject l => cases h; exact .refl s
  | take =>
    obtain ⟨p, -, rfl⟩ := Option.map_eq_some_iff.mp h
    exact .refl s

/-- The counters of a server are those of its history. -/
theorem recorded_run {settings : ServerSettings} {transport : TransportSettings} {entropy : Source}
    {as : List (Action κ)} {es : List (Event κ)}
    (hrun : (create settings transport entropy).run as = some (s, es)) :
    s.metrics = Metrics.recordAll {} (entries es) := by
  refine Run.all_history (I := fun s _ es => s.metrics = Metrics.recordAll {} (entries es)) rfl ?_ hrun
  intro pre a post s₁ es₁ s₂ es₂ _ _ hstep h₁
  rw [entries_append, Metrics.recordAll_append, ← h₁]
  exact recorded_step hstep

/-! ### Sockets that are turned away -/

/-- Accepting a socket. -/
def Action.isAccept : Action κ → Bool
  | .accept _ _ => true
  | _ => false

/-- The number of sockets accepted. -/
def accepts (as : List (Action κ)) : Nat := as.countP Action.isAccept

/-- The number of sockets turned away, where `next` is the next number to assign: the hook does not
approve of them, or it does and the number is too large for an id. -/
def refusals : UInt64 → List (Action κ) → Nat
  | _, [] => 0
  | next, .accept _ true :: as =>
    (if next.toNat < UInt32.size then 0 else 1) + refusals (next + 1) as
  | next, .accept _ false :: as => 1 + refusals next as
  | next, _ :: as => refusals next as

omit [Kind κ] in
theorem rejected_dispatch (left handled : Nat) (s : Server κ) :
    (dispatch left handled s).1.metrics = s.metrics := by
  induction left generalizing s handled with
  | zero => rfl
  | succ left ih =>
    unfold dispatch
    split
    · rfl
    · dsimp only
      split
      · rfl
      · exact ih _ { s with inbound := _ }

/-- Nobody is turned away but by accepting a socket. -/
theorem rejected_step (h : s.step a = some o) (ha : a.isAccept = false) :
    o.1.metrics.connectionsRejected = s.metrics.connectionsRejected := by
  cases turn_of_step h with
  | accepts => cases ha
  | @connection n c a o hn howners hstep => exact rejected_absorb s n o
  | updates => rw [rejected_dispatch]
  | updatesOn hcalls => rw [rejected_dispatch]
  | steady _ _ h => exact h.rejected_eq
  | requeues => rfl

/-- What a step that accepts no socket makes of the numbers. -/
theorem unnumbered_step (h : s.step a = some o) (ha : a.isAccept = false) :
    o.1.connections.length = s.connections.length ∧ o.1.nextId = s.nextId ∧
      registrations o.2 = [] := by
  cases counts_of_step h with
  | accepts => cases ha
  | still _ hlength hnext hregs => exact ⟨hlength, hnext, hregs⟩

/-- A run makes a connection of every socket it accepts; it turns some of them away, which are counted,
and registers the others. -/
theorem accepts_run {as : List (Action κ)} {s s' : Server κ} {es : List (Event κ)}
    (hrun : s.run as = some (s', es)) :
    s'.connections.length = s.connections.length + accepts as ∧
      (registrations es).length + refusals s.nextId as = accepts as ∧
      s'.metrics.connectionsRejected =
        s.metrics.connectionsRejected + UInt64.ofNat (refusals s.nextId as) := by
  -- From the front, because refusals are counted with the next id there is before each step.
  induction as generalizing s es with
  | nil =>
    cases hrun
    exact ⟨rfl, rfl, (UInt64.add_zero _).symm⟩
  | cons a as ih =>
    obtain ⟨s₁, es₁, es₂, hstep, hrest, rfl⟩ := Run.all_cons_eq_some_iff.mp hrun
    obtain ⟨hlength, hregs, hrejected⟩ := ih hrest
    rw [hlength, hrejected, registrations_append, List.length_append]
    cases ha : a.isAccept with
    | false =>
      obtain ⟨hsame, hnext, hnone⟩ := unnumbered_step hstep ha
      have hrefusals : refusals s.nextId (a :: as) = refusals s.nextId as := by
        cases a <;> first | rfl | cases ha
      have haccepts : accepts (a :: as) = accepts as :=
        List.countP_cons_of_neg (by rw [ha]; nofun)
      rw [show s₁.nextId = _ from hnext] at hregs ⊢
      rw [hrefusals, haccepts, show registrations es₁ = _ from hnone,
        show s₁.connections.length = _ from hsame,
        show s₁.metrics.connectionsRejected = _ from rejected_step hstep ha]
      exact ⟨rfl, by rw [List.length_nil, Nat.zero_add]; exact hregs, rfl⟩
    | true =>
      have haccepts : accepts (a :: as) = accepts as + 1 := List.countP_cons_of_pos ha
      obtain ⟨deeds, approved, rfl⟩ : ∃ deeds approved, a = .accept deeds approved := by
        cases a <;> first | exact ⟨_, _, rfl⟩ | cases ha
      rw [haccepts]
      cases accepted_of_step hstep with
      | given happroved hroom hsame hnext hnew _ hkept =>
        subst happroved
        rw [show s₁.nextId = _ from hnext] at hregs ⊢
        rw [show registrations es₁ = _ from hnew, show s₁.connections.length = _ from hsame,
          show s₁.metrics.connectionsRejected = _ from hkept, refusals, if_pos hroom]
        refine ⟨by omega, ?_, by rw [Nat.zero_add]⟩
        rw [List.length_singleton]
        omega
      | refused hwhy hsame hnext hnone _ hcounted =>
        have hrefusals : refusals s.nextId (.accept deeds approved :: as) =
            1 + refusals s₁.nextId as := by
          rw [show s₁.nextId = _ from hnext]
          cases approved with
          | false => rfl
          | true =>
            rw [refusals, if_neg (Nat.not_lt_of_le (hwhy.resolve_left nofun))]
            rfl
        rw [hrefusals, show registrations es₁ = _ from hnone,
          show s₁.connections.length = _ from hsame,
          show s₁.metrics.connectionsRejected = _ from hcounted]
        refine ⟨by omega, by rw [List.length_nil]; omega, ?_⟩
        rw [UInt64.ofNat_add, UInt64.add_assoc]
        rfl

/-! ### Connections that began are registered -/

/-- What is registered was registered in the course of the history, and so was every connection that
was begun. -/
structure Enlisted (s : Server κ) (es : List (Event κ)) : Prop where
  entered : ∀ e ∈ s.registry.entries, e ∈ registrations es
  begun : ∀ n c, s.connections[n]? = some c → c.stage ≠ .absent → ∃ id, (id, n) ∈ registrations es

namespace Enlisted

variable {s' : Server κ} {b b' : Bool} {br : Nat → List UInt8} {es es' : List (Event κ)}

omit [Kind κ] in
theorem mono {e : Registry.Entry} (h : e ∈ registrations es) (es' : List (Event κ)) :
    e ∈ registrations (es ++ es') := by
  rw [registrations_append]
  exact List.mem_append_left _ h

omit [Kind κ] in
/-- The connections are left alone. -/
theorem still (h : Enlisted s es) (hconn : s'.connections = s.connections)
    (hentries : ∀ e ∈ s'.registry.entries, e ∈ registrations (es ++ es')) :
    Enlisted s' (es ++ es') where
  entered := hentries
  begun n c hn hstage := by
    rw [hconn] at hn
    obtain ⟨id, hid⟩ := h.begun n c hn hstage
    exact ⟨id, mono hid es'⟩

omit [Kind κ] in
/-- A connection makes a step, which begins it only if it is registered. -/
theorem absorb (h : Enlisted s es) {n : Nat} {c : Connection κ} {o : Connection.Outcome κ}
    (hn : s.connections[n]? = some c)
    (hbegun : o.1.stage ≠ .absent → c.stage ≠ .absent ∨ ∃ id, (id, n) ∈ s.registry.entries) :
    Enlisted (s.absorb n o).1 (es ++ (s.absorb n o).2) := by
  rw [absorb_eq]
  refine ⟨fun e he => mono (h.entered e he) _, fun k d hk hstage => ?_⟩
  by_cases hkn : k = n
  · subst hkn
    rw [List.getElem?_set_self (List.getElem?_eq_some_iff.mp hn).1] at hk
    cases hk
    rcases hbegun hstage with hold | ⟨id, hid⟩
    · obtain ⟨id, hid⟩ := h.begun k c hn hold
      exact ⟨id, mono hid _⟩
    · exact ⟨id, mono (h.entered _ hid) _⟩
  · rw [List.getElem?_set_ne (Ne.symm hkn)] at hk
    obtain ⟨id, hid⟩ := h.begun k d hk hstage
    exact ⟨id, mono hid _⟩

theorem act (h : Enlisted s es) (hact : Act s b br s' b' es') : Enlisted s' (es ++ es') := by
  have hold : ∀ e ∈ s.registry.entries, e ∈ registrations (es ++ es') :=
    fun e he => mono (h.entered e he) es'
  cases hact with
  | connection hn ha hstep =>
    exact h.absorb hn fun hstage => .inl fun habsent => hstage (absent_step ha hstep habsent)
  | approve hn hentry hstep => exact h.absorb hn fun _ => .inr ⟨_, hentry⟩
  | abort hcore =>
    have hconn : s'.connections = _ := congrArg Core.connections hcore
    have hregistry : s'.registry = s.registry := congrArg Core.registry hcore
    refine ⟨by rw [hregistry]; exact hold, fun n c hn hstage => ?_⟩
    rw [hconn, List.getElem?_map] at hn
    obtain ⟨c₀, hn₀, rfl⟩ := Option.map_eq_some_iff.mp hn
    obtain ⟨id, hid⟩ := h.begun n c₀ hn₀ fun habsent => hstage (by simp [Connection.abort, habsent])
    exact ⟨id, mono hid _⟩
  | appear hcore =>
    have hconn : s'.connections = _ := congrArg Core.connections hcore
    have hregistry : s'.registry = s.registry := congrArg Core.registry hcore
    refine ⟨by rw [hregistry]; exact hold, fun n c hn hstage => ?_⟩
    rw [hconn] at hn
    by_cases hlt : n < s.connections.length
    · rw [List.getElem?_append_left hlt] at hn
      obtain ⟨id, hid⟩ := h.begun n c hn hstage
      exact ⟨id, mono hid _⟩
    · rw [List.getElem?_append_right (Nat.le_of_not_lt hlt)] at hn
      obtain rfl := List.mem_singleton.mp (List.mem_of_getElem? hn)
      exact absurd rfl hstage
  | @register _ n hn hroom hcore =>
    have hregistry : s'.registry = _ := congrArg Core.registry hcore
    refine h.still (congrArg Core.connections hcore) fun e he => ?_
    rw [hregistry] at he
    rcases Registry.of_mem_insert he with rfl | he
    · rw [registrations_append]
      exact List.mem_append_right _ (List.mem_singleton.mpr rfl)
    · exact hold e he
  | @prune _ _ ids hids hcore =>
    have hregistry : s'.registry = _ := congrArg Core.registry hcore
    refine h.still (congrArg Core.connections hcore) fun e he => ?_
    rw [hregistry] at he
    exact hold e ((Registry.mem_fst_move_iff ids).mp he).1
  | _ =>
    have hcore := ‹s'.core = _›
    have hregistry : s'.registry = s.registry := congrArg Core.registry hcore
    exact h.still (congrArg Core.connections hcore) (by rw [hregistry]; exact hold)

theorem acts (h : Enlisted s es) (hacts : Acts s b br s' b' es') : Enlisted s' (es ++ es') := by
  induction hacts with
  | refl =>
    rw [List.append_nil]
    exact h
  | tail hacts hact ih =>
    have hall := ih.act hact
    rwa [List.append_assoc] at hall

omit [Kind κ] in
theorem create (settings : ServerSettings) (transport : TransportSettings) (entropy : Source) :
    Enlisted (Server.create (κ := κ) settings transport entropy) [] where
  entered := nofun
  begun n _ hn := absurd (List.getElem?_eq_some_iff.mp hn).1 (Nat.not_lt_zero n)

theorem run {settings : ServerSettings} {transport : TransportSettings} {entropy : Source}
    {as : List (Action κ)} (hrun : (Server.create settings transport entropy).run as = some (s, es)) :
    Enlisted s es := by
  refine Run.all_history (I := fun s _ es => Enlisted s es)
    (.create settings transport entropy) ?_ hrun
  intro pre a post s₁ es₁ s₂ es₂ _ hpre hstep h₁
  rcases requeued_or_acts_of_step ((Regular.create settings transport entropy).run hpre) hstep with
    ⟨q, ho⟩ | hacts
  · cases ho
    exact ⟨fun e he => mono (h₁.entered e he) [], fun n c hn hstage => by
      rw [List.append_nil]
      exact h₁.begun n c hn hstage⟩
  · exact h₁.acts hacts

end Enlisted

end Parley.Server
